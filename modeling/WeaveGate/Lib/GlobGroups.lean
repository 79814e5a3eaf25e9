import WeaveGate.Lib.Captures
import WeaveGate.Lib.Glob

/-!
# The constructs of a glob

Which parts of a glob are to be numbered, what each of them takes of a path, and when the groups of the expression
are these parts.
-/

namespace Glob

open Regexp (Taken unused)

/-! ## Constructs -/

mutual
/-- Stars for whole directories and choices count, each before what is inside of it. -/
def Token.constructs : Token → Nat
  | .recursivePrefix | .recursiveZeroOrMore => 1
  | .alternates parts => 1 + partsConstructs parts
  | _ => 0

def constructs : List Token → Nat
  | [] => 0
  | t :: ts => t.constructs + constructs ts

def partsConstructs : List (List Token) → Nat
  | [] => 0
  | part :: parts => constructs part + partsConstructs parts
end

def CharRange.Has (r : CharRange) (x : Nat) : Prop := r.first.toNat ≤ x ∧ x ≤ r.last.toNat

mutual
/-- What a token can take, with what the constructs in it take. -/
inductive Token.Takes : Token → List Nat → Taken → Prop where
  | literal (c : Char) : Token.Takes (.literal c) (units c) []
  | any {x : Nat} (h : x ≠ 0x2F) : Token.Takes .any [x] []
  | zeroOrMore {w : List Nat} (h : ∀ x ∈ w, x ≠ 0x2F) : Token.Takes .zeroOrMore w []
  | recursivePrefix {w : List Nat} (h : w = [] ∨ w.getLast? = some 0x2F) : Token.Takes .recursivePrefix w [some w]
  | recursiveSuffix (w : List Nat) : Token.Takes .recursiveSuffix (0x2F :: w) []
  | recursiveZeroOrMore {w : List Nat} (hfirst : w.head? = some 0x2F) (hlast : w.getLast? = some 0x2F) :
      Token.Takes .recursiveZeroOrMore w [some w]
  | cls {negated : Bool} {ranges : List CharRange} (nonempty : ranges ≠ []) {x : Nat}
      (h : (∃ r ∈ ranges, r.Has x) ↔ negated = false) : Token.Takes (.cls negated ranges nonempty) [x] []
  | alternates {parts : List (List Token)} {w : List Nat} {caps : Taken} (h : OneTakes parts w caps) :
      Token.Takes (.alternates parts) w (some w :: caps)

/-- The tokens take the word piece by piece. -/
inductive Splits : List Token → List Nat → Taken → Prop where
  | nil : Splits [] [] []
  | cons {t : Token} {ts : List Token} {w w' : List Nat} {caps caps' : Taken} (h : t.Takes w caps)
      (h' : Splits ts w' caps') : Splits (t :: ts) (w ++ w') (caps ++ caps')

/-- One of the alternatives takes the word, and the constructs of the others take nothing. -/
inductive OneTakes : List (List Token) → List Nat → Taken → Prop where
  | here {part : List Token} (parts : List (List Token)) {w : List Nat} {caps : Taken} (h : Splits part w caps) :
      OneTakes (part :: parts) w (caps ++ unused (partsConstructs parts))
  | there (part : List Token) {parts : List (List Token)} {w : List Nat} {caps : Taken} (h : OneTakes parts w caps) :
      OneTakes (part :: parts) w (unused (constructs part) ++ caps)
end

mutual
theorem Token.Takes.length {t : Token} {w : List Nat} {caps : Taken} : t.Takes w caps → caps.length = t.constructs
  | .literal _ => rfl
  | .any _ => rfl
  | .zeroOrMore _ => rfl
  | .recursivePrefix _ => rfl
  | .recursiveSuffix _ => rfl
  | .recursiveZeroOrMore _ _ => rfl
  | .cls _ _ => rfl
  | .alternates h => by rw [List.length_cons, h.length, Token.constructs, Nat.add_comm]

theorem Splits.length {ts : List Token} {w : List Nat} {caps : Taken} : Splits ts w caps → caps.length = constructs ts
  | .nil => rfl
  | .cons h h' => by rw [List.length_append, h.length, h'.length, constructs]

theorem OneTakes.length {parts : List (List Token)} {w : List Nat} {caps : Taken} :
    OneTakes parts w caps → caps.length = partsConstructs parts
  | .here parts h => by rw [List.length_append, h.length, Regexp.length_unused, partsConstructs]
  | .there part h => by rw [List.length_append, h.length, Regexp.length_unused, partsConstructs]
end

/-! ## Constructs with a group -/

mutual
/-- Every choice has an alternative that is not empty. -/
def Token.grouped : Token → Bool
  | .alternates parts => parts.any (fun part => !part.isEmpty) && partsGrouped parts
  | _ => true

def allGrouped : List Token → Bool
  | [] => true
  | t :: ts => t.grouped && allGrouped ts

def partsGrouped : List (List Token) → Bool
  | [] => true
  | part :: parts => allGrouped part && partsGrouped parts
end

/-- The glob of a single `**` has an expression of its own. -/
def numbersAll : List Token → Bool
  | [.recursivePrefix] => false
  | tokens => allGrouped tokens

theorem escape_ne_nil (u : Nat) : Regexp.escape u ≠ [] := by
  unfold Regexp.escape
  split
  · split <;> exact List.cons_ne_nil _ _
  · exact List.cons_ne_nil _ _

theorem literals_text_ne_nil {us : List Nat} (h : us ≠ []) : (literals us).text ≠ [] := by
  cases us with
  | nil => exact absurd rfl h
  | cons u us => exact fun htext => escape_ne_nil u (List.append_eq_nil_iff.mp htext).1

mutual
theorem Token.text_ne_nil : ∀ t : Token, t.grouped = true → t.regexp.text ≠ []
  | .literal c, _ => literals_text_ne_nil (units_ne_nil c)
  | .any, _ => List.cons_ne_nil _ _
  | .zeroOrMore, _ => List.cons_ne_nil _ _
  | .recursivePrefix, _ => List.cons_ne_nil _ _
  | .recursiveSuffix, _ => List.cons_ne_nil _ _
  | .recursiveZeroOrMore, _ => List.cons_ne_nil _ _
  | .cls _ _ _, _ => List.cons_ne_nil _ _
  | .alternates parts, h => by
      obtain ⟨hany, hparts⟩ := Bool.and_eq_true_iff.mp h
      unfold Token.regexp
      cases hregexps : partRegexps parts with
      | nil => exact absurd hregexps (partRegexps_ne_nil parts hparts hany)
      | cons r rs => exact List.cons_ne_nil _ _

theorem regexps_text_ne_nil : ∀ ts : List Token, allGrouped ts = true → ts ≠ [] → (regexps ts).text ≠ []
  | [], _, hne => absurd rfl hne
  | t :: _, h, _ => fun htext =>
      Token.text_ne_nil t (Bool.and_eq_true_iff.mp h).1 (List.append_eq_nil_iff.mp htext).1

theorem partRegexps_ne_nil : ∀ parts : List (List Token), partsGrouped parts = true →
    parts.any (fun part => !part.isEmpty) = true → partRegexps parts ≠ []
  | [], _, hany => nomatch hany
  | part :: parts, h, hany => by
      obtain ⟨hpart, hparts⟩ := Bool.and_eq_true_iff.mp h
      unfold partRegexps
      split
      · rename_i htext
        have hempty : part = [] := by
          by_contra hne
          exact regexps_text_ne_nil part hpart hne htext
        refine partRegexps_ne_nil parts hparts ?_
        rw [hempty] at hany
        exact hany
      · exact List.cons_ne_nil _ _
end

/-- The groups of several expressions once they are numbered. -/
def sumGroups (rs : List Regexp) : Nat := (rs.map fun r => r.capture.groups).sum

theorem alts_groups (r : Regexp) (rs : List Regexp) : (alts r rs).capture.groups = sumGroups (r :: rs) := by
  induction rs generalizing r with
  | nil => simp [alts, sumGroups]
  | cons r' rs ih =>
      have hrest := ih r'
      simp only [alts, Regexp.capture, Regexp.groups, hrest, sumGroups, List.map_cons, List.sum_cons]

theorem literals_groups (us : List Nat) : (literals us).capture.groups = 0 := by
  induction us with
  | nil => rfl
  | cons u us ih => simp only [literals, Regexp.capture, Regexp.groups, ih]

theorem any_nonempty_of_partRegexps {parts : List (List Token)} (h : partRegexps parts ≠ []) :
    parts.any (fun part => !part.isEmpty) = true := by
  induction parts with
  | nil => exact absurd rfl h
  | cons part parts ih =>
      rw [List.any_cons, Bool.or_eq_true]
      cases part with
      | nil => exact .inr (ih (by simpa [partRegexps, regexps, Regexp.text] using h))
      | cons t ts => exact .inl rfl

mutual
/-- There are no more groups than constructs, and as many only when each construct has one. -/
theorem Token.groups_le : ∀ t : Token, t.regexp.capture.groups ≤ t.constructs ∧
    (t.regexp.capture.groups = t.constructs ↔ t.grouped = true)
  | .literal c => by
      rw [Token.regexp, literals_groups]
      exact ⟨Nat.le_refl _, iff_of_true rfl rfl⟩
  | .any => ⟨Nat.le_refl _, iff_of_true rfl rfl⟩
  | .zeroOrMore => ⟨Nat.le_refl _, iff_of_true rfl rfl⟩
  | .recursivePrefix => ⟨Nat.le_refl _, iff_of_true rfl rfl⟩
  | .recursiveSuffix => ⟨Nat.le_refl _, iff_of_true rfl rfl⟩
  | .recursiveZeroOrMore => ⟨Nat.le_refl _, iff_of_true rfl rfl⟩
  | .cls _ _ _ => ⟨Nat.le_refl _, iff_of_true rfl rfl⟩
  | .alternates parts => by
      obtain ⟨hle, heq⟩ := partRegexps_groups_le parts
      unfold Token.regexp Token.constructs Token.grouped
      cases hregexps : partRegexps parts with
      | nil =>
          have hno : ¬ (parts.any (fun part => !part.isEmpty) && partsGrouped parts) = true := fun h => by
            obtain ⟨hany, hparts⟩ := Bool.and_eq_true_iff.mp h
            exact partRegexps_ne_nil parts hparts hany hregexps
          refine ⟨Nat.zero_le _, iff_of_false ?_ hno⟩
          show 0 ≠ 1 + partsConstructs parts
          omega
      | cons r rs =>
          rw [hregexps] at hle heq
          have hne : partRegexps parts ≠ [] := hregexps ▸ List.cons_ne_nil _ _
          have hany := any_nonempty_of_partRegexps hne
          simp only [Regexp.capture, Regexp.groups, alts_groups, if_true, hany, Bool.true_and, ← heq]
          omega

theorem regexps_groups_le : ∀ ts : List Token, (regexps ts).capture.groups ≤ constructs ts ∧
    ((regexps ts).capture.groups = constructs ts ↔ allGrouped ts = true)
  | [] => ⟨Nat.le_refl _, iff_of_true rfl rfl⟩
  | t :: ts => by
      obtain ⟨hle, heq⟩ := Token.groups_le t
      obtain ⟨hle', heq'⟩ := regexps_groups_le ts
      simp only [regexps, Regexp.capture, Regexp.groups, constructs, allGrouped, Bool.and_eq_true, ← heq, ← heq']
      omega

theorem partRegexps_groups_le : ∀ parts : List (List Token), sumGroups (partRegexps parts) ≤ partsConstructs parts ∧
    (sumGroups (partRegexps parts) = partsConstructs parts ↔ partsGrouped parts = true)
  | [] => ⟨Nat.le_refl _, iff_of_true rfl rfl⟩
  | part :: parts => by
      obtain ⟨hle, heq⟩ := regexps_groups_le part
      obtain ⟨hle', heq'⟩ := partRegexps_groups_le parts
      unfold partRegexps partsConstructs partsGrouped
      rw [Bool.and_eq_true, ← heq, ← heq']
      split
      · rename_i htext
        -- an alternative without a text has no group, so it has to be without constructs
        have hempty : (regexps part).capture.groups = constructs part → constructs part = 0 := fun hall => by
          by_contra hne
          refine regexps_text_ne_nil part (heq.mp hall) ?_ htext
          rintro rfl
          exact hne rfl
        omega
      · simp only [sumGroups, List.map_cons, List.sum_cons] at hle' ⊢
        omega
end

theorem sole_or (tokens : List Token) : tokens = [.recursivePrefix] ∨
    regexp tokens = regexps tokens ∧ numbersAll tokens = allGrouped tokens := by
  cases tokens with
  | nil => exact .inr ⟨rfl, rfl⟩
  | cons t ts =>
      cases ts with
      | nil => cases t <;> first | exact .inl rfl | exact .inr ⟨rfl, rfl⟩
      | cons t' ts => cases t <;> exact .inr ⟨rfl, rfl⟩

/-- The numbered groups are the constructs of the glob exactly when each construct has one. -/
theorem groups_eq_constructs_iff (tokens : List Token) :
    (regexp tokens).capture.groups = constructs tokens ↔ numbersAll tokens = true := by
  rcases sole_or tokens with rfl | ⟨hregexp, hall⟩
  · exact iff_of_false (by decide) (by decide)
  · rw [hregexp, hall]
    exact (regexps_groups_le tokens).2

/-! ## Classes -/

theorem units_ascii {c : Char} (h : c.toNat < 0x80) : units c = [c.toNat] := by
  rcases units_bounds c with ⟨_, hunits⟩ | ⟨hge, _⟩
  · exact hunits
  · omega

/-- No byte of a character that is not ASCII is one of an ASCII character. -/
theorem units_ge {c : Char} (h : 0x80 ≤ c.toNat) {u : Nat} (hu : u ∈ units c) : 0x80 ≤ u := by
  have htoNat : c.val.toNat = c.toNat := rfl
  unfold units String.utf8EncodeChar at hu
  dsimp only at hu
  rw [htoNat] at hu
  split at hu
  · omega
  · split at hu
    · simp only [List.map_cons, List.map_nil, List.mem_cons, List.not_mem_nil, or_false, UInt8.toNat_ofNat'] at hu
      omega
    · split at hu <;> simp only [List.map_cons, List.map_nil, List.mem_cons, List.not_mem_nil, or_false,
        UInt8.toNat_ofNat'] at hu <;> omega

theorem singles_has_iff {us : List Nat} {x : Nat} :
    (∃ m ∈ us.map Regexp.Member.single, m.Has x) ↔ x ∈ us := by
  simp [Regexp.Member.Has]

/-- The first byte of the last character and the last byte of the first one bound the same ASCII characters. -/
theorem units_end_iff (c : Char) {x : Nat} (hx : x < 0x80) : ((units c).getLastD 0 ≤ x ↔ c.toNat ≤ x) ∧
    (x ≤ (units c).headD 0 ↔ x ≤ c.toNat) ∧ x ∉ (units c).dropLast ∧ x ∉ (units c).tail := by
  by_cases hc : c.toNat < 0x80
  · rw [units_ascii hc]
    simp
  · obtain ⟨_, hhead, _⟩ := (units_bounds c).resolve_left fun h => hc h.1
    have hge : ∀ u ∈ units c, 0x80 ≤ u := fun u hu => units_ge (by omega) hu
    have hlast : (units c).getLastD 0 ∈ units c := by
      rw [List.getLastD_eq_getLast?, List.getLast?_eq_getLast_of_ne_nil (units_ne_nil c)]
      exact List.getLast_mem _
    have hlastGe := hge _ hlast
    refine ⟨by omega, by omega, fun hmem => ?_, fun hmem => ?_⟩
    · have := hge x (List.mem_of_mem_dropLast hmem)
      omega
    · have := hge x (List.mem_of_mem_tail hmem)
      omega

/-- On ASCII a range has the characters between its ends. -/
theorem CharRange.has_iff (r : CharRange) {x : Nat} (hx : x < 0x80) : (∃ m ∈ r.members, m.Has x) ↔ r.Has x := by
  obtain ⟨hfirst, -, hdropLast, -⟩ := units_end_iff r.first hx
  obtain ⟨-, hlast, -, htail⟩ := units_end_iff r.last hx
  unfold members Has
  split
  · rename_i heq
    rw [singles_has_iff, ← heq]
    by_cases hc : r.first.toNat < 0x80
    · rw [units_ascii hc, List.mem_singleton]
      omega
    · refine iff_of_false (fun hmem => ?_) (by omega)
      have := units_ge (by omega) hmem
      omega
  · rw [← hfirst, ← hlast]
    constructor
    · rintro ⟨m, hm, hhas⟩
      rcases List.mem_append.mp hm with hm | hm
      · exact absurd (singles_has_iff.mp ⟨m, hm, hhas⟩) hdropLast
      · rcases List.mem_cons.mp hm with rfl | hm
        · exact hhas
        · exact absurd (singles_has_iff.mp ⟨m, hm, hhas⟩) htail
    · intro hrange
      exact ⟨_, List.mem_append_right _ List.mem_cons_self, hrange⟩

/-! ## What the groups take -/

theorem takes_literals {any : Nat → Prop} {us w : List Nat} {caps : Taken}
    (h : Regexp.Takes any (literals us).capture w caps) : w = us ∧ caps = [] := by
  induction us generalizing w caps with
  | nil =>
      cases h
      exact ⟨rfl, rfl⟩
  | cons u us ih =>
      cases h with
      | seq hunit hrest =>
          cases hunit
          obtain ⟨rfl, rfl⟩ := ih hrest
          exact ⟨rfl, rfl⟩

theorem takes_notSlash {any : Nat → Prop} {w : List Nat} {caps : Taken} (h : Regexp.Takes any notSlash w caps) :
    ∃ x, w = [x] ∧ x ≠ 0x2F := by
  cases h with
  | @cls _ _ x hx =>
      refine ⟨x, rfl, fun heq => ?_⟩
      exact absurd (hx.mp ⟨.single 0x2F, List.mem_singleton_self _, heq⟩) (by decide)

theorem takes_anything {any : Nat → Prop} {w : List Nat} {caps : Taken} (h : Regexp.Takes any anything w caps) :
    caps = [] :=
  (Regexp.takes_star (P := fun _ => True) rfl (fun hdot => by
    cases hdot with
    | @dot x _ => exact ⟨x, rfl, trivial⟩) h).1

def IsAscii (w : List Nat) : Prop := ∀ x ∈ w, x < 0x80

theorem isAscii_append {w w' : List Nat} : IsAscii (w ++ w') ↔ IsAscii w ∧ IsAscii w' := List.forall_mem_append

theorem takes_recursivePrefix {any : Nat → Prop} {w : List Nat} {caps : Taken}
    (h : Regexp.Takes any Token.recursivePrefix.regexp.capture w caps) : Token.Takes .recursivePrefix w caps := by
  cases h with
  | numbered h =>
      cases h with
      | altLeft _ h =>
          cases h with
          | optNone => exact .recursivePrefix (.inl rfl)
          | optSome h =>
              cases h
              exact .recursivePrefix (.inr rfl)
      | altRight _ h =>
          cases h with
          | seq hany hslash =>
              cases hslash
              cases takes_anything hany
              exact .recursivePrefix (.inr (List.getLast?_concat ..))

theorem takes_recursiveZeroOrMore {any : Nat → Prop} {w : List Nat} {caps : Taken}
    (h : Regexp.Takes any Token.recursiveZeroOrMore.regexp.capture w caps) :
    Token.Takes .recursiveZeroOrMore w caps := by
  cases h with
  | numbered h =>
      cases h with
      | altLeft _ h =>
          cases h
          exact .recursiveZeroOrMore rfl rfl
      | altRight _ h =>
          cases h with
          | seq hfirst h =>
              cases hfirst
              cases h with
              | seq hany hslash =>
                  cases hslash
                  cases takes_anything hany
                  refine .recursiveZeroOrMore rfl ?_
                  rw [← List.append_assoc]
                  exact List.getLast?_concat ..

theorem takes_cls {any : Nat → Prop} {negated : Bool} {ranges : List CharRange} (nonempty : ranges ≠ [])
    {w : List Nat} {caps : Taken} (hw : IsAscii w)
    (h : Regexp.Takes any (.cls negated (ranges.flatMap CharRange.members)) w caps) :
    Token.Takes (.cls negated ranges nonempty) w caps := by
  cases h with
  | @cls _ _ x hx =>
      have hascii : x < 0x80 := hw x List.mem_cons_self
      refine .cls nonempty (Iff.trans ?_ hx)
      constructor
      · rintro ⟨r, hr, hhas⟩
        obtain ⟨m, hm, hhas⟩ := (r.has_iff hascii).mpr hhas
        exact ⟨m, List.mem_flatMap.mpr ⟨r, hr, hm⟩, hhas⟩
      · rintro ⟨m, hm, hhas⟩
        obtain ⟨r, hr, hm⟩ := List.mem_flatMap.mp hm
        exact ⟨r, hr, (r.has_iff hascii).mp ⟨m, hm, hhas⟩⟩

mutual
theorem Token.takes_of_regexp {any : Nat → Prop} : ∀ (t : Token), t.grouped = true → ∀ {w : List Nat} {caps : Taken},
    IsAscii w → Regexp.Takes any t.regexp.capture w caps → t.Takes w caps
  | .literal c, _, _, _, _, h => by
      obtain ⟨rfl, rfl⟩ := takes_literals h
      exact .literal c
  | .any, _, _, _, _, h => by
      obtain rfl : _ = [] := List.eq_nil_of_length_eq_zero h.length
      obtain ⟨x, rfl, hx⟩ := takes_notSlash h
      exact .any hx
  | .zeroOrMore, _, _, _, _, h => by
      obtain ⟨rfl, hw⟩ := Regexp.takes_star rfl takes_notSlash h
      exact .zeroOrMore hw
  | .recursivePrefix, _, _, _, _, h => takes_recursivePrefix h
  | .recursiveSuffix, _, _, _, _, h => by
      cases h with
      | seq hslash hany =>
          cases hslash
          cases takes_anything hany
          exact .recursiveSuffix _
  | .recursiveZeroOrMore, _, _, _, _, h => takes_recursiveZeroOrMore h
  | .cls _ _ nonempty, _, _, _, hw, h => takes_cls nonempty hw h
  | .alternates parts, hgrouped, w, caps, hw, h => by
      obtain ⟨hany, hparts⟩ := Bool.and_eq_true_iff.mp hgrouped
      unfold Token.regexp at h
      cases hregexps : partRegexps parts with
      | nil => exact absurd hregexps (partRegexps_ne_nil parts hparts hany)
      | cons r rs =>
          rw [hregexps] at h
          cases h with
          | numbered h => exact .alternates (oneTakes_of_regexp parts hparts hregexps hw h)

theorem splits_of_regexp {any : Nat → Prop} : ∀ (ts : List Token), allGrouped ts = true → ∀ {w : List Nat}
    {caps : Taken}, IsAscii w → Regexp.Takes any (regexps ts).capture w caps → Splits ts w caps
  | [], _, _, _, _, h => by
      cases h
      exact .nil
  | t :: ts, hgrouped, _, _, hw, h => by
      obtain ⟨ht, hts⟩ := Bool.and_eq_true_iff.mp hgrouped
      cases h with
      | seq h h' =>
          obtain ⟨hw, hw'⟩ := isAscii_append.mp hw
          exact .cons (Token.takes_of_regexp t ht hw h) (splits_of_regexp ts hts hw' h')

theorem oneTakes_of_regexp {any : Nat → Prop} : ∀ (parts : List (List Token)), partsGrouped parts = true →
    ∀ {r : Regexp} {rs : List Regexp}, partRegexps parts = r :: rs → ∀ {w : List Nat} {caps : Taken}, IsAscii w →
    Regexp.Takes any (alts r rs).capture w caps → OneTakes parts w caps
  | [], _, _, _, hregexps, _, _, _, _ => nomatch hregexps
  | part :: parts, hgrouped, r, rs, hregexps, w, caps, hw, h => by
      obtain ⟨hpart, hparts⟩ := Bool.and_eq_true_iff.mp hgrouped
      unfold partRegexps at hregexps
      split at hregexps
      · rename_i htext
        have hempty : part = [] := by
          by_contra hne
          exact regexps_text_ne_nil part hpart hne htext
        subst hempty
        exact .there [] (oneTakes_of_regexp parts hparts hregexps hw h)
      · obtain ⟨rfl, rfl⟩ := List.cons.inj hregexps
        have hgroups := (partRegexps_groups_le parts).2.mpr hparts
        cases hrest : partRegexps parts with
        | nil =>
            rw [hrest] at h hgroups
            have hhere := OneTakes.here parts (splits_of_regexp part hpart hw h)
            rw [← hgroups] at hhere
            simpa [sumGroups] using hhere
        | cons r' rs' =>
            rw [hrest] at h hgroups
            cases h with
            | altLeft _ h =>
                rw [alts_groups, hgroups]
                exact .here parts (splits_of_regexp part hpart hw h)
            | altRight _ h =>
                rw [(regexps_groups_le part).2.mpr hpart]
                exact .there part (oneTakes_of_regexp parts hparts hrest hw h)
end

/-- What the numbered groups take is what the constructs take in one way to split the word among the tokens. -/
theorem splits_of_takes {any : Nat → Prop} {tokens : List Token} (hall : numbersAll tokens = true) {w : List Nat}
    {caps : Taken} (hw : IsAscii w) (h : Regexp.Takes any (regexp tokens).capture w caps) : Splits tokens w caps := by
  rcases sole_or tokens with rfl | ⟨hregexp, heq⟩
  · cases hall
  · rw [hregexp] at h
    exact splits_of_regexp tokens (heq.symm.trans hall) hw h

end Glob
