import WeaveGate.Handler.Theorems
import WeaveGate.Lib.MultiPattern
import WeaveGate.Lib.Template

/-!
# Placeholders in destinations

`replace_placeholders` replaces `$0`, `$1` and so on by the captures of a match. It is compared with the substitution
that takes a whole number behind each `$`.
-/

namespace WeaveGate.Handler

open Http Settings

/-! ## The digits of a placeholder -/

def digitValue (d : Char) : Nat := d.toNat - '0'.toNat

/-- One digit, of an index below the bound. -/
def readDigit (bound : Nat) : Template.Reader Char
  | d :: _ => if d.isDigit = true ∧ digitValue d < bound then some (digitValue d, 1) else none
  | [] => none

/-- All digits that follow, as a number below the bound. -/
def readNumber (bound : Nat) : Template.Reader Char := fun s =>
  let digits := s.takeWhile Char.isDigit
  if digits ≠ [] ∧ Nat.ofDigitChars 10 digits 0 < bound then some (Nat.ofDigitChars 10 digits 0, digits.length)
  else none

/-- Each `$` with a number behind it that has a capture is replaced by that capture, all from the left and at once. -/
def substitute (caps : List Str) (dest : Str) : Str := Template.expand '$' (readNumber caps.length) caps dest

theorem isDigit_ne_dollar {c : Char} (h : c.isDigit = true) : c ≠ '$' := by
  rintro rfl
  exact absurd h (by decide)

theorem digitValue_lt {d : Char} (h : d.isDigit = true) : digitValue d < 10 := by
  have hle := (Char.isDigit_iff_toNat.mp h).2
  have h9 : '9'.toNat = 57 := rfl
  have h0 : '0'.toNat = 48 := rfl
  unfold digitValue
  omega

theorem digitChar_digitValue {d : Char} (h : d.isDigit = true) : (digitValue d).digitChar = d := by
  have hbounds := Char.isDigit_iff_toNat.mp h
  refine Char.toNat_inj.mp ?_
  rw [Nat.toNat_digitChar_of_lt_ten (digitValue_lt h)]
  have h0 : '0'.toNat = 48 := rfl
  unfold digitValue
  omega

/-- A number is at least its first digit. -/
theorem digitValue_le (d : Char) (digits : Str) : digitValue d ≤ Nat.ofDigitChars 10 (d :: digits) 0 := by
  rw [Nat.ofDigitChars_cons, Nat.ofDigitChars_eq_ofDigitChars_zero]
  have hpow : 1 ≤ 10 ^ digits.length := Nat.one_le_two_pow.trans (Nat.pow_le_pow_left (by decide) _)
  calc digitValue d = 1 * (10 * 0 + (d.toNat - '0'.toNat)) := by rw [Nat.mul_zero, Nat.zero_add, Nat.one_mul]; rfl
    _ ≤ 10 ^ digits.length * (10 * 0 + (d.toNat - '0'.toNat)) := Nat.mul_le_mul_right _ hpow
    _ ≤ _ := Nat.le_add_right _ _

theorem ofDigitChars_singleton (d : Char) : Nat.ofDigitChars 10 [d] 0 = digitValue d := by
  simp [Nat.ofDigitChars_cons, digitValue]

theorem readDigit_eq_some {bound : Nat} {s : Str} {k n : Nat} (h : readDigit bound s = some (k, n)) :
    ∃ d rest, s = d :: rest ∧ d.isDigit = true ∧ k = digitValue d ∧ k < bound ∧ n = 1 := by
  cases s with
  | nil => cases h
  | cons d rest =>
      have hif : readDigit bound (d :: rest) =
          if d.isDigit = true ∧ digitValue d < bound then some (digitValue d, 1) else none := rfl
      by_cases hd : d.isDigit = true ∧ digitValue d < bound
      · rw [hif, if_pos hd] at h
        cases h
        exact ⟨d, rest, rfl, hd.1, rfl, hd.2, rfl⟩
      · rw [hif, if_neg hd] at h
        cases h

theorem proper_readDigit (bound : Nat) : Template.Proper '$' (readDigit bound) where
  bounded := by
    intro s k n h
    obtain ⟨d, rest, rfl, _, _, _, rfl⟩ := readDigit_eq_some h
    simp
  unmarked := by
    intro s k n h
    obtain ⟨d, rest, rfl, hd, _, _, rfl⟩ := readDigit_eq_some h
    simpa using (isDigit_ne_dollar hd).symm

theorem readNumber_eq_some {bound : Nat} {s : Str} {k n : Nat} (h : readNumber bound s = some (k, n)) :
    s.takeWhile Char.isDigit ≠ [] ∧ k = Nat.ofDigitChars 10 (s.takeWhile Char.isDigit) 0 ∧ k < bound ∧
      n = (s.takeWhile Char.isDigit).length := by
  unfold readNumber at h
  dsimp only at h
  split at h
  · rename_i hc
    cases h
    exact ⟨hc.1, rfl, hc.2, rfl⟩
  · cases h

theorem proper_readNumber (bound : Nat) : Template.Proper '$' (readNumber bound) where
  bounded := by
    intro s k n h
    obtain ⟨_, _, _, rfl⟩ := readNumber_eq_some h
    exact (List.takeWhile_prefix _).length_le
  unmarked := by
    intro s k n h hmem
    obtain ⟨_, _, _, rfl⟩ := readNumber_eq_some h
    rw [(List.prefix_iff_eq_take.mp (List.takeWhile_prefix _)).symm] at hmem
    exact isDigit_ne_dollar (List.mem_takeWhile_imp hmem) rfl

theorem readDigit_of_readNumber {bound : Nat} {s : Str} {k n : Nat} (h : readNumber bound s = some (k, n)) :
    ∃ d, readDigit bound s = some (d, 1) ∧ 1 ≤ n := by
  obtain ⟨hne, hk, hlt, hn⟩ := readNumber_eq_some h
  cases s with
  | nil => exact absurd rfl hne
  | cons d s =>
      by_cases hd : d.isDigit = true
      · rw [List.takeWhile_cons_of_pos hd] at hk hn
        have hle := digitValue_le d (s.takeWhile Char.isDigit)
        refine ⟨digitValue d, if_pos ⟨hd, by omega⟩, ?_⟩
        rw [hn, List.length_cons]
        omega
      · rw [List.takeWhile_cons_of_neg hd] at hne
        exact absurd rfl hne

/-! ## When one digit is the whole number -/

/-- No placeholder of one digit is followed by another digit. -/
def SingleDigits (g : Nat) (dest : Str) : Prop :=
  ∀ before d e rest, dest = before ++ '$' :: d :: e :: rest → d.isDigit = true → digitValue d ≤ g →
    e.isDigit = false

theorem takeWhile_singleDigit {d : Char} {rest : Str} (hd : d.isDigit = true)
    (h : ∀ e s, rest = e :: s → e.isDigit = false) : (d :: rest).takeWhile Char.isDigit = [d] := by
  rw [List.takeWhile_cons_of_pos hd]
  cases rest with
  | nil => rfl
  | cons e s => rw [List.takeWhile_cons_of_neg (by simp [h e s rfl])]

theorem readDigit_eq_readNumber {bound : Nat} {s : Str}
    (h : ∀ d e rest, s = d :: e :: rest → d.isDigit = true → digitValue d < bound → e.isDigit = false) :
    readDigit bound s = readNumber bound s := by
  cases hdigit : readDigit bound s with
  | none =>
      cases hnumber : readNumber bound s with
      | none => rfl
      | some ref =>
          obtain ⟨d, hd, _⟩ := readDigit_of_readNumber (k := ref.1) (n := ref.2) hnumber
          rw [hdigit] at hd
          cases hd
  | some ref =>
      obtain ⟨k, n⟩ := ref
      obtain ⟨d, rest, rfl, hd, rfl, hlt, rfl⟩ := readDigit_eq_some hdigit
      have hdigits := takeWhile_singleDigit hd fun e s hrest => h d e s (congrArg (d :: ·) hrest) hd hlt
      unfold readNumber
      simp only [hdigits, ofDigitChars_singleton]
      rw [if_pos ⟨by simp, hlt⟩]
      rfl

/-! ## The code as a substitution -/

theorem replacePatterns_dollar (caps : List Str) (d : Char) (dest : Str) :
    replacePatterns caps ('$' :: d :: dest) =
      match if d.isDigit then caps[digitValue d]? else none with
      | some cap => cap ++ replacePatterns caps dest
      | none => '$' :: replacePatterns caps (d :: dest) := rfl

theorem replacePatterns_hit {caps : List Str} {d : Char} {cap : Str} (hd : d.isDigit = true)
    (hcap : caps[digitValue d]? = some cap) (dest : Str) :
    replacePatterns caps ('$' :: d :: dest) = cap ++ replacePatterns caps dest := by
  rw [replacePatterns_dollar, if_pos hd, hcap]

theorem replacePatterns_miss {caps : List Str} {d : Char} (h : d.isDigit = true → caps[digitValue d]? = none)
    (dest : Str) : replacePatterns caps ('$' :: d :: dest) = '$' :: replacePatterns caps (d :: dest) := by
  by_cases hd : d.isDigit = true
  · rw [replacePatterns_dollar, if_pos hd, h hd]
  · rw [replacePatterns_dollar, if_neg hd]

theorem replacePatterns_plain {c : Char} (h : c ≠ '$') (caps : List Str) (dest : Str) :
    replacePatterns caps (c :: dest) = c :: replacePatterns caps dest := by
  rw [replacePatterns]
  intro _ _ hc
  exact absurd hc h

theorem readDigit_hit {caps : List Str} {d : Char} {cap : Str} (hd : d.isDigit = true)
    (hcap : caps[digitValue d]? = some cap) (rest : Str) :
    readDigit caps.length (d :: rest) = some (digitValue d, 1) :=
  if_pos ⟨hd, (List.getElem?_eq_some_iff.mp hcap).1⟩

theorem readDigit_miss {caps : List Str} {d : Char} (h : d.isDigit = true → caps[digitValue d]? = none) (rest : Str) :
    readDigit caps.length (d :: rest) = none :=
  if_neg fun hd => Nat.not_le.mpr hd.2 (List.getElem?_eq_none_iff.mp (h hd.1))

/-- The code takes one digit behind a `$`, never more. -/
theorem replacePatterns_eq_expand (caps : List Str) (dest : Str) :
    replacePatterns caps dest = Template.expand '$' (readDigit caps.length) caps dest := by
  unfold Template.expand
  induction hn : dest.length using Nat.strong_induction_on generalizing dest with
  | h n ih =>
      subst hn
      cases dest with
      | nil => rfl
      | cons c dest =>
          have htail := ih dest.length (Nat.lt_succ_self _) dest rfl
          by_cases hc : c = '$'
          · subst hc
            cases dest with
            | nil => rfl
            | cons d dest =>
                rw [Template.expandFrom, if_pos rfl]
                by_cases hhit : ∃ cap, d.isDigit = true ∧ caps[digitValue d]? = some cap
                · obtain ⟨cap, hd, hcap⟩ := hhit
                  have hrest := ih dest.length (Nat.lt_succ_of_lt (Nat.lt_succ_self _)) dest rfl
                  rw [replacePatterns_hit hd hcap, readDigit_hit hd hcap, hrest]
                  simp only [Template.expandFrom, List.getD_eq_getElem?_getD, hcap, Option.getD_some]
                · have hmiss : d.isDigit = true → caps[digitValue d]? = none := fun hd =>
                    Option.eq_none_iff_forall_ne_some.mpr fun cap hcap => hhit ⟨cap, hd, hcap⟩
                  rw [replacePatterns_miss hmiss, readDigit_miss hmiss, htail]
          · rw [replacePatterns_plain hc, Template.expandFrom, if_neg hc, htail]

/-! ## The code as the search for all patterns -/

/-- `format!("${i}")` for each capture, with the capture. -/
def placeholders (caps : List Str) : List (Str × Str) :=
  caps.zipIdx.map fun (cap, i) => ('$' :: Nat.toDigits 10 i, cap)

theorem mem_placeholders {caps : List Str} {pat new : Str} :
    (pat, new) ∈ placeholders caps ↔ ∃ i, caps[i]? = some new ∧ pat = '$' :: Nat.toDigits 10 i := by
  simp only [placeholders, List.mem_map, Prod.exists, List.mk_mem_zipIdx_iff_getElem?, Prod.mk.injEq]
  constructor
  · rintro ⟨cap, i, hcap, rfl, rfl⟩
    exact ⟨i, hcap, rfl⟩
  · rintro ⟨i, hcap, rfl⟩
    exact ⟨new, i, hcap, rfl, rfl⟩

/-- Nothing has been read that is a placeholder of one digit. -/
def Clean (caps : List Str) (pending : Str) : Prop :=
  ∀ d, d.isDigit = true → caps[digitValue d]? ≠ none → ¬ ['$', d] <:+: pending

/-- The first placeholder that ends at a character is one of one digit. -/
theorem endingWith_placeholders {caps : List Str} {pending : Str} {c : Char} {pat new : Str}
    (hclean : Clean caps pending) (h : MultiPattern.endingWith (placeholders caps) (pending ++ [c]) = some (pat, new)) :
    c.isDigit = true ∧ caps[digitValue c]? = some new ∧ pat = ['$', c] ∧ ['$'] <:+ pending := by
  have hsuffix : pat <:+ pending ++ [c] := by simpa using List.find?_some h
  obtain ⟨i, hcap, rfl⟩ := mem_placeholders.mp (List.mem_of_find?_eq_some h)
  have hdigits : ∀ d ∈ Nat.toDigits 10 i, d.isDigit = true := fun d hd =>
    Nat.isDigit_of_mem_toDigits (by decide) (by decide) hd
  have hvalue : Nat.ofDigitChars 10 (Nat.toDigits 10 i) 0 = i := Nat.ofDigitChars_ten_toDigits
  obtain hnil | ⟨init, last, hlast⟩ := List.eq_nil_or_concat (Nat.toDigits 10 i)
  · exact absurd hnil Nat.toDigits_ne_nil
  · rw [List.concat_eq_append] at hlast
    rw [hlast] at hdigits hvalue hsuffix ⊢
    rw [← List.cons_append, List.suffix_concat_iff] at hsuffix
    obtain hnil | ⟨t, ht, hsuffix⟩ := hsuffix
    · cases hnil
    · obtain ⟨rfl, hc⟩ := List.append_inj' ht rfl
      cases hc
      cases init with
      | nil =>
          rw [List.nil_append, ofDigitChars_singleton] at hvalue
          rw [← hvalue] at hcap
          exact ⟨hdigits _ (by simp), hcap, rfl, hsuffix⟩
      | cons d init =>
          -- the placeholder of its first digit has ended earlier
          have hle : digitValue d ≤ i := hvalue ▸ digitValue_le d _
          refine absurd ?_ (hclean d (hdigits d (by simp)) ?_)
          · exact List.IsInfix.trans ⟨[], init, by simp⟩ hsuffix.isInfix
          · rw [ne_eq, List.getElem?_eq_none_iff, Nat.not_le]
            exact Nat.lt_of_le_of_lt hle (List.getElem?_eq_some_iff.mp hcap).1

theorem endingWith_digit {caps : List Str} {pending : Str} {c : Char} {cap : Str} (hclean : Clean caps pending)
    (hpending : ['$'] <:+ pending) (hc : c.isDigit = true) (hcap : caps[digitValue c]? = some cap) :
    MultiPattern.endingWith (placeholders caps) (pending ++ [c]) = some (['$', c], cap) := by
  cases h : MultiPattern.endingWith (placeholders caps) (pending ++ [c]) with
  | none =>
      have hmem : (['$', c], cap) ∈ placeholders caps := mem_placeholders.mpr ⟨digitValue c, hcap, by
        rw [Nat.toDigits_of_lt_base (digitValue_lt hc), digitChar_digitValue hc]⟩
      obtain ⟨before, rfl⟩ := hpending
      exact absurd (List.find?_eq_none.mp h _ hmem) (by simp)
  | some found =>
      obtain ⟨pat, new⟩ := found
      obtain ⟨_, hnew, rfl, _⟩ := endingWith_placeholders hclean h
      rw [hcap] at hnew
      cases hnew
      rfl

theorem Clean.concat {caps : List Str} {pending : Str} {c : Char} (hclean : Clean caps pending)
    (h : ['$'] <:+ pending → c.isDigit = true → caps[digitValue c]? = none) : Clean caps (pending ++ [c]) := by
  intro d hd hcap hinfix
  rcases List.infix_concat_iff.mp hinfix with hsuffix | hinfix
  · obtain hnil | ⟨t, ht, hlast⟩ := List.suffix_concat_iff.mp hsuffix
    · cases hnil
    · obtain ⟨rfl, hdc⟩ := List.append_inj' (show ['$'] ++ [d] = t ++ [c] from ht) rfl
      cases hdc
      exact hcap (h hlast hd)
  · exact hclean d hd hcap hinfix

/-- Behind what has been read there may be one `$` that is still open. -/
theorem replaceFrom_placeholders {caps : List Str} (dest : Str) {before held : Str}
    (hclean : Clean caps (before ++ held)) (hheld : held = ['$'] ∨ held = [] ∧ ¬ ['$'] <:+ before) :
    MultiPattern.replaceFrom (placeholders caps) (before ++ held) dest =
      before ++ replacePatterns caps (held ++ dest) := by
  induction dest generalizing before held with
  | nil => rcases hheld with rfl | ⟨rfl, _⟩ <;> rfl
  | cons c dest ih =>
      have hopen : ['$'] <:+ before ++ held → held = ['$'] := fun hsuffix =>
        hheld.elim id fun hnil => absurd (by simpa [hnil.1] using hsuffix) hnil.2
      by_cases hhit : held = ['$'] ∧ ∃ cap, c.isDigit = true ∧ caps[digitValue c]? = some cap
      · obtain ⟨rfl, cap, hc, hcap⟩ := hhit
        have hend := endingWith_digit hclean ⟨before, rfl⟩ hc hcap
        have hrest := @ih [] [] (fun d _ _ h => by simp at h) (.inr ⟨rfl, by simp⟩)
        rw [MultiPattern.replaceFrom_hit hend (List.append_assoc _ _ _)]
        rw [List.append_nil, List.nil_append] at hrest
        rw [hrest, List.singleton_append, replacePatterns_hit hc hcap, List.nil_append, List.append_assoc]
      · have hmiss : held = ['$'] → c.isDigit = true → caps[digitValue c]? = none := fun hh hc =>
          Option.eq_none_iff_forall_ne_some.mpr fun cap hcap => hhit ⟨hh, cap, hc, hcap⟩
        have hend : MultiPattern.endingWith (placeholders caps) (before ++ held ++ [c]) = none := by
          refine Option.eq_none_iff_forall_ne_some.mpr ?_
          rintro ⟨pat, new⟩ hfound
          obtain ⟨hc, hcap, _, hsuffix⟩ := endingWith_placeholders hclean hfound
          exact hhit ⟨hopen hsuffix, new, hc, hcap⟩
        have hout : replacePatterns caps (held ++ c :: dest) = held ++ replacePatterns caps (c :: dest) := by
          rcases hheld with rfl | ⟨rfl, _⟩
          · exact replacePatterns_miss (hmiss rfl) dest
          · rfl
        have hclean' := hclean.concat fun hsuffix => hmiss (hopen hsuffix)
        rw [MultiPattern.replaceFrom_miss hend, hout]
        by_cases hc : c = '$'
        · subst hc
          rw [ih hclean' (.inl rfl), List.append_assoc]
          rfl
        · have hplain : ¬ ['$'] <:+ before ++ held ++ [c] := fun h =>
            hc (List.singleton_suffix_append_singleton_iff.mp h).symm
          have hrest := @ih (before ++ held ++ [c]) [] (by simpa using hclean') (.inr ⟨rfl, hplain⟩)
          rw [List.append_nil, List.nil_append] at hrest
          rw [hrest, replacePatterns_plain hc]
          simp

/-- What the model computes is what the automaton for all placeholders does. -/
theorem replacePatterns_eq_replaceAll (caps : List Str) (dest : Str) :
    replacePatterns caps dest = MultiPattern.replaceAll (placeholders caps) dest :=
  (@replaceFrom_placeholders caps dest [] [] (fun d _ _ h => by simp at h) (.inr ⟨rfl, by simp⟩)).symm

/-! ## The code and the substitution of whole numbers -/

variable {g : Nat} {dest : Str}

theorem singleDigits_of_expand_eq {caps : List Str} (hempty : ∀ cap ∈ caps, cap = []) (hlen : caps.length = g + 1)
    (h : Template.expand '$' (readDigit caps.length) caps dest = substitute caps dest) : SingleDigits g dest := by
  have htaken := Template.taken_eq_of_expand_eq (proper_readDigit _) (proper_readNumber _) hempty
    (fun s hdigit => Option.eq_none_iff_forall_ne_some.mpr fun ref hnumber => by
      obtain ⟨d, hd, _⟩ := readDigit_of_readNumber (k := ref.1) (n := ref.2) hnumber
      rw [hdigit] at hd
      cases hd)
    (fun s k n k' n' hdigit hnumber => by
      obtain ⟨_, hd, hone⟩ := readDigit_of_readNumber hnumber
      rw [hdigit] at hd
      cases hd
      exact hone) h
  rintro before d e rest rfl hd hle
  have hmark := htaken (d :: e :: rest) (Template.mem_behindMarks.mpr ⟨before, rfl⟩)
  have hdigit : readDigit caps.length (d :: e :: rest) = some (digitValue d, 1) := if_pos ⟨hd, by omega⟩
  cases hnumber : readNumber caps.length (d :: e :: rest) with
  | none =>
      rw [Template.taken, Template.taken, hdigit, hnumber] at hmark
      cases hmark
  | some ref =>
      obtain ⟨_, _, _, htwo⟩ := readNumber_eq_some (k := ref.1) (n := ref.2) hnumber
      rw [Template.taken, Template.taken, hdigit, hnumber] at hmark
      rw [List.takeWhile_cons_of_pos hd, List.length_cons] at htwo
      simp only [Option.elim_some] at hmark
      by_contra he
      rw [Bool.not_eq_false] at he
      rw [List.takeWhile_cons_of_pos he, List.length_cons] at htwo
      omega

theorem replacePatterns_eq_substitute {caps : List Str} (hlen : caps.length = g + 1) (h : SingleDigits g dest) :
    replacePatterns caps dest = substitute caps dest := by
  rw [replacePatterns_eq_expand]
  refine Template.expandFrom_congr (fun behind hbehind => ?_) 0
  obtain ⟨before, rfl⟩ := Template.mem_behindMarks.mp hbehind
  refine readDigit_eq_readNumber fun d e rest hrest hd hlt => ?_
  exact h before d e rest (by rw [hrest]) hd (by omega)

/-- A regular expression of so many groups that all take nothing. -/
def emptyGroups (g : Nat) : RegexLite where
  isMatch _ _ := true
  captures _ _ := some (List.replicate (g + 1) (some []))

/-- The destinations that get the intended captures put in, whatever the `g` groups have matched. -/
theorem replacePlaceholders_substitutes_iff (g : Nat) (dest : Str) :
    (∀ (crates : Crates) (origUri : Str) (regex : Regex) (caps : List (Option Str)),
      crates.regex.captures regex origUri = some caps → caps.length = g + 1 →
      replacePlaceholders crates origUri regex dest = .ok (substitute (caps.map fun cap => cap.getD []) dest)) ↔
    SingleDigits g dest := by
  constructor
  · intro h
    have hrun := h { sampleCrates with regex := emptyGroups g } [] ⟨[]⟩ _ rfl List.length_replicate
    have hout : replacePatterns (List.replicate (g + 1) []) dest = substitute (List.replicate (g + 1) []) dest := by
      simpa [replacePlaceholders, emptyGroups] using hrun
    rw [replacePatterns_eq_expand] at hout
    exact singleDigits_of_expand_eq (fun _ hcap => List.eq_of_mem_replicate hcap) List.length_replicate hout
  · intro h crates origUri regex caps hcaps hlen
    rw [replacePlaceholders, hcaps]
    exact congrArg Except.ok (replacePatterns_eq_substitute (by rw [List.length_map, hlen]) h)

/-- Behind the slash, each letter of the path goes into a group of its own. -/
def tenLetters : RegexLite where
  isMatch _ _ := true
  captures _ uri := some (some uri :: (uri.drop 1).map fun c => some [c])

def tenGroups : Regex := ⟨"^/(.)(.)(.)(.)(.)(.)(.)(.)(.)(.)$".toList⟩

/-- Of ten groups, the last is out of reach. -/
theorem tenth_is_not_put_in :
    ∃ caps, tenLetters.captures tenGroups "/abcdefghij".toList = some caps ∧ caps.length = 10 + 1 ∧
      replacePlaceholders { sampleCrates with regex := tenLetters } "/abcdefghij".toList tenGroups "/$10".toList ≠
        .ok (substitute (caps.map fun cap => cap.getD []) "/$10".toList) :=
  ⟨_, rfl, rfl, by decide⟩

end WeaveGate.Handler
