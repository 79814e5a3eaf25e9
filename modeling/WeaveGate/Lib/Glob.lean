import WeaveGate.Lib.Regexp

/-!
# Globs

The tokens of a glob whose stars stop at slashes, and the regular expression over bytes that stands for it.
-/

namespace Glob

/-! ## Tokens -/

structure CharRange where
  first : Char
  last : Char
  ordered : first.toNat ≤ last.toNat

inductive Token where
  | literal (c : Char)
  | any
  | zeroOrMore
  | recursivePrefix
  | recursiveSuffix
  | recursiveZeroOrMore
  | cls (negated : Bool) (ranges : List CharRange) (nonempty : ranges ≠ [])
  | alternates (parts : List (List Token))

/-! ## Translation -/

/-- The bytes of a character. -/
def units (c : Char) : List Nat := (String.utf8EncodeChar c).map UInt8.toNat

def literals : List Nat → Regexp
  | [] => .empty
  | u :: us => .seq (.unit u) (literals us)

def slash : Regexp := .unit 0x2F

def notSlash : Regexp := .cls true [.single 0x2F]

def anything : Regexp := .star .dot

/-- The bytes of both ends with a dash between them, which spans only the two bytes next to it. -/
def CharRange.members (r : CharRange) : List Regexp.Member :=
  if r.first = r.last then (units r.first).map .single
  else
    (units r.first).dropLast.map .single ++
      .range ((units r.first).getLastD 0) ((units r.last).headD 0) :: (units r.last).tail.map .single

def alts : Regexp → List Regexp → Regexp
  | r, [] => r
  | r, r' :: rs => .alt r (alts r' rs)

mutual
def Token.regexp : Token → Regexp
  | .literal c => literals (units c)
  | .any => notSlash
  | .zeroOrMore => .star notSlash
  | .recursivePrefix => .group false (.alt (.opt slash) (.seq anything slash))
  | .recursiveSuffix => .seq slash anything
  | .recursiveZeroOrMore => .group false (.alt slash (.seq slash (.seq anything slash)))
  | .cls negated ranges _ => .cls negated (ranges.flatMap CharRange.members)
  | .alternates parts =>
      match partRegexps parts with
      | [] => .empty
      | r :: rs => .group false (alts r rs)

def regexps : List Token → Regexp
  | [] => .empty
  | t :: ts => .seq t.regexp (regexps ts)

/-- Parts without a text are left out. -/
def partRegexps : List (List Token) → List Regexp
  | [] => []
  | part :: parts =>
      if (regexps part).text = [] then partRegexps parts else regexps part :: partRegexps parts
end

/-- A glob of two stars and nothing else matches everything. -/
def regexp : List Token → Regexp
  | [.recursivePrefix] => anything
  | tokens => regexps tokens

/-- The flag has the expression match bytes. -/
def regexText (tokens : List Token) : Str := "(?-u)".toList ++ (regexp tokens).anchored

/-! ## The expression is well formed -/

theorem units_lt {c : Char} {u : Nat} (h : u ∈ units c) : u < 256 := by
  obtain ⟨b, _, rfl⟩ := List.mem_map.mp h
  exact b.toNat_lt

theorem units_ne_nil (c : Char) : units c ≠ [] := by
  rw [units, ne_eq, List.map_eq_nil_iff]
  exact String.utf8EncodeChar_ne_nil

/-- What follows the first byte of a character comes before all that another can start with. -/
theorem units_bounds (c : Char) :
    (c.toNat < 0x80 ∧ units c = [c.toNat]) ∨
      (0x80 ≤ c.toNat ∧ 0xC0 ≤ (units c).headD 0 ∧ (units c).getLastD 0 < 0xC0) := by
  have htoNat : c.val.toNat = c.toNat := rfl
  unfold units String.utf8EncodeChar
  dsimp only
  rw [htoNat]
  split
  · refine Or.inl ⟨by omega, ?_⟩
    simp only [List.map_cons, List.map_nil, UInt8.toNat_ofNat']
    congr 1
    omega
  · refine Or.inr ⟨by omega, ?_⟩
    split
    · simp only [List.map_cons, List.map_nil, List.headD_cons, List.getLastD_cons, List.getLastD_nil,
        UInt8.toNat_ofNat']
      omega
    · split <;> simp only [List.map_cons, List.map_nil, List.headD_cons, List.getLastD_cons, List.getLastD_nil,
        UInt8.toNat_ofNat'] <;> omega

theorem CharRange.lastUnit_le (r : CharRange) : (units r.first).getLastD 0 ≤ (units r.last).headD 0 := by
  have hordered := r.ordered
  rcases units_bounds r.first with ⟨hf, hfirst⟩ | ⟨hf, _, hfirst⟩
  · rw [hfirst, List.getLastD_cons, List.getLastD_nil]
    rcases units_bounds r.last with ⟨_, hlast⟩ | ⟨_, hlast, _⟩
    · rw [hlast, List.headD_cons]
      exact hordered
    · omega
  · rcases units_bounds r.last with ⟨hl, _⟩ | ⟨_, hlast, _⟩ <;> omega

theorem CharRange.members_wellFormed (r : CharRange) : ∀ m ∈ r.members, m.WellFormed := by
  have hsingle : ∀ (us : List Nat) (c : Char), (∀ u ∈ us, u ∈ units c) →
      ∀ m ∈ us.map Regexp.Member.single, m.WellFormed := by
    intro us c hus m hm
    obtain ⟨u, hu, rfl⟩ := List.mem_map.mp hm
    exact units_lt (hus u hu)
  intro m hm
  unfold members at hm
  split at hm
  · exact hsingle _ r.first (fun _ h => h) m hm
  · rcases List.mem_append.mp hm with hm | hm
    · exact hsingle _ r.first (fun _ h => List.mem_of_mem_dropLast h) m hm
    · rcases List.mem_cons.mp hm with rfl | hm
      · refine ⟨r.lastUnit_le, ?_⟩
        obtain ⟨u, us, hunits⟩ := List.exists_cons_of_ne_nil (units_ne_nil r.last)
        rw [hunits, List.headD_cons]
        exact units_lt (hunits ▸ List.mem_cons_self)
      · exact hsingle _ r.last (fun _ h => List.mem_of_mem_tail h) m hm

theorem CharRange.members_ne_nil (r : CharRange) : r.members ≠ [] := by
  unfold members
  split
  · rw [ne_eq, List.map_eq_nil_iff]
    exact units_ne_nil r.first
  · simp

theorem literals_wellFormed {us : List Nat} (h : ∀ u ∈ us, u < 256) :
    (literals us).isAlt = false ∧ (literals us).WellFormed := by
  induction us with
  | nil => exact ⟨rfl, trivial⟩
  | cons u us ih =>
      obtain ⟨hu, hus⟩ := List.forall_mem_cons.mp h
      exact ⟨rfl, rfl, (ih hus).1, hu, (ih hus).2⟩

theorem notSlash_wellFormed : notSlash.WellFormed := by
  refine ⟨List.cons_ne_nil _ _, fun m hm => ?_⟩
  obtain rfl := List.mem_singleton.mp hm
  show 0x2F < 256
  decide

theorem slash_wellFormed : slash.WellFormed := by
  show 0x2F < 256
  decide

theorem anything_wellFormed : anything.WellFormed := ⟨rfl, trivial⟩

theorem alts_wellFormed {r : Regexp} {rs : List Regexp} (hr : r.WellFormed) (hrs : ∀ r' ∈ rs, r'.WellFormed) :
    (alts r rs).WellFormed := by
  induction rs generalizing r with
  | nil => exact hr
  | cons r' rs ih =>
      obtain ⟨hr', hrs⟩ := List.forall_mem_cons.mp hrs
      exact ⟨hr, ih hr' hrs⟩

mutual
theorem Token.regexp_wellFormed : ∀ t : Token, t.regexp.isAlt = false ∧ t.regexp.WellFormed
  | .literal c => literals_wellFormed fun _ h => units_lt h
  | .any => ⟨rfl, notSlash_wellFormed⟩
  | .zeroOrMore => ⟨rfl, rfl, notSlash_wellFormed⟩
  | .recursivePrefix => ⟨rfl, ⟨rfl, slash_wellFormed⟩, rfl, rfl, anything_wellFormed, slash_wellFormed⟩
  | .recursiveSuffix => ⟨rfl, rfl, rfl, slash_wellFormed, anything_wellFormed⟩
  | .recursiveZeroOrMore =>
      ⟨rfl, slash_wellFormed, rfl, rfl, slash_wellFormed, rfl, rfl, anything_wellFormed, slash_wellFormed⟩
  | .cls negated ranges hne => by
      refine ⟨rfl, ?_, fun m hm => ?_⟩
      · obtain ⟨r, rs, rfl⟩ := List.exists_cons_of_ne_nil hne
        rw [List.flatMap_cons]
        exact fun h => r.members_ne_nil (List.append_eq_nil_iff.mp h).1
      · obtain ⟨r, _, hm⟩ := List.mem_flatMap.mp hm
        exact r.members_wellFormed m hm
  | .alternates parts => by
      have hparts := partRegexps_wellFormed parts
      unfold Token.regexp
      cases h : partRegexps parts with
      | nil => exact ⟨rfl, trivial⟩
      | cons r rs =>
          rw [h] at hparts
          obtain ⟨hr, hrs⟩ := List.forall_mem_cons.mp hparts
          exact ⟨rfl, alts_wellFormed hr hrs⟩

theorem regexps_wellFormed : ∀ ts : List Token, (regexps ts).isAlt = false ∧ (regexps ts).WellFormed
  | [] => ⟨rfl, trivial⟩
  | t :: ts =>
      ⟨rfl, t.regexp_wellFormed.1, (regexps_wellFormed ts).1, t.regexp_wellFormed.2, (regexps_wellFormed ts).2⟩

theorem partRegexps_wellFormed : ∀ parts : List (List Token), ∀ r ∈ partRegexps parts, r.WellFormed
  | [], r, h => nomatch h
  | part :: parts, r, h => by
      unfold partRegexps at h
      split at h
      · exact partRegexps_wellFormed parts r h
      · rcases List.mem_cons.mp h with rfl | h
        · exact (regexps_wellFormed part).2
        · exact partRegexps_wellFormed parts r h
end

theorem regexp_eq (tokens : List Token) : regexp tokens = anything ∨ regexp tokens = regexps tokens := by
  unfold regexp
  split
  · exact .inl rfl
  · exact .inr rfl

theorem regexp_wellFormed (tokens : List Token) : (regexp tokens).isAlt = false ∧ (regexp tokens).WellFormed := by
  rcases regexp_eq tokens with h | h <;> rw [h]
  · exact ⟨rfl, anything_wellFormed⟩
  · exact regexps_wellFormed tokens

end Glob
