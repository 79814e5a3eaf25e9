import WeaveGate.Settings.Patterns

/-!
# Replacing in the expression of a glob

Which texts the replacements turn into the same expression with its groups numbered, and that globs are compiled to
such texts.
-/

namespace WeaveGate.Settings

/-! ## Texts in which only marks of groups are replaced -/

def isPlain (c : Char) : Bool := c ≠ '?' && c ≠ '.'

theorem isPlain_iff {c : Char} : isPlain c = true ↔ c ≠ '?' ∧ c ≠ '.' := by
  simp [isPlain]

/-- The second text is the first without the marks of its groups. Neither has anything else to replace. -/
inductive Unmarked : Str → Str → Prop where
  | nil : Unmarked [] []
  | char {c s s'} (hc : isPlain c = true) (h : Unmarked s s') : Unmarked (c :: s) (c :: s')
  | dot {s s'} (noStar : Text.startsWith s '*' = false) (h : Unmarked s s') : Unmarked ('.' :: s) ('.' :: s')
  | question {s s'} (noColon : Text.startsWith s ':' = false) (h : Unmarked s s') : Unmarked ('?' :: s) ('?' :: s')
  | group {s s'} (noDot : Text.startsWith s '.' = false) (h : Unmarked s s') :
      Unmarked ('(' :: '?' :: ':' :: s) ('(' :: s')
  | any {s s'} (noDot : Text.startsWith s '.' = false) (h : Unmarked s s') :
      Unmarked ('.' :: '*' :: s) ('.' :: '*' :: s')

theorem not_prefix_of_startsWith {c : Char} {pat s : Str} (h : Text.startsWith s c = false) : ¬ c :: pat <+: s := by
  rintro ⟨rest, rfl⟩
  simp [Text.startsWith] at h

namespace Unmarked

variable {s s' : Str}

theorem startsWith_eq (h : Unmarked s s') (c : Char) : Text.startsWith s' c = Text.startsWith s c := by
  cases h <;> rfl

theorem replace_unmarkedAny (h : Unmarked s s') : Text.replace "?:.*".toList ".*".toList s = s := by
  show Text.replace ['?', ':', '.', '*'] ['.', '*'] s = s
  induction h with
  | nil => rfl
  | char hc _ ih => rw [Text.replace_cons (by simp [(isPlain_iff.mp hc).1.symm]), ih]
  | dot _ _ ih => rw [Text.replace_cons (by simp), ih]
  | question noColon _ ih => rw [Text.replace_cons (by simp [not_prefix_of_startsWith noColon]), ih]
  | group noDot _ ih =>
      rw [Text.replace_cons (by simp), Text.replace_cons (by simp [not_prefix_of_startsWith noDot]),
        Text.replace_cons (by simp), ih]
  | any _ _ ih => rw [Text.replace_cons (by simp), Text.replace_cons (by simp), ih]

theorem replace_unmarked (h : Unmarked s s') : Text.replace "?:".toList [] s = s' := by
  show Text.replace ['?', ':'] [] s = s'
  induction h with
  | nil => rfl
  | char hc _ ih => rw [Text.replace_cons (by simp [(isPlain_iff.mp hc).1.symm]), ih]
  | dot _ _ ih => rw [Text.replace_cons (by simp), ih]
  | question noColon _ ih => rw [Text.replace_cons (by simp [not_prefix_of_startsWith noColon]), ih]
  | @group s _ _ _ ih =>
      have hmark : Text.replace ['?', ':'] [] ('?' :: ':' :: s) = Text.replace ['?', ':'] [] s :=
        Text.replace_append (List.cons_ne_nil '?' [':']) s
      rw [Text.replace_cons (by simp), hmark, ih]
  | any _ _ ih => rw [Text.replace_cons (by simp), Text.replace_cons (by simp), ih]

theorem replace_anyAny (h : Unmarked s s') : Text.replace ".*.*".toList ".*".toList s' = s' := by
  show Text.replace ['.', '*', '.', '*'] ['.', '*'] s' = s'
  induction h with
  | nil => rfl
  | char hc _ ih => rw [Text.replace_cons (by simp [(isPlain_iff.mp hc).2.symm]), ih]
  | @dot _ s' noStar h ih =>
      have hstar : ¬ ['*', '.', '*'] <+: s' := not_prefix_of_startsWith ((h.startsWith_eq '*').trans noStar)
      rw [Text.replace_cons (by simp [hstar]), ih]
  | question _ _ ih => rw [Text.replace_cons (by simp), ih]
  | group _ _ ih => rw [Text.replace_cons (by simp), ih]
  | @any _ s' noDot h ih =>
      have hdot : ¬ ['.', '*'] <+: s' := not_prefix_of_startsWith ((h.startsWith_eq '.').trans noDot)
      rw [Text.replace_cons (by simp [hdot]), Text.replace_cons (by simp), ih]

end Unmarked

theorem regexEquivalent_of_unmarked {s s' : Str} (h : Unmarked ('^' :: s) s') :
    regexEquivalent ("(?-u)".toList ++ '^' :: s) = s' := by
  have hne : "(?-u)".toList ≠ [] := List.cons_ne_nil _ _
  have hflag : ¬ "(?-u)".toList <+: '^' :: s := by
    show ¬ ['(', '?', '-', 'u', ')'] <+: '^' :: s
    simp
  unfold regexEquivalent
  dsimp only
  rw [Text.trimStartStr_append hne hflag, h.replace_unmarkedAny, h.replace_unmarked, h.replace_anyAny]

/-! ## Pieces of an expression -/

theorem Unmarked.plain_append {t s s' : Str} (ht : t.all isPlain = true) (h : Unmarked s s') :
    Unmarked (t ++ s) (t ++ s') := by
  induction t with
  | nil => exact h
  | cons c t ih =>
      obtain ⟨hc, ht⟩ := Bool.and_eq_true_iff.mp ht
      exact .char hc (ih ht)

/-- A question mark that is escaped, with a colon after it, reads like the mark of a group. -/
def escapedMark : Str := "\\?:".toList

/-- Starts with nothing that makes another token of what stands before it. -/
def Follows (s : Str) : Prop := Text.startsWith s '.' = false ∧ Text.startsWith s '*' = false

theorem Follows.cons {c : Char} {s : Str} (hdot : c ≠ '.') (hstar : c ≠ '*') : Follows (c :: s) := by
  simp [Follows, Text.startsWith, hdot, hstar]

/-- The piece is replaced by another, whatever comes after it. -/
def Becomes (t t' : Str) : Prop :=
  ∀ ⦃s s'⦄, Unmarked s s' → Follows s → ¬ escapedMark <:+: t ++ s → Unmarked (t ++ s) (t' ++ s') ∧ Follows (t ++ s)

namespace Becomes

variable {a a' b b' t t' : Str}

theorem nil : Becomes [] [] := fun _ _ hs hf _ => ⟨hs, hf⟩

theorem append (ha : Becomes a a') (hb : Becomes b b') : Becomes (a ++ b) (a' ++ b') := by
  intro s s' hs hf hmark
  rw [List.append_assoc] at hmark ⊢
  obtain ⟨hs, hf⟩ := hb hs hf fun h => hmark (h.trans (List.suffix_append a _).isInfix)
  rw [List.append_assoc]
  exact ha hs hf hmark

theorem plain (ht : t.all isPlain = true) (hstar : t.head?.all (· ≠ '*') = true) : Becomes t t := by
  intro s s' hs hf _
  refine ⟨hs.plain_append ht, ?_⟩
  cases t with
  | nil => exact hf
  | cons c t =>
      have hc := (Bool.and_eq_true_iff.mp ht).1
      exact .cons (isPlain_iff.mp hc).2 (of_decide_eq_true hstar)

theorem group (h : Becomes t t') : Becomes ('(' :: '?' :: ':' :: (t ++ [')'])) ('(' :: (t' ++ [')'])) := by
  intro s s' hs hf hmark
  have hclose : Becomes [')'] [')'] := plain rfl rfl
  obtain ⟨hs, hf⟩ := (h.append hclose) hs hf fun hin =>
    hmark (hin.trans (List.suffix_append ['(', '?', ':'] _).isInfix)
  rw [List.append_assoc] at hs hf
  refine ⟨?_, rfl, rfl⟩
  simpa only [List.cons_append, List.append_assoc] using Unmarked.group hf.1 hs

theorem escape {u : Nat} (hu : u < 256) : Becomes (Regexp.escape u) (Regexp.escape u) := by
  have hdigit : ∀ n < 16, n.digitChar ≠ '?' ∧ n.digitChar ≠ '.' := by decide
  unfold Regexp.escape
  split
  · split
    · intro s s' hs hf hmark
      refine ⟨.char rfl ?_, rfl, rfl⟩
      by_cases hquestion : Char.ofNat u = '?'
      · have hcolon : Text.startsWith s ':' = false := by
          by_contra hcolon
          obtain ⟨rest, rfl⟩ := List.head?_eq_some_iff.mp (of_decide_eq_true (Bool.eq_true_of_not_eq_false hcolon))
          rw [hquestion] at hmark
          exact hmark (List.prefix_append escapedMark rest).isInfix
        rw [hquestion]
        exact .question hcolon hs
      · by_cases hdot : Char.ofNat u = '.'
        · rw [hdot]
          exact .dot hf.2 hs
        · exact .char (isPlain_iff.mpr ⟨hquestion, hdot⟩) hs
    · rename_i hmeta
      have hne : ∀ c, Regexp.isMeta c = true → Char.ofNat u ≠ c := fun c hc h => hmeta (h ▸ hc)
      have hplain := isPlain_iff.mpr ⟨hne '?' rfl, hne '.' rfl⟩
      exact plain (Bool.and_eq_true_iff.mpr ⟨hplain, rfl⟩) (decide_eq_true (hne '*' rfl))
  · have hfirst := isPlain_iff.mpr (hdigit (u / 16) (by omega))
    have hsecond := isPlain_iff.mpr (hdigit (u % 16) (by omega))
    refine plain ?_ rfl
    simp only [List.all_cons, List.all_nil, hfirst, hsecond]
    rfl

theorem members {ms : List Regexp.Member} (h : ∀ m ∈ ms, m.WellFormed) :
    Becomes (ms.flatMap Regexp.Member.text) (ms.flatMap Regexp.Member.text) := by
  induction ms with
  | nil => exact nil
  | cons m ms ih =>
      obtain ⟨hm, hms⟩ := List.forall_mem_cons.mp h
      refine append ?_ (ih hms)
      cases m with
      | single u => exact escape hm
      | range first last =>
          have hdash : Becomes ['-'] ['-'] := plain rfl rfl
          exact (escape (Nat.lt_of_le_of_lt hm.1 hm.2)).append (hdash.append (escape hm.2))

end Becomes

/-! ## Expressions of globs -/

open Glob

/-- The text of the expression is replaced by the text of the one with numbered groups. -/
def Captures (r : Regexp) : Prop := Becomes r.text r.capture.text

namespace Captures

variable {a b r : Regexp}

theorem seq (ha : Captures a) (hb : Captures b) : Captures (.seq a b) := Becomes.append ha hb

theorem alt (ha : Captures a) (hb : Captures b) : Captures (.alt a b) :=
  have hbar : Becomes ['|'] ['|'] := .plain rfl rfl
  Becomes.append ha (hbar.append hb)

theorem group (h : Captures r) : Captures (.group false r) := Becomes.group h

theorem alts {rs : List Regexp} (hr : Captures r) (hrs : ∀ r' ∈ rs, Captures r') : Captures (alts r rs) := by
  induction rs generalizing r with
  | nil => exact hr
  | cons r' rs ih =>
      obtain ⟨hr', hrs⟩ := List.forall_mem_cons.mp hrs
      exact hr.alt (ih hr' hrs)

theorem literals {us : List Nat} (h : ∀ u ∈ us, u < 256) : Captures (literals us) := by
  induction us with
  | nil => exact .nil
  | cons u us ih =>
      obtain ⟨hu, hus⟩ := List.forall_mem_cons.mp h
      exact .seq (.escape hu) (ih hus)

theorem cls {negated : Bool} {ms : List Regexp.Member} (h : ∀ m ∈ ms, m.WellFormed) :
    Captures (.cls negated ms) := by
  have hopen : Becomes ['['] ['['] := .plain rfl rfl
  have hclose : Becomes [']'] [']'] := .plain rfl rfl
  have hcaret : Becomes (if negated then ['^'] else []) (if negated then ['^'] else []) := by
    cases negated with
    | false => exact .nil
    | true => exact .plain rfl rfl
  exact hopen.append ((hcaret.append (.members h)).append hclose)

theorem slash : Captures slash := .escape (by decide)

theorem notSlash : Captures notSlash := .cls notSlash_wellFormed.2

theorem starNotSlash : Captures (.star Glob.notSlash) := .plain rfl rfl

theorem slashAnything : Captures (.seq Glob.slash anything) := fun _ _ hs hf _ =>
  ⟨.char rfl (.any hf.1 hs), rfl, rfl⟩

theorem slashAnythingSlash : Captures (.seq Glob.slash (.seq anything Glob.slash)) := fun _ _ hs _ _ =>
  ⟨.char rfl (.any rfl (.char rfl hs)), rfl, rfl⟩

theorem slashOrAnything : Captures (.alt (.opt Glob.slash) (.seq anything Glob.slash)) := fun _ _ hs _ _ =>
  ⟨.char rfl (.question rfl (.char rfl (.any rfl (.char rfl hs)))), rfl, rfl⟩

end Captures

mutual
theorem Token.captures : ∀ t : Token, Captures t.regexp
  | .literal c => .literals fun _ h => units_lt h
  | .any => .notSlash
  | .zeroOrMore => .starNotSlash
  | .recursivePrefix => .group .slashOrAnything
  | .recursiveSuffix => .slashAnything
  | .recursiveZeroOrMore => .group (.alt .slash .slashAnythingSlash)
  | .cls negated ranges hne => .cls (Token.regexp_wellFormed (.cls negated ranges hne)).2.2
  | .alternates parts => by
      have hparts := partRegexps_captures parts
      unfold Token.regexp
      cases h : partRegexps parts with
      | nil => exact .nil
      | cons r rs =>
          rw [h] at hparts
          obtain ⟨hr, hrs⟩ := List.forall_mem_cons.mp hparts
          exact .group (.alts hr hrs)

theorem regexps_captures : ∀ ts : List Token, Captures (regexps ts)
  | [] => .nil
  | t :: ts => .seq (Token.captures t) (regexps_captures ts)

theorem partRegexps_captures : ∀ parts : List (List Token), ∀ r ∈ partRegexps parts, Captures r
  | [], r, h => nomatch h
  | part :: parts, r, h => by
      unfold partRegexps at h
      split at h
      · exact partRegexps_captures parts r h
      · rcases List.mem_cons.mp h with rfl | h
        · exact regexps_captures part
        · exact partRegexps_captures parts r h
end

/-- Where nothing escaped is taken for a mark, the replacements number the groups of the expression. -/
theorem regexEquivalent_regexText {tokens : List Token} (h : ¬ escapedMark <:+: regexText tokens) :
    regexEquivalent (regexText tokens) = (regexp tokens).capture.anchored := by
  have hend : Unmarked ['$'] ['$'] := .char rfl .nil
  have hmark : ¬ escapedMark <:+: (regexp tokens).text ++ ['$'] := fun hin =>
    h (hin.trans (List.suffix_append ("(?-u)".toList ++ ['^']) _).isInfix)
  have hbody : Unmarked ((regexp tokens).text ++ ['$']) ((regexp tokens).capture.text ++ ['$']) := by
    rcases regexp_eq tokens with hregexp | hregexp <;> rw [hregexp] at hmark ⊢
    · exact .any rfl hend
    · exact (regexps_captures tokens hend ⟨rfl, rfl⟩ hmark).1
  exact regexEquivalent_of_unmarked (.char rfl hbody)

end WeaveGate.Settings
