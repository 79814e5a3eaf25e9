import Mathlib.Algebra.GroupWithZero.Nat
import Mathlib.Data.List.DropRight
import Mathlib.Data.List.Infix

/-!
# Texts as lists of characters

The string operations of Rust's standard library, on lists of characters.
-/

abbrev Str := List Char

-- a name for it, so that every definition that looks for a text in a list has the same instance
instance : LawfulBEq Str := inferInstance

namespace Text

/-- Digits, capital letters and small letters of ASCII. -/
theorem toNat_of_isAlphanum {c : Char} (h : c.isAlphanum = true) :
    48 ≤ c.toNat ∧ c.toNat ≤ 57 ∨ 65 ≤ c.toNat ∧ c.toNat ≤ 90 ∨ 97 ≤ c.toNat ∧ c.toNat ≤ 122 := by
  unfold Char.isAlphanum Char.isAlpha Char.isUpper Char.isLower Char.isDigit at h
  simp only [Bool.or_eq_true, Bool.and_eq_true, decide_eq_true_eq, ge_iff_le, UInt32.le_iff_toNat_le] at h
  have hA : 'A'.val.toNat = 65 := rfl
  have hZ : 'Z'.val.toNat = 90 := rfl
  have ha : 'a'.val.toNat = 97 := rfl
  have hz : 'z'.val.toNat = 122 := rfl
  have h0 : '0'.val.toNat = 48 := rfl
  have h9 : '9'.val.toNat = 57 := rfl
  unfold Char.toNat
  omega

/-- The Unicode property `White_Space`. -/
def isWhitespace (c : Char) : Bool :=
  (9 ≤ c.toNat && c.toNat ≤ 13) || c.toNat = 0x20 || c.toNat = 0x85 || c.toNat = 0xA0 || c.toNat = 0x1680 ||
  (0x2000 ≤ c.toNat && c.toNat ≤ 0x200A) || c.toNat = 0x2028 || c.toNat = 0x2029 || c.toNat = 0x202F ||
  c.toNat = 0x205F || c.toNat = 0x3000

def trimStart (s : Str) : Str := s.dropWhile isWhitespace
def trimEnd (s : Str) : Str := s.rdropWhile isWhitespace
def trim (s : Str) : Str := trimEnd (trimStart s)

def trimStartMatches (c : Char) (s : Str) : Str := s.dropWhile (· = c)
def trimEndMatches (c : Char) (s : Str) : Str := s.rdropWhile (· = c)

/-- The number of UTF-8 bytes. -/
def len (s : Str) : Nat := (s.map Char.utf8Size).sum

def startsWith (s : Str) (c : Char) : Bool := s.head? = some c
def endsWith (s : Str) (c : Char) : Bool := s.getLast? = some c
def contains (s sub : Str) : Bool := decide (sub <:+: s)
def stripPrefix (s pre : Str) : Option Str := s.dropPrefix? pre
def toAsciiLowercase (s : Str) : Str := s.map Char.toLower
def eqIgnoreAsciiCase (s s' : Str) : Bool := toAsciiLowercase s = toAsciiLowercase s'

def rsplitOnce (c : Char) (s : Str) : Option (Str × Str) :=
  match s.reverse.span (· ≠ c) with
  | (_, []) => none
  | (after, _ :: before) => some (before.reverse, after.reverse)

def splitOnce (c : Char) (s : Str) : Option (Str × Str) :=
  match s.span (· ≠ c) with
  | (_, []) => none
  | (before, _ :: after) => some (before, after)

/-- An unsigned decimal number of at most `max`, with an optional plus sign. -/
def parseUnsigned (max : Nat) (s : Str) : Option Nat :=
  let digits := match s with
    | '+' :: rest => rest
    | _ => s
  if digits = [] ∨ ¬ digits.all Char.isDigit then none
  else
    let n := digits.foldl (fun n c => 10 * n + (c.toNat - '0'.toNat)) 0
    if n ≤ max then some n else none

theorem stripPrefix_eq_some {s pre rest : Str} : stripPrefix s pre = some rest ↔ s = pre ++ rest := by
  rw [stripPrefix, List.dropPrefix?_eq_some_iff]
  constructor
  · rintro ⟨q, rfl, hq⟩
    rw [beq_iff_eq.mp hq]
  · rintro rfl
    exact ⟨pre, rfl, beq_self_eq_true pre⟩

theorem stripPrefix_append (pre rest : Str) : stripPrefix (pre ++ rest) pre = some rest :=
  stripPrefix_eq_some.mpr rfl

/-! ## Splitting -/

theorem splitOnce_eq_none {c : Char} {s : Str} (h : ∀ d ∈ s, d ≠ c) : splitOnce c s = none := by
  unfold splitOnce
  have hspan : s.span (· ≠ c) = (s, []) := by
    rw [List.span_eq_takeWhile_dropWhile, List.takeWhile_eq_self_iff.mpr (by simpa using h),
      List.dropWhile_eq_nil_iff.mpr (by simpa using h)]
  rw [hspan]

theorem splitOnce_append {c : Char} {before after : Str} (h : ∀ d ∈ before, d ≠ c) :
    splitOnce c (before ++ c :: after) = some (before, after) := by
  unfold splitOnce
  have hspan : (before ++ c :: after).span (· ≠ c) = (before, c :: after) := by
    rw [List.span_eq_takeWhile_dropWhile, List.takeWhile_append_of_pos (by simpa using h),
      List.dropWhile_append_of_pos (by simpa using h)]
    simp
  rw [hspan]

theorem splitOnce_eq_some {c : Char} {s before after : Str} (h : splitOnce c s = some (before, after)) :
    s = before ++ c :: after := by
  unfold splitOnce at h
  rw [List.span_eq_takeWhile_dropWhile] at h
  split at h
  · cases h
  · rename_i b d a heq
    cases h
    obtain ⟨hb, ha⟩ := Prod.mk.inj heq
    have hd : d = c := by
      have := List.head?_dropWhile_not (· ≠ c) s
      rw [ha] at this
      simpa using this
    rw [← List.takeWhile_append_dropWhile (p := (· ≠ c)) (l := s), hb, ha, hd]

theorem rsplitOnce_eq_none {c : Char} {s : Str} (h : c ∉ s) : rsplitOnce c s = none := by
  unfold rsplitOnce
  have hspan : s.reverse.span (· ≠ c) = (s.reverse, []) := by
    have hall : ∀ d ∈ s.reverse, d ≠ c := fun d hd hdc => h (hdc ▸ List.mem_reverse.mp hd)
    rw [List.span_eq_takeWhile_dropWhile, List.takeWhile_eq_self_iff.mpr (by simpa using hall),
      List.dropWhile_eq_nil_iff.mpr (by simpa using hall)]
  rw [hspan]

theorem rsplitOnce_append {c : Char} {after : Str} (h : c ∉ after) (before : Str) :
    rsplitOnce c (before ++ c :: after) = some (before, after) := by
  unfold rsplitOnce
  have hspan : (before ++ c :: after).reverse.span (· ≠ c) = (after.reverse, c :: before.reverse) := by
    have hall : ∀ d ∈ after.reverse, d ≠ c := fun d hd hdc => h (hdc ▸ List.mem_reverse.mp hd)
    rw [List.reverse_append, List.reverse_cons, List.append_assoc, List.singleton_append,
      List.span_eq_takeWhile_dropWhile, List.takeWhile_append_of_pos (by simpa using hall),
      List.dropWhile_append_of_pos (by simpa using hall)]
    simp
  rw [hspan]
  simp

/-- What follows the first occurrence of a character. -/
def after? (c : Char) (s : Str) : Option Str := (splitOnce c s).map Prod.snd

theorem after?_append_cons {c : Char} {before rest : Str} (h : ∀ d ∈ before, d ≠ c) :
    after? c (before ++ c :: rest) = some rest := by
  rw [after?, splitOnce_append h]
  rfl

theorem after?_eq_none {c : Char} {s : Str} (h : ∀ d ∈ s, d ≠ c) : after? c s = none := by
  rw [after?, splitOnce_eq_none h]
  rfl

theorem after?_append {c : Char} {before : Str} (h : ∀ d ∈ before, d ≠ c) (s : Str) :
    after? c (before ++ s) = after? c s := by
  by_cases hs : c ∈ s
  · obtain ⟨first, rest, rfl, hfirst⟩ := List.eq_append_cons_of_mem hs
    have hfirst := List.forall_mem_ne'.mpr hfirst
    rw [after?_append_cons hfirst, ← List.append_assoc, after?_append_cons]
    exact fun d hd => (List.mem_append.mp hd).elim (h d) (hfirst d)
  · have hne := List.forall_mem_ne'.mpr hs
    rw [after?_eq_none hne, after?_eq_none]
    exact fun d hd => (List.mem_append.mp hd).elim (h d) (hne d)

theorem after?_length {c : Char} {s rest : Str} (h : after? c s = some rest) : rest.length < s.length := by
  obtain ⟨⟨before, rest'⟩, hsplit, rfl⟩ := Option.map_eq_some_iff.mp h
  have hlen := congrArg List.length (splitOnce_eq_some hsplit)
  simp only [List.length_append, List.length_cons] at hlen
  dsimp only
  omega

/-- A prefix with the character in it takes the first occurrence along. -/
theorem after?_append_of_mem {c : Char} {pre : Str} (h : c ∈ pre) (s : Str) :
    after? c (pre ++ s) ≠ after? c s := by
  obtain ⟨before, rest, rfl, hfirst⟩ := List.eq_append_cons_of_mem h
  rw [List.append_assoc, List.cons_append, after?_append_cons (List.forall_mem_ne'.mpr hfirst)]
  intro heq
  have hlen := after?_length heq.symm
  rw [List.length_append] at hlen
  omega

/-! ## Numbers -/

theorem parseUnsigned_toDigits {max n : Nat} (h : n ≤ max) : parseUnsigned max (Nat.toDigits 10 n) = some n := by
  have hdigit : ∀ c ∈ Nat.toDigits 10 n, c.isDigit = true := fun c hc =>
    Nat.isDigit_of_mem_toDigits (by decide) (by decide) hc
  have hne : Nat.toDigits 10 n ≠ [] := Nat.toDigits_ne_nil
  have hvalue : (Nat.toDigits 10 n).foldl (fun n c => 10 * n + (c.toNat - '0'.toNat)) 0 = n := by
    rw [← Nat.ofDigitChars_eq_foldl, Nat.ofDigitChars_ten_toDigits]
  unfold parseUnsigned
  split
  · rename_i rest heq
    have hplus := hdigit '+' (by rw [heq]; exact List.mem_cons_self)
    exact absurd hplus (by decide)
  · dsimp only
    rw [if_neg (not_or.mpr ⟨hne, fun hall => hall (List.all_eq_true.mpr hdigit)⟩), hvalue, if_pos h]

theorem parseUnsigned_eq_none_of_mem {max : Nat} {s : Str} {c : Char} (hc : c ∈ s) (hplus : c ≠ '+')
    (hdigit : c.isDigit = false) : parseUnsigned max s = none := by
  have hall : ∀ digits : Str, c ∈ digits → ¬ digits.all Char.isDigit = true := fun digits hmem hall => by
    rw [List.all_eq_true.mp hall c hmem] at hdigit
    cases hdigit
  unfold parseUnsigned
  split
  · rename_i rest
    have hmem : c ∈ rest := (List.mem_cons.mp hc).resolve_left hplus
    exact if_pos (.inr (hall rest hmem))
  · exact if_pos (.inr (hall s hc))

/-! ## Trimming -/

theorem trimEndMatches_getLast? (c : Char) (s : Str) : (trimEndMatches c s).getLast? ≠ some c := by
  intro h
  have hne : trimEndMatches c s ≠ [] := by
    intro hnil
    rw [hnil] at h
    cases h
  have := List.rdropWhile_last_not (· = c) s hne
  rw [List.getLast?_eq_some_getLast hne] at h
  exact this (decide_eq_true (Option.some.inj h))

theorem trimEndMatches_append_replicate (c : Char) (s : Str) :
    ∃ n, s = trimEndMatches c s ++ List.replicate n c := by
  unfold trimEndMatches
  induction s using List.reverseRecOn with
  | nil => exact ⟨0, by simp⟩
  | append_singleton s a ih =>
      by_cases ha : a = c
      · obtain ⟨n, hn⟩ := ih
        refine ⟨n + 1, ?_⟩
        rw [List.rdropWhile_concat_pos _ _ _ (by simpa using ha), List.replicate_succ', ← List.append_assoc,
          ← hn, ha]
      · exact ⟨0, by rw [List.rdropWhile_concat_neg _ _ _ (by simpa using ha)]; simp⟩

/-! ## Replacing -/

/-- The first `skip` characters belong new an occurrence that has been replaced. -/
def replaceFrom (pat new : Str) : Nat → Str → Str
  | _, [] => []
  | skip + 1, _ :: s => replaceFrom pat new skip s
  | 0, c :: s => if pat <+: c :: s then new ++ replaceFrom pat new (pat.length - 1) s else c :: replaceFrom pat new 0 s

/-- All occurrences of a pattern that is not empty, from the left. -/
def replace (pat new s : Str) : Str := replaceFrom pat new 0 s

def trimStartStrWith (pat : Str) : Nat → Str → Str
  | 0, s => s
  | fuel + 1, s => (stripPrefix s pat).elim s (trimStartStrWith pat fuel)

/-- Removes a pattern that is not empty from the front as often as it stands there. -/
def trimStartStr (pat s : Str) : Str := trimStartStrWith pat s.length s

theorem replace_cons {pat new : Str} {c : Char} {s : Str} (h : ¬ pat <+: c :: s) :
    replace pat new (c :: s) = c :: replace pat new s := by
  unfold replace
  rw [replaceFrom, if_neg h]

theorem replaceFrom_append (pat new : Str) {skip : Nat} {front : Str} (h : front.length = skip) (s : Str) :
    replaceFrom pat new skip (front ++ s) = replace pat new s := by
  induction front generalizing skip with
  | nil =>
      subst h
      rfl
  | cons c front ih =>
      subst h
      exact ih rfl

theorem replace_append {pat new : Str} (hpat : pat ≠ []) (s : Str) :
    replace pat new (pat ++ s) = new ++ replace pat new s := by
  cases pat with
  | nil => exact absurd rfl hpat
  | cons c front =>
      have hprefix : c :: front <+: c :: (front ++ s) := List.prefix_append (c :: front) s
      rw [replace, List.cons_append, replaceFrom, if_pos hprefix]
      exact congrArg (new ++ ·) (replaceFrom_append _ new rfl s)

theorem stripPrefix_eq_none {s pre : Str} (h : ¬ pre <+: s) : stripPrefix s pre = none := by
  cases hs : stripPrefix s pre with
  | none => rfl
  | some rest => exact absurd ⟨rest, (stripPrefix_eq_some.mp hs).symm⟩ h

theorem trimStartStrWith_of_not_prefix {pat s : Str} (h : ¬ pat <+: s) (fuel : Nat) :
    trimStartStrWith pat fuel s = s := by
  cases fuel with
  | zero => rfl
  | succ fuel => rw [trimStartStrWith, stripPrefix_eq_none h, Option.elim_none]

theorem trimStartStr_append {pat s : Str} (hpat : pat ≠ []) (h : ¬ pat <+: s) : trimStartStr pat (pat ++ s) = s := by
  cases pat with
  | nil => exact absurd rfl hpat
  | cons c front =>
      rw [trimStartStr, List.cons_append, List.length_cons, trimStartStrWith, ← List.cons_append,
        stripPrefix_append, Option.elim_some]
      exact trimStartStrWith_of_not_prefix h _

end Text
