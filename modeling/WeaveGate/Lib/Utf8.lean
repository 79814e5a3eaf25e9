import Mathlib.Tactic.SplitIfs
import WeaveGate.Lib.Posix.Path

/-!
# Bytes that are, or are not, UTF-8

Rust's `str::from_utf8` and `from_utf8_lossy` on lists of bytes.
-/

namespace Utf8

open Posix (Octets)

/-- How many continuation bytes follow a first byte, and the range of the first of them. -/
def lead (b : UInt8) : Option (Nat × UInt8 × UInt8) :=
  if b < 0x80 then some (0, 0x80, 0xBF)
  else if 0xC2 ≤ b ∧ b ≤ 0xDF then some (1, 0x80, 0xBF)
  else if b = 0xE0 then some (2, 0xA0, 0xBF)
  else if b = 0xED then some (2, 0x80, 0x9F)
  else if 0xE1 ≤ b ∧ b ≤ 0xEF then some (2, 0x80, 0xBF)
  else if b = 0xF0 then some (3, 0x90, 0xBF)
  else if 0xF1 ≤ b ∧ b ≤ 0xF3 then some (3, 0x80, 0xBF)
  else if b = 0xF4 then some (3, 0x80, 0x8F)
  else none

def continuation (lo hi : UInt8) : Nat → Octets → Octets
  | 0, _ => []
  | _, [] => []
  | n + 1, b :: bs => if lo ≤ b ∧ b ≤ hi then b :: continuation 0x80 0xBF n bs else []

/-- Whether a whole character is at the front, its bytes or as many as could start one, and the rest. -/
def next (b : UInt8) (bs : Octets) : Bool × Octets × Octets :=
  match lead b with
  | none => (false, [b], bs)
  | some (n, lo, hi) =>
      let conts := continuation lo hi n bs
      (conts.length = n, b :: conts, bs.drop conts.length)

def validWith : Nat → Octets → Bool
  | _, [] => true
  | 0, _ => false
  | fuel + 1, b :: bs =>
      let (whole, _, rest) := next b bs
      whole && validWith fuel rest

def valid (bs : Octets) : Bool := validWith bs.length bs

def lossyWith : Nat → Octets → Octets
  | 0, _ => []
  | _, [] => []
  | fuel + 1, b :: bs =>
      let (whole, char, rest) := next b bs
      (if whole then char else [0xEF, 0xBF, 0xBD]) ++ lossyWith fuel rest

def lossy (bs : Octets) : Octets := lossyWith bs.length bs

def char : Octets → Char
  | [a] => Char.ofNat a.toNat
  | [a, b] => Char.ofNat (a.toNat % 0x20 * 0x40 + b.toNat % 0x40)
  | [a, b, c] => Char.ofNat ((a.toNat % 0x10 * 0x40 + b.toNat % 0x40) * 0x40 + c.toNat % 0x40)
  | [a, b, c, d] =>
      Char.ofNat (((a.toNat % 0x08 * 0x40 + b.toNat % 0x40) * 0x40 + c.toNat % 0x40) * 0x40 + d.toNat % 0x40)
  | _ => '\uFFFD'

def decodeWith : Nat → Octets → List Char
  | 0, _ => []
  | _, [] => []
  | fuel + 1, b :: bs =>
      let (whole, bytes, rest) := next b bs
      (if whole then char bytes else '\uFFFD') :: decodeWith fuel rest

/-- The characters, with U+FFFD for every byte sequence that is none. -/
def decodeLossy (bs : Octets) : List Char := decodeWith bs.length bs

def decode (bs : Octets) : Option (List Char) := if valid bs then some (decodeLossy bs) else none

example : valid (Posix.utf8 "aé漢".toList) = true := by decide
example : lossy [0x61, 0xE6, 0xBC, 0x62] = [0x61, 0xEF, 0xBF, 0xBD, 0x62] := by decide

example : decode (Posix.utf8 "aé漢😀".toList) = some "aé漢😀".toList := by decide

/-! ## Texts of ASCII characters -/

theorem utf8_append (a b : List Char) : Posix.utf8 (a ++ b) = Posix.utf8 a ++ Posix.utf8 b := List.flatMap_append

theorem utf8EncodeChar_ascii {c : Char} (h : c.toNat < 0x80) : String.utf8EncodeChar c = [UInt8.ofNat c.toNat] :=
  if_pos (Nat.le_of_lt_succ h)

theorem utf8_ascii {s : List Char} (h : ∀ c ∈ s, c.toNat < 0x80) :
    Posix.utf8 s = s.map fun c => UInt8.ofNat c.toNat := by
  induction s with
  | nil => rfl
  | cons c s ih =>
      rw [List.forall_mem_cons] at h
      show String.utf8EncodeChar c ++ Posix.utf8 s = _
      rw [utf8EncodeChar_ascii h.1, ih h.2]
      rfl

/-! ## Reading encoded characters -/

theorem lead_one {b : UInt8} (h : b.toNat < 0x80) : lead b = some (0, 0x80, 0xBF) :=
  if_pos (UInt8.lt_iff_toNat_lt.mpr h)

theorem lead_two {b : UInt8} (h : 0xC2 ≤ b.toNat ∧ b.toNat ≤ 0xDF) : lead b = some (1, 0x80, 0xBF) := by
  unfold lead
  simp only [UInt8.lt_iff_toNat_lt, UInt8.le_iff_toNat_le, UInt8.toNat_ofNat]
  rw [if_neg (by omega), if_pos (by omega)]

theorem lead_three {b : UInt8} (h : 0xE0 ≤ b.toNat ∧ b.toNat ≤ 0xEF) :
    lead b = some (2, if b = 0xE0 then 0xA0 else 0x80, if b = 0xED then 0x9F else 0xBF) := by
  unfold lead
  simp only [UInt8.lt_iff_toNat_lt, UInt8.le_iff_toNat_le, ← UInt8.toNat_inj, UInt8.toNat_ofNat]
  split_ifs <;> first | rfl | omega

theorem lead_four {b : UInt8} (h : 0xF0 ≤ b.toNat ∧ b.toNat ≤ 0xF4) :
    lead b = some (3, if b = 0xF0 then 0x90 else 0x80, if b = 0xF4 then 0x8F else 0xBF) := by
  unfold lead
  simp only [UInt8.lt_iff_toNat_lt, UInt8.le_iff_toNat_le, ← UInt8.toNat_inj, UInt8.toNat_ofNat]
  split_ifs <;> first | rfl | omega

theorem continuation_cons {lo hi b : UInt8} (h : lo ≤ b ∧ b ≤ hi) (n : Nat) (bs : Octets) :
    continuation lo hi (n + 1) (b :: bs) = b :: continuation 0x80 0xBF n bs := if_pos h

theorem continuation_zero (lo hi : UInt8) (bs : Octets) : continuation lo hi 0 bs = [] := by
  unfold continuation
  rfl

theorem next_of_lead {b lo hi : UInt8} {conts rest : Octets} (hlead : lead b = some (conts.length, lo, hi))
    (hconts : continuation lo hi conts.length (conts ++ rest) = conts) :
    next b (conts ++ rest) = (true, b :: conts, rest) := by
  unfold next
  rw [hlead]
  simp [hconts]

theorem toNat_ofNat_of_lt {n : Nat} (h : n < 256) : (UInt8.ofNat n).toNat = n := by
  rw [UInt8.toNat_ofNat']
  omega

/-- The bytes of a character are read as that character, whatever follows. -/
theorem next_utf8EncodeChar (c : Char) : ∃ b conts, String.utf8EncodeChar c = b :: conts ∧
    (∀ rest, next b (conts ++ rest) = (true, b :: conts, rest)) ∧ char (b :: conts) = c := by
  have hvalid : c.val.toNat < 0xD800 ∨ 0xDFFF < c.val.toNat ∧ c.val.toNat < 0x110000 := c.valid
  have hback : Char.ofNat c.val.toNat = c := Char.ofNat_toNat c
  unfold String.utf8EncodeChar
  dsimp only
  generalize c.val.toNat = v at hvalid hback
  have hcont : ∀ m, 0x80 ≤ UInt8.ofNat (m % 0x40 + 0x80) ∧ UInt8.ofNat (m % 0x40 + 0x80) ≤ 0xBF := by
    intro m
    rw [UInt8.le_iff_toNat_le, UInt8.le_iff_toNat_le, toNat_ofNat_of_lt (by omega)]
    exact ⟨by simp, by simp; omega⟩
  split
  · refine ⟨_, _, rfl, fun rest => next_of_lead (lead_one (by rw [toNat_ofNat_of_lt] <;> omega)) ?_, ?_⟩
    · exact continuation_zero _ _ _
    · show Char.ofNat _ = c
      rw [toNat_ofNat_of_lt (by omega), hback]
  · split
    · refine ⟨_, _, rfl, fun rest => next_of_lead (lead_two (by rw [toNat_ofNat_of_lt] <;> omega)) ?_, ?_⟩
      · show continuation _ _ (0 + 1) _ = _
        rw [List.cons_append, continuation_cons (hcont v), continuation_zero]
      · show Char.ofNat _ = c
        rw [toNat_ofNat_of_lt (by omega), toNat_ofNat_of_lt (by omega), ← hback]
        congr 1
        omega
    · split
      · refine ⟨_, _, rfl, fun rest => next_of_lead (lead_three (by rw [toNat_ofNat_of_lt] <;> omega)) ?_, ?_⟩
        · show continuation _ _ (1 + 1) _ = _
          rw [List.cons_append, continuation_cons, List.cons_append, continuation_cons (hcont v), continuation_zero]
          simp only [UInt8.le_iff_toNat_le, ← UInt8.toNat_inj]
          rw [toNat_ofNat_of_lt (by omega), toNat_ofNat_of_lt (by omega)]
          split_ifs <;> simp at * <;> omega
        · show Char.ofNat _ = c
          rw [toNat_ofNat_of_lt (by omega), toNat_ofNat_of_lt (by omega), toNat_ofNat_of_lt (by omega), ← hback]
          congr 1
          omega
      · refine ⟨_, _, rfl, fun rest => next_of_lead (lead_four (by rw [toNat_ofNat_of_lt] <;> omega)) ?_, ?_⟩
        · show continuation _ _ (2 + 1) _ = _
          rw [List.cons_append, continuation_cons, List.cons_append, continuation_cons (hcont _), List.cons_append,
            continuation_cons (hcont v), continuation_zero]
          simp only [UInt8.le_iff_toNat_le, ← UInt8.toNat_inj]
          rw [toNat_ofNat_of_lt (by omega), toNat_ofNat_of_lt (by omega)]
          split_ifs <;> simp at * <;> omega
        · show Char.ofNat _ = c
          rw [toNat_ofNat_of_lt (by omega), toNat_ofNat_of_lt (by omega), toNat_ofNat_of_lt (by omega),
            toNat_ofNat_of_lt (by omega), ← hback]
          congr 1
          omega

theorem utf8_cons (c : Char) (s : List Char) : ∃ b conts, Posix.utf8 (c :: s) = b :: (conts ++ Posix.utf8 s) ∧
    next b (conts ++ Posix.utf8 s) = (true, b :: conts, Posix.utf8 s) ∧ char (b :: conts) = c := by
  obtain ⟨b, conts, hc, hnext, hchar⟩ := next_utf8EncodeChar c
  refine ⟨b, conts, ?_, hnext _, hchar⟩
  show String.utf8EncodeChar c ++ Posix.utf8 s = _
  rw [hc, List.cons_append]

theorem decodeWith_utf8 (s : List Char) (fuel : Nat) (h : (Posix.utf8 s).length ≤ fuel) :
    decodeWith fuel (Posix.utf8 s) = s := by
  induction s generalizing fuel with
  | nil =>
      cases fuel <;> rfl
  | cons c s ih =>
      obtain ⟨b, conts, hs, hnext, hchar⟩ := utf8_cons c s
      rw [hs] at h ⊢
      rw [List.length_cons, List.length_append] at h
      obtain ⟨fuel, rfl⟩ := Nat.exists_eq_succ_of_ne_zero (show fuel ≠ 0 by omega)
      rw [decodeWith, hnext]
      dsimp only
      rw [if_pos rfl, hchar, ih fuel (by omega)]

theorem decodeLossy_utf8 (s : List Char) : decodeLossy (Posix.utf8 s) = s := decodeWith_utf8 s _ (Nat.le_refl _)

theorem validWith_utf8 (s : List Char) (fuel : Nat) (h : (Posix.utf8 s).length ≤ fuel) :
    validWith fuel (Posix.utf8 s) = true := by
  induction s generalizing fuel with
  | nil =>
      cases fuel <;> rfl
  | cons c s ih =>
      obtain ⟨b, conts, hs, hnext, _⟩ := utf8_cons c s
      rw [hs] at h ⊢
      rw [List.length_cons, List.length_append] at h
      obtain ⟨fuel, rfl⟩ := Nat.exists_eq_succ_of_ne_zero (show fuel ≠ 0 by omega)
      rw [validWith, hnext]
      exact ih fuel (by omega)

theorem decode_utf8 (s : List Char) : decode (Posix.utf8 s) = some s := by
  rw [decode, valid, validWith_utf8 s _ (Nat.le_refl _), if_pos rfl, decodeLossy_utf8]

theorem decode_eq_nil {bs : Octets} (h : decode bs = some []) : bs = [] := by
  cases bs with
  | nil => rfl
  | cons b bs =>
      unfold decode at h
      split at h
      · cases Option.some.inj h
      · cases h

/-! ## Separators -/

/-- A byte below 0x80 stands for its own character only. -/
theorem toNat_of_mem_utf8EncodeChar {c : Char} {b : UInt8} (h : b ∈ String.utf8EncodeChar c) :
    b.toNat = c.toNat ∨ 0x80 ≤ b.toNat := by
  have hhigh : ∀ m n k : Nat, k ∈ [0x80, 0xC0, 0xE0, 0xF0] → m % n + k < 0x100 →
      0x80 ≤ (UInt8.ofNat (m % n + k)).toNat := by
    intro m n k hk hlt
    rw [toNat_ofNat_of_lt hlt]
    simp only [List.mem_cons, List.not_mem_nil, or_false] at hk
    omega
  unfold String.utf8EncodeChar at h
  dsimp only at h
  split at h
  · left
    rw [List.mem_singleton.mp h, toNat_ofNat_of_lt (by omega)]
    rfl
  · right
    split at h
    · simp only [List.mem_cons, List.not_mem_nil, or_false] at h
      rcases h with rfl | rfl <;> exact hhigh _ _ _ (by decide) (by omega)
    · split at h
      · simp only [List.mem_cons, List.not_mem_nil, or_false] at h
        rcases h with rfl | rfl | rfl <;> exact hhigh _ _ _ (by decide) (by omega)
      · simp only [List.mem_cons, List.not_mem_nil, or_false] at h
        rcases h with rfl | rfl | rfl | rfl <;> exact hhigh _ _ _ (by decide) (by omega)

theorem not_mem_utf8 {a : Char} (ha : a.toNat < 0x80) {s : List Char} (h : a ∉ s) :
    UInt8.ofNat a.toNat ∉ Posix.utf8 s := by
  intro hmem
  obtain ⟨c, hc, hb⟩ := List.mem_flatMap.mp hmem
  have hto : (UInt8.ofNat a.toNat).toNat = a.toNat := toNat_ofNat_of_lt (by omega)
  have hcases := toNat_of_mem_utf8EncodeChar hb
  rw [hto] at hcases
  have hca : a = c := Char.toNat_inj.mp (hcases.resolve_right (by omega))
  exact h (hca ▸ hc)

theorem splitOn_utf8 {a : Char} (ha : a.toNat < 0x80) (s : List Char) :
    (Posix.utf8 s).splitOn (UInt8.ofNat a.toNat) = (s.splitOn a).map Posix.utf8 := by
  by_cases hmem : a ∈ s
  · obtain ⟨x, y, hxy⟩ := List.append_of_mem hmem
    have hx : x.length < s.length := by rw [hxy, List.length_append, List.length_cons]; omega
    have hy : y.length < s.length := by rw [hxy, List.length_append, List.length_cons]; omega
    have hbytes : Posix.utf8 s = Posix.utf8 x ++ UInt8.ofNat a.toNat :: Posix.utf8 y := by
      rw [hxy, utf8_append]
      show _ ++ (String.utf8EncodeChar a ++ _) = _
      rw [utf8EncodeChar_ascii ha]
      rfl
    rw [hbytes, List.splitOn_append_cons_self, splitOn_utf8 ha x, splitOn_utf8 ha y, hxy, List.splitOn_append_cons_self,
      List.map_append]
  · rw [List.splitOn_eq_singleton hmem, List.splitOn_eq_singleton (not_mem_utf8 ha hmem)]
    rfl
termination_by s.length

end Utf8
