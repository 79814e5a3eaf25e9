import WeaveGate.Lib.Utf8

/-!
# Percent-encoding

The operations of the `percent_encoding` crate on lists of bytes.
-/

namespace Percent

open Posix (Octets)

def sign : UInt8 := 0x25

def hexValue (b : UInt8) : Option UInt8 :=
  if 0x30 ≤ b ∧ b ≤ 0x39 then some (b - 0x30)
  else if 0x41 ≤ b ∧ b ≤ 0x46 then some (b - 0x37)
  else if 0x61 ≤ b ∧ b ≤ 0x66 then some (b - 0x57)
  else none

/-- A percent sign that two hexadecimal digits do not follow stands for itself. -/
def decode : Octets → Octets
  | [] => []
  | [b] => [b]
  | [b, c] => [b, c]
  | b :: h :: l :: rest =>
      match if b = sign then (hexValue h).bind fun x => (hexValue l).map fun y => 16 * x + y else none with
      | some v => v :: decode rest
      | none => b :: decode (h :: l :: rest)

def hexDigit (n : Nat) : Char := (Nat.toDigits 16 n).headD '0' |>.toUpper

def encode (keep : UInt8 → Bool) (bs : Octets) : List Char :=
  bs.flatMap fun b =>
    if keep b then [Char.ofNat b.toNat] else ['%', hexDigit (b.toNat / 16), hexDigit (b.toNat % 16)]

example : decode (Posix.utf8 "a%2Fb%zz%".toList) = Posix.utf8 "a/b%zz%".toList := by decide
example : encode (fun b => b = 0x61) [0x61, 0x2F, 0xFF] = "a%2F%FF".toList := by decide

/-! ## Decoding what was encoded -/

theorem decode_cons_of_ne {b : UInt8} (h : b ≠ sign) (rest : Octets) : decode (b :: rest) = b :: decode rest := by
  match rest with
  | [] => rfl
  | [_] => rfl
  | _ :: _ :: _ => rw [decode, if_neg h]

theorem decode_sign_cons {h l x y : UInt8} (hh : hexValue h = some x) (hl : hexValue l = some y) (rest : Octets) :
    decode (sign :: h :: l :: rest) = (16 * x + y) :: decode rest := by
  rw [decode, if_pos rfl, hh, hl]
  rfl

/-- The digit is a character below U+0080 that is read as `n`. -/
theorem hexDigit_spec {n : Nat} (h : n < 16) : (hexDigit n).toNat < 0x80 ∧
    hexValue (UInt8.ofNat (hexDigit n).toNat) = some (UInt8.ofNat n) ∧ (hexDigit n).isAlphanum = true := by
  have hall : (List.range 16).all (fun n => (hexDigit n).toNat < 0x80 ∧
      hexValue (UInt8.ofNat (hexDigit n).toNat) = some (UInt8.ofNat n) ∧ (hexDigit n).isAlphanum = true) = true := by
    decide
  exact of_decide_eq_true (List.all_eq_true.mp hall n (List.mem_range.mpr h))

theorem sixteen_mul_div_add_mod (b : UInt8) : 16 * UInt8.ofNat (b.toNat / 16) + UInt8.ofNat (b.toNat % 16) = b := by
  rw [← UInt8.toNat_inj]
  have := b.toNat_lt
  simp only [UInt8.toNat_add, UInt8.toNat_mul, UInt8.toNat_ofNat', UInt8.toNat_ofNat]
  omega

theorem encode_append (keep : UInt8 → Bool) (a b : Octets) : encode keep (a ++ b) = encode keep a ++ encode keep b :=
  List.flatMap_append

theorem utf8_encode_kept {keep : UInt8 → Bool} {b : UInt8} (hb : keep b = true) (hlt : b.toNat < 0x80) :
    Posix.utf8 (encode keep [b]) = [b] := by
  have henc : encode keep [b] = [Char.ofNat b.toNat] := by simp [encode, hb]
  have hchar : (Char.ofNat b.toNat).toNat = b.toNat := by
    rw [Char.ofNat, dif_pos (.inl (by omega))]
    rfl
  rw [henc, Utf8.utf8_ascii (by simpa [hchar] using hlt)]
  simp [hchar]

theorem utf8_encode_signed {keep : UInt8 → Bool} {b : UInt8} (hb : ¬ keep b = true) :
    Posix.utf8 (encode keep [b]) =
      [sign, UInt8.ofNat (hexDigit (b.toNat / 16)).toNat, UInt8.ofNat (hexDigit (b.toNat % 16)).toNat] := by
  have hlt := b.toNat_lt
  have henc : encode keep [b] = ['%', hexDigit (b.toNat / 16), hexDigit (b.toNat % 16)] := by simp [encode, hb]
  have hhigh := (hexDigit_spec (show b.toNat / 16 < 16 by omega)).1
  have hlow := (hexDigit_spec (show b.toNat % 16 < 16 by omega)).1
  rw [henc, Utf8.utf8_ascii (by simp [hhigh, hlow])]
  rfl

/-- What is encoded is decoded to the same bytes when the percent sign is encoded with it. -/
theorem decode_encode {keep : UInt8 → Bool} (hkeep : ∀ b, keep b = true → b ≠ sign ∧ b.toNat < 0x80) (bs rest : Octets) :
    decode (Posix.utf8 (encode keep bs) ++ rest) = bs ++ decode rest := by
  induction bs with
  | nil => rfl
  | cons b bs ih =>
      rw [show b :: bs = [b] ++ bs from rfl, encode_append, Utf8.utf8_append, List.append_assoc]
      by_cases hb : keep b = true
      · rw [utf8_encode_kept hb (hkeep b hb).2, List.cons_append, List.nil_append, decode_cons_of_ne (hkeep b hb).1, ih]
        rfl
      · have hlt := b.toNat_lt
        rw [utf8_encode_signed hb, List.cons_append, List.cons_append, List.cons_append, List.nil_append,
          decode_sign_cons (hexDigit_spec (by omega)).2.1 (hexDigit_spec (by omega)).2.1, ih, sixteen_mul_div_add_mod]
        rfl

theorem mem_encode {keep : UInt8 → Bool} {bs : Octets} {c : Char} (h : c ∈ encode keep bs) :
    (∃ b ∈ bs, keep b = true ∧ c = Char.ofNat b.toNat) ∨ c = '%' ∨ c.isAlphanum = true := by
  obtain ⟨b, hb, hc⟩ := List.mem_flatMap.mp h
  have hlt := b.toNat_lt
  split at hc
  · exact .inl ⟨b, hb, ‹_›, by simpa using hc⟩
  · right
    simp only [List.mem_cons, List.not_mem_nil, or_false] at hc
    rcases hc with rfl | rfl | rfl
    · exact .inl rfl
    · exact .inr (hexDigit_spec (by omega)).2.2
    · exact .inr (hexDigit_spec (by omega)).2.2

/-! ## Bytes that end an escape -/

theorem decode_sign_of_none {b : UInt8} (hb : hexValue b = none) (y : Octets) :
    decode (sign :: b :: y) = sign :: decode (b :: y) := by
  cases y with
  | nil => rfl
  | cons l y => rw [decode, if_pos rfl, hb]; rfl

theorem decode_sign_of_none' {b : UInt8} (hb : hexValue b = none) (c : UInt8) (y : Octets) :
    decode (sign :: c :: b :: y) = sign :: decode (c :: b :: y) := by
  rw [decode, if_pos rfl, hb]
  cases hexValue c <;> rfl

/-- No escape reaches over a byte that is neither a percent sign nor a hexadecimal digit. -/
theorem decode_append_cons {b : UInt8} (hb : b ≠ sign ∧ hexValue b = none) (x y : Octets) :
    decode (x ++ b :: y) = decode x ++ b :: decode y := by
  induction x using decode.induct with
  | case1 => exact decode_cons_of_ne hb.1 y
  | case2 a =>
      by_cases ha : a = sign
      · rw [ha, List.cons_append, List.nil_append, decode_sign_of_none hb.2, decode_cons_of_ne hb.1]
        rfl
      · rw [List.cons_append, List.nil_append, decode_cons_of_ne ha, decode_cons_of_ne hb.1]
        rfl
  | case3 a c =>
      have hc : decode (c :: b :: y) = c :: b :: decode y := by
        by_cases hc : c = sign
        · rw [hc, decode_sign_of_none hb.2, decode_cons_of_ne hb.1]
        · rw [decode_cons_of_ne hc, decode_cons_of_ne hb.1]
      by_cases ha : a = sign
      · rw [ha, List.cons_append, List.cons_append, List.nil_append, decode_sign_of_none' hb.2, hc]
        rfl
      · rw [List.cons_append, List.cons_append, List.nil_append, decode_cons_of_ne ha, hc]
        rfl
  | case4 a h l rest v hv ih =>
      rw [List.cons_append, List.cons_append, List.cons_append, decode, hv, ih, decode, hv]
      rfl
  | case5 a h l rest hv ih =>
      rw [List.cons_append, List.cons_append, List.cons_append, decode, hv]
      rw [List.cons_append, List.cons_append] at ih
      rw [decode, hv]
      show a :: decode (h :: l :: (rest ++ b :: y)) = _
      rw [ih]
      rfl

end Percent
