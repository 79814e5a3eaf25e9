import WeaveGate.Lib.Percent
import WeaveGate.Lib.Text

/-!
# `application/x-www-form-urlencoded`

The serializer of bytes and the parser of the `form_urlencoded` crate.
-/

namespace FormUrlencoded

open Posix (Octets)

def plus : UInt8 := 0x2B
def space : UInt8 := 0x20

/-- Digits, letters and `*`, `-`, `.`, `_`. -/
def unchanged (b : UInt8) : Bool :=
  (0x30 ≤ b && b ≤ 0x39) || (0x41 ≤ b && b ≤ 0x5A) || (0x61 ≤ b && b ≤ 0x7A) ||
  b = 0x2A || b = 0x2D || b = 0x2E || b = 0x5F

def byteSerialize (bs : Octets) : Str :=
  bs.flatMap fun b => if b = space then ['+'] else Percent.encode unchanged [b]

/-- A plus sign stands for a space. -/
def spaced (b : UInt8) : UInt8 := if b = plus then space else b

def decode (s : Str) : Str :=
  Utf8.decodeLossy (Percent.decode ((Posix.utf8 s).map spaced))

/-- A name and a value from each piece that is not empty. A piece without `=` is a name. -/
def parse (s : Str) : List (Str × Str) :=
  ((s.splitOn '&').filter (· ≠ [])).map fun piece =>
    let pair := (Text.splitOnce '=' piece).getD (piece, [])
    (decode pair.1, decode pair.2)

/-! ## Serialized bytes -/

theorem unchanged_spec {b : UInt8} (h : unchanged b = true) : b ≠ Percent.sign ∧ b.toNat < 0x80 ∧ b ≠ plus := by
  unfold unchanged at h
  simp only [Bool.or_eq_true, Bool.and_eq_true, decide_eq_true_eq, UInt8.le_iff_toNat_le, ← UInt8.toNat_inj,
    UInt8.toNat_ofNat] at h
  simp only [ne_eq, ← UInt8.toNat_inj, Percent.sign, plus, UInt8.toNat_ofNat]
  omega

/-- The characters of a serialized text. -/
def isSerialized (c : Char) : Bool := c.isAlphanum || c ∈ ['*', '-', '.', '_', '+', '%']

theorem byteSerialize_cons (b : UInt8) (bs : Octets) :
    byteSerialize (b :: bs) = byteSerialize [b] ++ byteSerialize bs := by
  simp [byteSerialize]

theorem isSerialized_byteSerialize {bs : Octets} {c : Char} (h : c ∈ byteSerialize bs) : isSerialized c = true := by
  obtain ⟨b, _, hc⟩ := List.mem_flatMap.mp h
  split at hc
  · rw [List.mem_singleton.mp hc]
    rfl
  · rcases Percent.mem_encode hc with ⟨b', _, hkeep, rfl⟩ | rfl | halnum
    · have hall : (List.range 128).all (fun n => unchanged (UInt8.ofNat n) → isSerialized (Char.ofNat n) = true) =
          true := by decide
      have hlt := (unchanged_spec hkeep).2.1
      have h := of_decide_eq_true (List.all_eq_true.mp hall b'.toNat (List.mem_range.mpr hlt))
      rw [UInt8.ofNat_toNat] at h
      exact h hkeep
    · rfl
    · rw [isSerialized, halnum, Bool.true_or]

theorem spaced_hexDigit {n : Nat} (h : n < 16) :
    spaced (UInt8.ofNat (Percent.hexDigit n).toNat) = UInt8.ofNat (Percent.hexDigit n).toNat := by
  have hvalue := (Percent.hexDigit_spec h).2.1
  refine if_neg fun hplus => ?_
  rw [hplus] at hvalue
  cases hvalue

theorem map_spaced_byteSerialize (b : UInt8) : (Posix.utf8 (byteSerialize [b])).map spaced =
    Posix.utf8 (Percent.encode (fun b => unchanged b || b = space) [b]) := by
  have hlt := b.toNat_lt
  by_cases hspace : b = space
  · rw [hspace, Percent.utf8_encode_kept rfl (by decide)]
    decide
  · have hone : byteSerialize [b] = Percent.encode unchanged [b] := by simp [byteSerialize, hspace]
    rw [hone]
    by_cases hkeep : unchanged b = true
    · obtain ⟨_, hascii, hplus⟩ := unchanged_spec hkeep
      rw [Percent.utf8_encode_kept hkeep hascii, Percent.utf8_encode_kept (by rw [hkeep, Bool.true_or]) hascii]
      show [spaced b] = [b]
      rw [spaced, if_neg hplus]
    · rw [Percent.utf8_encode_signed hkeep, Percent.utf8_encode_signed (by simp [hkeep, hspace]), List.map_cons,
        List.map_cons, List.map_cons, spaced_hexDigit (by omega), spaced_hexDigit (by omega)]
      rfl

/-- Bytes are decoded to what they were before. -/
theorem percentDecode_byteSerialize (bs : Octets) :
    Percent.decode ((Posix.utf8 (byteSerialize bs)).map spaced) = bs := by
  have hencode : (Posix.utf8 (byteSerialize bs)).map spaced =
      Posix.utf8 (Percent.encode (fun b => unchanged b || b = space) bs) := by
    induction bs with
    | nil => rfl
    | cons b bs ih =>
        rw [byteSerialize_cons, Utf8.utf8_append, List.map_append, map_spaced_byteSerialize, ih, ← Utf8.utf8_append,
          ← Percent.encode_append]
        rfl
  have hkeep : ∀ b, (unchanged b || decide (b = space)) = true → b ≠ Percent.sign ∧ b.toNat < 0x80 := by
    intro b hb
    rcases Bool.or_eq_true_iff.mp hb with hb | hb
    · exact ⟨(unchanged_spec hb).1, (unchanged_spec hb).2.1⟩
    · rw [of_decide_eq_true hb]
      exact ⟨by decide, by decide⟩
  have hdecode := Percent.decode_encode hkeep bs []
  rwa [List.append_nil, Percent.decode, List.append_nil, ← hencode] at hdecode

theorem decode_byteSerialize (s : Str) : decode (byteSerialize (Posix.utf8 s)) = s := by
  unfold decode
  exact (congrArg Utf8.decodeLossy (percentDecode_byteSerialize (Posix.utf8 s))).trans (Utf8.decodeLossy_utf8 s)

/-! ## Parsing -/

theorem parse_append (a b : Str) : parse (a ++ '&' :: b) = parse a ++ parse b := by
  unfold parse
  rw [List.splitOn_append_cons_self, List.filter_append, List.map_append]

theorem parse_nil : parse [] = [] := by
  simp [parse]

theorem parse_pair {name value : Str} (hname : ∀ c ∈ name, c ≠ '&' ∧ c ≠ '=') (hvalue : '&' ∉ value) :
    parse (name ++ '=' :: value) = [(decode name, decode value)] := by
  have hpiece : '&' ∉ name ++ '=' :: value := by
    intro hmem
    rcases List.mem_append.mp hmem with hmem | hmem
    · exact (hname _ hmem).1 rfl
    · rcases List.mem_cons.mp hmem with h | hmem
      · cases h
      · exact hvalue hmem
  unfold parse
  rw [List.splitOn_eq_singleton hpiece, List.filter_cons_of_pos (by simp), List.filter_nil,
    List.map_singleton, Text.splitOnce_append fun c hc => (hname c hc).2]
  rfl

end FormUrlencoded
