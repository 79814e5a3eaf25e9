import Mathlib.Computability.Language
import WeaveGate.Lib.Text

/-!
# Regular expressions and their texts

Expressions over code units with the text each is written as, and the language each stands for. What `.` stands for
is a parameter: engines differ in whether it takes a line feed.
-/

/-- A member of a class: one unit, or all from the first to the last. -/
inductive Regexp.Member where
  | single (u : Nat)
  | range (first last : Nat)

/-- A group is numbered if it captures. -/
inductive Regexp where
  | empty
  | unit (u : Nat)
  | dot
  | cls (negated : Bool) (members : List Regexp.Member)
  | star (r : Regexp)
  | opt (r : Regexp)
  | seq (a b : Regexp)
  | alt (a b : Regexp)
  | group (capturing : Bool) (r : Regexp)

namespace Regexp

/-! ## Texts -/

def isMeta (c : Char) : Bool := c ∈ "\\.+*?()|[]\x7b\x7d^$#&-~".toList

/-- A unit as a literal. What is not ASCII is written in hexadecimal. -/
def escape (u : Nat) : Str :=
  if u < 0x80 then
    if isMeta (Char.ofNat u) then ['\\', Char.ofNat u] else [Char.ofNat u]
  else ['\\', 'x', Nat.digitChar (u / 16), Nat.digitChar (u % 16)]

def Member.text : Member → Str
  | single u => escape u
  | range first last => escape first ++ '-' :: escape last

def text : Regexp → Str
  | empty => []
  | unit u => escape u
  | dot => ['.']
  | cls negated members => '[' :: ((if negated then ['^'] else []) ++ members.flatMap Member.text ++ [']'])
  | star r => r.text ++ ['*']
  | opt r => r.text ++ ['?']
  | seq a b => a.text ++ b.text
  | alt a b => a.text ++ '|' :: b.text
  | group capturing r => '(' :: ((if capturing then [] else ['?', ':']) ++ r.text ++ [')'])

/-- The text that has the expression match whole words. -/
def anchored (r : Regexp) : Str := '^' :: (r.text ++ ['$'])

def Member.WellFormed : Member → Prop
  | single u => u < 256
  | range first last => first ≤ last ∧ last < 256

def isAlt : Regexp → Bool
  | alt _ _ => true
  | _ => false

/-- Whether a repetition that is written after the text applies to all of it. -/
def isAtom : Regexp → Bool
  | unit _ | dot | cls _ _ | group _ _ => true
  | _ => false

/-- The text is read as the expression: operators are applied to what binds as tightly as they do, and classes have
members. -/
def WellFormed : Regexp → Prop
  | empty | dot => True
  | unit u => u < 256
  | cls _ members => members ≠ [] ∧ ∀ m ∈ members, m.WellFormed
  | star r | opt r => r.isAtom = true ∧ r.WellFormed
  | seq a b => a.isAlt = false ∧ b.isAlt = false ∧ a.WellFormed ∧ b.WellFormed
  | alt a b => a.WellFormed ∧ b.WellFormed
  | group _ r => r.WellFormed

/-! ## Languages -/

def Member.Has : Member → Nat → Prop
  | single u, x => x = u
  | range first last, x => first ≤ x ∧ x ≤ last

def lang (any : Nat → Prop) : Regexp → Language Nat
  | empty => 1
  | unit u => {[u]}
  | dot => {w | ∃ x, w = [x] ∧ any x}
  | cls negated members => {w | ∃ x, w = [x] ∧ ((∃ m ∈ members, m.Has x) ↔ negated = false)}
  | star r => KStar.kstar (r.lang any)
  | opt r => 1 + r.lang any
  | seq a b => a.lang any * b.lang any
  | alt a b => a.lang any + b.lang any
  | group _ r => r.lang any

/-- On a word in which two engines give `.` the same meaning, they agree. -/
theorem mem_lang_congr {any any' : Nat → Prop} (r : Regexp) {w : List Nat} (h : ∀ x ∈ w, any x ↔ any' x) :
    w ∈ r.lang any ↔ w ∈ r.lang any' := by
  induction r generalizing w with
  | empty => rfl
  | unit u => rfl
  | dot =>
      constructor
      · rintro ⟨x, rfl, hx⟩
        exact ⟨x, rfl, (h x List.mem_cons_self).mp hx⟩
      · rintro ⟨x, rfl, hx⟩
        exact ⟨x, rfl, (h x List.mem_cons_self).mpr hx⟩
  | cls negated members => rfl
  | star r ih =>
      simp only [lang, Language.mem_kstar]
      refine exists_congr fun words => and_congr_right fun hw => ?_
      refine forall₂_congr fun word hword => ih fun x hx => h x ?_
      rw [hw]
      exact List.mem_flatten.mpr ⟨word, hword, hx⟩
  | opt r ih =>
      simp only [lang, Language.mem_add]
      rw [ih h]
  | seq a b iha ihb =>
      simp only [lang, Language.mem_mul]
      constructor
      · rintro ⟨u, hu, v, hv, rfl⟩
        exact ⟨u, (iha fun x hx => h x (List.mem_append_left v hx)).mp hu, v,
          (ihb fun x hx => h x (List.mem_append_right u hx)).mp hv, rfl⟩
      · rintro ⟨u, hu, v, hv, rfl⟩
        exact ⟨u, (iha fun x hx => h x (List.mem_append_left v hx)).mpr hu, v,
          (ihb fun x hx => h x (List.mem_append_right u hx)).mpr hv, rfl⟩
  | alt a b iha ihb =>
      simp only [lang, Language.mem_add]
      rw [iha h, ihb h]
  | group capturing r ih => exact ih h

/-! ## Capturing -/

/-- The expression with all its groups numbered. -/
def capture : Regexp → Regexp
  | star r => .star r.capture
  | opt r => .opt r.capture
  | seq a b => .seq a.capture b.capture
  | alt a b => .alt a.capture b.capture
  | group _ r => .group true r.capture
  | r => r

@[simp] theorem lang_capture (any : Nat → Prop) (r : Regexp) : r.capture.lang any = r.lang any := by
  induction r with
  | empty => rfl
  | unit u => rfl
  | dot => rfl
  | cls negated members => rfl
  | star r ih => exact congrArg KStar.kstar ih
  | opt r ih => exact congrArg (1 + ·) ih
  | seq a b iha ihb => exact congrArg₂ (· * ·) iha ihb
  | alt a b iha ihb => exact congrArg₂ (· + ·) iha ihb
  | group capturing r ih => exact ih

@[simp] theorem isAlt_capture (r : Regexp) : r.capture.isAlt = r.isAlt := by cases r <;> rfl

@[simp] theorem isAtom_capture (r : Regexp) : r.capture.isAtom = r.isAtom := by cases r <;> rfl

theorem WellFormed.capture {r : Regexp} (h : r.WellFormed) : r.capture.WellFormed := by
  induction r with
  | empty => exact h
  | unit u => exact h
  | dot => exact h
  | cls negated members => exact h
  | star r ih => exact ⟨(isAtom_capture r).trans h.1, ih h.2⟩
  | opt r ih => exact ⟨(isAtom_capture r).trans h.1, ih h.2⟩
  | seq a b iha ihb =>
      exact ⟨(isAlt_capture a).trans h.1, (isAlt_capture b).trans h.2.1, iha h.2.2.1, ihb h.2.2.2⟩
  | alt a b iha ihb => exact ⟨iha h.1, ihb h.2⟩
  | group capturing r ih => exact ih h

end Regexp
