import Mathlib.Data.Set.Finite.Lemmas
import WeaveGate.Static.Encoding

/-!
# What a client prefers

The field lines of `Accept-Encoding` as their grammar has them, the codings that they name, and two orders of these:
by the weights that the client has sent, and by the weights as the server reads them.
-/

namespace WeaveGate.Static

open Http

/-! ## Field lines -/

def isOws (c : Char) : Bool := c = ' ' || c = '\t'

/-- Optional whitespace. -/
abbrev Ows := { s : Str // s.all isOws = true }

/-- Zero or one with at most three decimals, none where there is no point. -/
structure Qvalue where
  one : Bool
  decimals : Option (List (Fin 10))
  short : decimals.all (·.length ≤ 3) = true
  atMostOne : one = true → decimals.all (·.all (· = 0)) = true

namespace Qvalue

instance : NeZero 10 := ⟨by decide⟩

def digitChar (d : Fin 10) : Char := Nat.digitChar d

def text (q : Qvalue) : Str :=
  (if q.one then '1' else '0') :: q.decimals.elim [] fun ds => '.' :: ds.map digitChar

def thousandths (q : Qvalue) : Nat :=
  if q.one then 1000 else (List.zipWith (fun d w => d.val * w) (q.decimals.getD []) [100, 10, 1]).sum

theorem thousandths_le (q : Qvalue) : q.thousandths ≤ 1000 := by
  unfold thousandths
  split
  · exact Nat.le_refl _
  · match q.decimals.getD [] with
    | [] => decide
    | [a] => simp; omega
    | [a, b] => simp; omega
    | a :: b :: c :: _ => simp; omega

end Qvalue

/-- The name of the parameter is `q` or `Q`. -/
structure Weight where
  before : Ows
  after : Ows
  upper : Bool
  value : Qvalue

def Weight.text (w : Weight) : Str :=
  w.before.1 ++ ';' :: (w.after.1 ++ (if w.upper then 'Q' else 'q') :: '=' :: w.value.text)

structure Element where
  name : Str
  weight : Option Weight
  token : name ≠ [] ∧ name.all isTokenChar = true

def Element.text (e : Element) : Str := e.name ++ e.weight.elim [] Weight.text

/-- An element of the list, none for an empty one, and the whitespace around it. -/
structure Item where
  before : Ows
  element : Option Element
  after : Ows

def Item.text (i : Item) : Str := i.before.1 ++ i.element.elim [] Element.text ++ i.after.1

structure Line where
  items : List Item
  nonempty : items ≠ []

namespace Line

def text (l : Line) : Str := List.intercalate [','] (l.items.map Item.text)

def value (l : Line) : HeaderValue := Posix.utf8 l.text

end Line

def elementsOf (lines : List Line) : List Element := (lines.flatMap Line.items).filterMap Item.element

/-! ## Codings -/

/-- The codings that the server has, in the order that breaks ties. -/
def negotiable : List ContentCoding := [.zstd, .brotli, .gzip, .deflate]

/-- Names of codings are case-insensitive. -/
def Element.coding (e : Element) : Option ContentCoding :=
  negotiable.find? fun c => Text.eqIgnoreAsciiCase e.name c.asStr

/-- The coding that `ContentCoding::from_str` takes the name for. It has a second name for each, such as `BROTLI`. -/
def Element.readCoding (e : Element) : Option ContentCoding := (ContentCoding.fromStr e.name).filter (· ∈ negotiable)

/-! ## Weights -/

/-- The weight in thousandths. -/
def Element.q (e : Element) : Nat := e.weight.elim 1000 (·.value.thousandths)

/-- What is read of the `f32` next to the number of thousandths. -/
def f32Thousandths (n : Nat) : Nat := qualityOf (Float32.Model.ofScientific n (-3))

/-- For five weights the product stays below the whole number. -/
def roundedDown : List Nat := [251, 253, 502, 506, 511]

theorem f32Thousandths_eq {n : Nat} (h : n ≤ 1000) :
    f32Thousandths n = if n ∈ roundedDown then n - 1 else n := by
  have hall : (List.range 1001).all
      (fun n => f32Thousandths n == if n ∈ roundedDown then n - 1 else n) = true := by decide +kernel
  exact beq_iff_eq.mp (List.all_eq_true.mp hall n (List.mem_range.mpr (by omega)))

/-- The weight as it is read: a capital `Q` is overlooked, and five weights come out a thousandth lower. -/
def Element.readQ (e : Element) : Nat :=
  e.weight.elim 1000 fun w =>
    if w.upper then 1000
    else if w.value.thousandths ∈ roundedDown then w.value.thousandths - 1 else w.value.thousandths

/-- The coding, where it is named with a weight above zero. -/
def Element.acceptedCoding (e : Element) : Option ContentCoding := if 0 < e.q then e.coding else none

/-! ## Orders -/

/-- A coding with a weight comes before another one, or in the same place. -/
def Ranks (n : Nat) (c : ContentCoding) (n' : Nat) (c' : ContentCoding) : Prop :=
  n' < n ∨ n = n' ∧ negotiable.idxOf c ≤ negotiable.idxOf c'

instance (n : Nat) (c : ContentCoding) (n' : Nat) (c' : ContentCoding) : Decidable (Ranks n c n' c') :=
  inferInstanceAs (Decidable (_ ∨ _))

/-- The coding comes first among the codings that are to be had and that the elements stand for. -/
def Leads (coding : Element → Option ContentCoding) (key : Element → Nat) (elements : List Element)
    (has : ContentCoding → Bool) (c : ContentCoding) : Prop :=
  has c = true ∧ ∃ b ∈ elements, coding b = some c ∧
    ∀ e ∈ elements, ∀ c', coding e = some c' → has c' = true → Ranks (key b) c (key e) c'

/-- First among the accepted codings, by the weights that were sent. -/
def LeadsAsSent : List Element → (ContentCoding → Bool) → ContentCoding → Prop :=
  Leads Element.acceptedCoding Element.q

/-- First among the codings that the server reads, by the weights as it reads them. -/
def LeadsAsRead : List Element → (ContentCoding → Bool) → ContentCoding → Prop := Leads Element.readCoding Element.readQ

def Accepted (elements : List Element) (c : ContentCoding) : Prop := ∃ e ∈ elements, e.acceptedCoding = some c

theorem Element.acceptedCoding_eq_some {e : Element} {c : ContentCoding} :
    e.acceptedCoding = some c ↔ 0 < e.q ∧ e.coding = some c := by
  simp only [Element.acceptedCoding, Option.ite_none_right_eq_some]

theorem Element.acceptedCoding_negotiable {e : Element} {c : ContentCoding} (h : e.acceptedCoding = some c) :
    c ∈ negotiable := by
  have hnamed := (Element.acceptedCoding_eq_some.mp h).2
  unfold Element.coding at hnamed
  exact List.mem_of_find?_eq_some hnamed

theorem Element.readCoding_eq_some {e : Element} {c : ContentCoding} :
    e.readCoding = some c ↔ ContentCoding.fromStr e.name = some c ∧ c ∈ negotiable := by
  simp only [Element.readCoding, Option.filter_eq_some_iff, decide_eq_true_eq]

theorem Element.readCoding_negotiable {e : Element} {c : ContentCoding} (h : e.readCoding = some c) : c ∈ negotiable :=
  (Element.readCoding_eq_some.mp h).2

theorem Ranks.antisymm {n n' : Nat} {c c' : ContentCoding} (hc : c ∈ negotiable) (h : Ranks n c n' c')
    (h' : Ranks n' c' n c) : c = c' := by
  have hidx : negotiable.idxOf c = negotiable.idxOf c' := by
    unfold Ranks at h h'
    omega
  exact (List.idxOf_inj hc).mp hidx

theorem Leads.unique {coding : Element → Option ContentCoding} {key : Element → Nat} {elements : List Element}
    {has : ContentCoding → Bool} {c c' : ContentCoding} (hmem : ∀ {e c}, coding e = some c → c ∈ negotiable)
    (h : Leads coding key elements has c) (h' : Leads coding key elements has c') : c = c' := by
  obtain ⟨hhas, b, hb, hcoding, hfirst⟩ := h
  obtain ⟨hhas', b', hb', hcoding', hfirst'⟩ := h'
  exact (hfirst b' hb' c' hcoding' hhas').antisymm (hmem hcoding) (hfirst' b hb c hcoding hhas)

theorem Leads.exists {coding : Element → Option ContentCoding} {key : Element → Nat} {elements : List Element}
    {has : ContentCoding → Bool} {b : Element} {c : ContentCoding} (hmem : ∀ {e c}, coding e = some c → c ∈ negotiable)
    (hb : b ∈ elements) (hcoding : coding b = some c) (hhas : has c = true) : ∃ c, Leads coding key elements has c := by
  let place : Element × ContentCoding → Nat := fun x => 4 * key x.1 + (3 - negotiable.idxOf x.2)
  let named : Set (Element × ContentCoding) :=
    { x | x.1 ∈ elements ∧ coding x.1 = some x.2 ∧ has x.2 = true }
  have hfinite : named.Finite := by
    refine ((elements.product negotiable).finite_toSet).subset fun x hx => ?_
    exact List.mem_product.mpr ⟨hx.1, hmem hx.2.1⟩
  obtain ⟨⟨b₀, c₀⟩, ⟨hb₀, hcoding₀, hhas₀⟩, hmax⟩ :=
    named.exists_max_image place hfinite ⟨(b, c), hb, hcoding, hhas⟩
  refine ⟨c₀, hhas₀, b₀, hb₀, hcoding₀, fun e he c' hcoding' hhas' => ?_⟩
  have hplace : 4 * key e + (3 - negotiable.idxOf c') ≤ 4 * key b₀ + (3 - negotiable.idxOf c₀) :=
    hmax (e, c') ⟨he, hcoding', hhas'⟩
  have hidx : negotiable.idxOf c₀ < 4 := List.idxOf_lt_length_of_mem (hmem hcoding₀)
  have hidx' : negotiable.idxOf c' < 4 := List.idxOf_lt_length_of_mem (hmem hcoding')
  unfold Ranks
  omega

theorem Leads.congr {coding : Element → Option ContentCoding} {key : Element → Nat} {elements elements' : List Element}
    {has : ContentCoding → Bool} (h : ∀ e, e ∈ elements ↔ e ∈ elements') (c : ContentCoding) :
    Leads coding key elements has c ↔ Leads coding key elements' has c := by
  simp only [Leads, h]

theorem LeadsAsSent.accepted {elements : List Element} {has : ContentCoding → Bool} {c : ContentCoding}
    (h : LeadsAsSent elements has c) : Accepted elements c := by
  obtain ⟨_, b, hb, hcoding, _⟩ := h
  exact ⟨b, hb, hcoding⟩

/-! ## Answers -/

/-- The answer is the accepted coding that comes first, or none where no coding that is to be had is accepted. -/
def Honors (elements : List Element) (has : ContentCoding → Bool) : Option ContentCoding → Prop
  | some c => LeadsAsSent elements has c
  | none => ∀ c, Accepted elements c → has c = false

/-- The coding that comes first is read from the name of an element and is not overtaken in reading. Where no coding
that is to be had is accepted, none is read. -/
structure Undisturbed (elements : List Element) (has : ContentCoding → Bool) : Prop where
  leads : ∀ c, LeadsAsSent elements has c → ∃ b ∈ elements, b.readCoding = some c ∧
    ∀ e ∈ elements, ∀ c', e.readCoding = some c' → has c' = true → Ranks b.readQ c e.readQ c'
  refused : (∀ c, Accepted elements c → has c = false) → ∀ e ∈ elements, ∀ c, e.readCoding = some c → has c = false

end WeaveGate.Static
