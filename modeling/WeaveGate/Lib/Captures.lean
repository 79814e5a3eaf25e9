import WeaveGate.Lib.Regexp

/-!
# What groups take

How an expression takes a word, with what its numbered groups take of it. Groups are numbered by their opening
brackets.
-/

namespace Regexp

/-- What the groups took, one after the other, none when a group took no part. -/
abbrev Taken := List (Option (List Nat))

def groups : Regexp → Nat
  | star r | opt r => r.groups
  | seq a b | alt a b => a.groups + b.groups
  | group capturing r => (if capturing then 1 else 0) + r.groups
  | _ => 0

def unused (n : Nat) : Taken := List.replicate n none

/-- What a group takes in a later round replaces what it took before. -/
def overriding (earlier later : Taken) : Taken := List.zipWith (fun e l => l.or e) earlier later

inductive Takes (any : Nat → Prop) : Regexp → List Nat → Taken → Prop where
  | empty : Takes any empty [] []
  | unit (u : Nat) : Takes any (unit u) [u] []
  | dot {x : Nat} (h : any x) : Takes any dot [x] []
  | cls {negated : Bool} {members : List Member} {x : Nat} (h : (∃ m ∈ members, m.Has x) ↔ negated = false) :
      Takes any (cls negated members) [x] []
  | starNil (r : Regexp) : Takes any (star r) [] (unused r.groups)
  | starCons {r : Regexp} {w w' : List Nat} {caps caps' : Taken} (h : Takes any r w caps)
      (h' : Takes any (star r) w' caps') : Takes any (star r) (w ++ w') (overriding caps caps')
  | optNone (r : Regexp) : Takes any (opt r) [] (unused r.groups)
  | optSome {r : Regexp} {w : List Nat} {caps : Taken} (h : Takes any r w caps) : Takes any (opt r) w caps
  | seq {a b : Regexp} {w w' : List Nat} {caps caps' : Taken} (h : Takes any a w caps) (h' : Takes any b w' caps') :
      Takes any (seq a b) (w ++ w') (caps ++ caps')
  | altLeft {a : Regexp} (b : Regexp) {w : List Nat} {caps : Taken} (h : Takes any a w caps) :
      Takes any (alt a b) w (caps ++ unused b.groups)
  | altRight (a : Regexp) {b : Regexp} {w : List Nat} {caps : Taken} (h : Takes any b w caps) :
      Takes any (alt a b) w (unused a.groups ++ caps)
  | numbered {r : Regexp} {w : List Nat} {caps : Taken} (h : Takes any r w caps) :
      Takes any (group true r) w (some w :: caps)
  | plain {r : Regexp} {w : List Nat} {caps : Taken} (h : Takes any r w caps) : Takes any (group false r) w caps

@[simp] theorem length_unused (n : Nat) : (unused n).length = n := List.length_replicate

@[simp] theorem unused_zero : unused 0 = [] := rfl

/-- Every group is accounted for. -/
theorem Takes.length {any : Nat → Prop} {r : Regexp} {w : List Nat} {caps : Taken} (h : Takes any r w caps) :
    caps.length = r.groups := by
  induction h with
  | empty | unit | dot | cls => rfl
  | starNil r => exact length_unused _
  | starCons _ _ ih ih' =>
      rw [overriding, List.length_zipWith, ih, ih', groups, Nat.min_self]
  | optNone r => exact length_unused _
  | optSome _ ih => exact ih
  | seq _ _ ih ih' => rw [List.length_append, ih, ih', groups]
  | altLeft b _ ih => rw [List.length_append, ih, length_unused, groups]
  | altRight a _ ih => rw [List.length_append, ih, length_unused, groups]
  | numbered _ ih => rw [List.length_cons, ih, groups, if_pos rfl, Nat.add_comm]
  | plain _ ih => rw [ih, groups, if_neg (by decide), Nat.zero_add]

/-! ## Repetitions without groups -/

/-- A repetition of single units. -/
theorem takes_star {any : Nat → Prop} {r : Regexp} {P : Nat → Prop} (hgroups : r.groups = 0)
    (hunit : ∀ {w caps}, Takes any r w caps → ∃ x, w = [x] ∧ P x) {w : List Nat} {caps : Taken}
    (h : Takes any (star r) w caps) : caps = [] ∧ ∀ x ∈ w, P x := by
  refine ⟨List.eq_nil_of_length_eq_zero (h.length.trans hgroups), ?_⟩
  generalize hstar : star r = s at h
  induction h with
  | starNil => simp
  | starCons hfirst _ _ ih =>
      cases hstar
      obtain ⟨x, rfl, hx⟩ := hunit hfirst
      exact List.forall_mem_cons.mpr ⟨hx, ih rfl⟩
  | _ => cases hstar

end Regexp
