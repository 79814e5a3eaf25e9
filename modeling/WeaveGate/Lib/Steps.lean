import Mathlib.Algebra.GroupWithZero.Nat
import Mathlib.Logic.Relation
import Mathlib.Order.WellFounded

/-!
# Systems that take steps

A system may take any of its steps from a state, and is stuck where there is none. When every step lowers a measure,
each run can only end in a state where the system is stuck.
-/

namespace Steps

section

variable {σ : Type} (step : σ → σ → Prop)

abbrev Reaches : σ → σ → Prop := Relation.ReflTransGen step

def Stuck (s : σ) : Prop := ∀ s', ¬ step s s'

variable {step}

theorem invariant {I : σ → Prop} (keep : ∀ s s', step s s' → I s → I s') {s s' : σ} (hr : Reaches step s s')
    (h : I s) : I s' := by
  induction hr with
  | refl => exact h
  | tail _ hstep ih => exact keep _ _ hstep ih

theorem exists_stuck (measure : σ → Nat) (lower : ∀ s s', step s s' → measure s' < measure s) (s : σ) :
    ∃ s', Reaches step s s' ∧ Stuck step s' := by
  by_cases h : Stuck step s
  · exact ⟨s, .refl, h⟩
  · simp only [Stuck, not_forall, not_not] at h
    obtain ⟨next, hstep⟩ := h
    obtain ⟨s', hreaches, hstuck⟩ := exists_stuck measure lower next
    exact ⟨s', .head hstep hreaches, hstuck⟩
termination_by measure s
decreasing_by exact lower _ _ hstep

end

/-! ## Parties in a list -/

variable {α : Type} {l : List α} {k : Nat} {a : α}

/-- One party changes, and its part of the sum with it. -/
theorem sum_set_add (f : α → Nat) (h : l[k]? = some a) (b : α) :
    ((l.set k b).map f).sum + f a = (l.map f).sum + f b := by
  induction l generalizing k with
  | nil => simp at h
  | cons c l ih =>
      cases k with
      | zero =>
          simp only [List.getElem?_cons_zero, Option.some.injEq] at h
          rw [List.set_cons_zero, List.map_cons, List.map_cons, List.sum_cons, List.sum_cons, h]
          omega
      | succ k =>
          rw [List.getElem?_cons_succ] at h
          rw [List.set_cons_succ, List.map_cons, List.map_cons, List.sum_cons, List.sum_cons]
          have := ih h
          omega

theorem countP_eq_sum (p : α → Bool) (l : List α) : l.countP p = (l.map fun a => (p a).toNat).sum := by
  induction l with
  | nil => rfl
  | cons a l ih =>
      rw [List.countP_cons, List.map_cons, List.sum_cons, ih]
      cases p a <;> simp [Nat.add_comm]

theorem countP_set_add (p : α → Bool) (h : l[k]? = some a) (b : α) :
    (l.set k b).countP p + (p a).toNat = l.countP p + (p b).toNat := by
  rw [countP_eq_sum, countP_eq_sum]
  exact sum_set_add (fun a => (p a).toNat) h b

end Steps
