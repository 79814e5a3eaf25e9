import Mathlib.Data.List.Basic

/-!
# Runs of a state machine

A machine takes one event at a time. A run is the list of its events, each with the state it met.
-/

namespace Run

variable {σ α : Type} (step : σ → α → σ)

def final (s : σ) (events : List α) : σ := events.foldl step s

/-- Every event with the state before it. -/
def trace : σ → List α → List (σ × α)
  | _, [] => []
  | s, a :: as => (s, a) :: trace (step s a) as

variable {step}

/-- What holds at first and is kept by every step that meets the condition holds before every step and at the
end, when all steps meet the condition. -/
theorem invariant {I : σ → Prop} {C : σ → α → Prop} (keep : ∀ s a, I s → C s a → I (step s a)) {s : σ}
    {events : List α} (h : I s) (hc : ∀ e ∈ trace step s events, C e.1 e.2) :
    (∀ e ∈ trace step s events, I e.1) ∧ I (final step s events) := by
  induction events generalizing s with
  | nil => exact ⟨by simp [trace], h⟩
  | cons a as ih =>
      simp only [trace, List.forall_mem_cons] at hc ⊢
      obtain ⟨hrest, hfinal⟩ := ih (keep s a h hc.1) hc.2
      exact ⟨⟨h, hrest⟩, hfinal⟩

theorem final_append (s : σ) (as bs : List α) : final step s (as ++ bs) = final step (final step s as) bs :=
  List.foldl_append

theorem trace_append (s : σ) (as bs : List α) :
    trace step s (as ++ bs) = trace step s as ++ trace step (final step s as) bs := by
  induction as generalizing s with
  | nil => rfl
  | cons a as ih => exact congrArg _ (ih _)

/-- Every event of a run stands between those before it and those after it. -/
theorem exists_append_of_mem_trace {s : σ} {events : List α} {e : σ × α} (h : e ∈ trace step s events) :
    ∃ before after, events = before ++ e.2 :: after ∧ e.1 = final step s before := by
  induction events generalizing s with
  | nil => cases h
  | cons a as ih =>
      rcases List.mem_cons.mp h with rfl | h
      · exact ⟨[], as, rfl, rfl⟩
      · obtain ⟨before, after, rfl, hfinal⟩ := ih h
        exact ⟨a :: before, after, rfl, hfinal⟩

/-- When each event that counts raises what never falls, the run raises it by as many. -/
theorem countP_trace_add_le {p : σ × α → Bool} {f : σ → Nat} (hstep : ∀ s a, (p (s, a)).toNat + f s ≤ f (step s a))
    (s : σ) (events : List α) : (trace step s events).countP p + f s ≤ f (final step s events) := by
  induction events generalizing s with
  | nil => simp [trace, final]
  | cons a as ih =>
      have hrest := ih (step s a)
      have hfirst := hstep s a
      rw [trace, List.countP_cons]
      change _ ≤ f (final step (step s a) as)
      cases hp : p (s, a) with
      | false =>
          rw [hp] at hfirst
          simp only [Bool.toNat_false, Bool.false_eq_true, if_false] at hfirst ⊢
          omega
      | true =>
          rw [hp] at hfirst
          simp only [Bool.toNat_true, if_true] at hfirst ⊢
          omega

/-! ## Endless runs -/

variable (step) in
/-- The state that the `i`th event of an endless run meets. -/
def stateAt (s : σ) (events : Nat → α) : Nat → σ
  | 0 => s
  | i + 1 => step (stateAt s events i) (events i)

theorem stateAt_succ (s : σ) (events : Nat → α) (i : Nat) :
    stateAt step s events (i + 1) = stateAt step (step s (events 0)) (fun i => events (i + 1)) i := by
  induction i with
  | zero => rfl
  | succ i ih => exact congrArg (step · (events (i + 1))) ih

theorem invariant_stateAt {I : σ → Prop} (keep : ∀ s a, I s → I (step s a)) {s : σ} (h : I s) (events : Nat → α)
    (i : Nat) : I (stateAt step s events i) := by
  induction i with
  | zero => exact h
  | succ i ih => exact keep _ _ ih

end Run
