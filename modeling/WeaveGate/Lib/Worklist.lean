import Mathlib.Data.List.Forall2
import Mathlib.Logic.Function.Iterate

/-!
# Working off a stack

A loop takes an item off a stack, visits it, pushes what the visit finds and writes what it produces. The loop
stops when the stack is empty or a visit fails.
-/

namespace Worklist

variable {ε α β : Type}

structure State (α β : Type) where
  stack : List α
  written : List β
  done : Bool

def start (item : α) : State α β := { stack := [item], written := [], done := false }

/-- One turn of the loop. A failed visit leaves nothing to do. -/
def step (visit : α → Except ε (List α × List β)) (s : State α β) : State α β :=
  match s.stack with
  | [] => { s with done := true }
  | p :: stack =>
      match visit p with
      | .ok (pushed, written) => { s with stack := pushed ++ stack, written := s.written ++ written }
      | .error _ => { stack := [], written := s.written, done := true }

def run (visit : α → Except ε (List α × List β)) (n : Nat) (s : State α β) : State α β := (step visit)^[n] s

def All (P : α → Prop) (Q : β → Prop) (s : State α β) : Prop := (∀ p ∈ s.stack, P p) ∧ ∀ e ∈ s.written, Q e

variable {visit : α → Except ε (List α × List β)} {P C : α → Prop} {Q : β → Prop} {s : State α β}

theorem All.start {item : α} (h : P item) : All P Q (Worklist.start item) :=
  ⟨by simpa [Worklist.start] using h, by simp [Worklist.start]⟩

theorem All.step (hvisit : ∀ p pushed written, visit p = .ok (pushed, written) → P p → C p →
      (∀ q ∈ pushed, P q) ∧ ∀ e ∈ written, Q e)
    (h : All P Q s) (htop : ∀ p, s.stack.head? = some p → C p) : All P Q (step visit s) := by
  obtain ⟨stack, out, done⟩ := s
  obtain ⟨hstack, hwritten⟩ := h
  cases stack with
  | nil => exact ⟨hstack, hwritten⟩
  | cons p stack =>
      unfold Worklist.step
      dsimp only
      split
      · rename_i pushed written hp
        obtain ⟨hpushed, hout⟩ := hvisit p pushed written hp (hstack p List.mem_cons_self) (htop p rfl)
        constructor
        · intro q hq
          rcases List.mem_append.mp hq with hq | hq
          · exact hpushed q hq
          · exact hstack q (List.mem_cons_of_mem _ hq)
        · intro e he
          rcases List.mem_append.mp he with he | he
          · exact hwritten e he
          · exact hout e he
      · exact ⟨by simp, hwritten⟩

/-- What every visit keeps, under a condition on its item, holds after any number of turns that meet it. -/
theorem All.run (hvisit : ∀ p pushed written, visit p = .ok (pushed, written) → P p → C p →
      (∀ q ∈ pushed, P q) ∧ ∀ e ∈ written, Q e)
    (h : All P Q s) (n : Nat) (htop : ∀ k < n, ∀ p, (run visit k s).stack.head? = some p → C p) :
    All P Q (run visit n s) := by
  induction n with
  | zero => exact h
  | succ n ih =>
      rw [Worklist.run, Function.iterate_succ_apply']
      exact (ih fun k hk => htop k (Nat.lt_succ_of_lt hk)).step hvisit (htop n (Nat.lt_succ_self n))

/-- Visits that agree on the items that come up make the same run. -/
theorem run_congr {visit' : α → Except ε (List α × List β)} (hvisits : ∀ p, P p → visit' p = visit p)
    (hpushed : ∀ p pushed written, visit p = .ok (pushed, written) → P p → ∀ q ∈ pushed, P q)
    (h : ∀ p ∈ s.stack, P p) (n : Nat) : run visit' n s = run visit n s := by
  induction n generalizing s with
  | zero => rfl
  | succ n ih =>
      have hstep : step visit' s = step visit s := by
        unfold step
        cases hstack : s.stack with
        | nil => rfl
        | cons p stack =>
            dsimp only
            rw [hvisits p (h p (by rw [hstack]; exact List.mem_cons_self))]
      have hall : All P (fun _ => True) (step visit s) :=
        All.step (fun p pushed written hp hP _ => ⟨hpushed p pushed written hp hP, fun _ _ => trivial⟩)
          ⟨h, fun _ _ => trivial⟩ (fun _ _ => trivial)
      rw [run, run, Function.iterate_succ_apply, Function.iterate_succ_apply, hstep]
      exact ih hall.1

/-! ## Working off an item -/

/-- No visit of the run fails. -/
def Succeeds (visit : α → Except ε (List α × List β)) (s : State α β) : Prop :=
  ∀ n p, (run visit n s).stack.head? = some p → ∃ r, visit p = .ok r

theorem run_add (m n : Nat) (s : State α β) : run visit (m + n) s = run visit m (run visit n s) :=
  Function.iterate_add_apply _ _ _ _

theorem run_done (written : List β) (n : Nat) :
    run visit n (⟨[], written, true⟩ : State α β) = ⟨[], written, true⟩ :=
  Function.iterate_fixed rfl n

theorem Succeeds.run (h : Succeeds visit s) (n : Nat) : Succeeds visit (run visit n s) := by
  intro m p hp
  rw [← run_add] at hp
  exact h _ p hp

/-- What is pushed is worked off before the rest of the stack. Where every visit leads to items of lower rank, this comes
to an end, and what an item makes of what the items make that it leads to describes the whole of it. -/
theorem work_off {ω : Type} {r : ω → ω → Prop} (wf : WellFounded r) (rank : α → ω) {P : α → Prop}
    {D : α → List β → Prop}
    (hvisit : ∀ p pushed written, visit p = .ok (pushed, written) → P p →
      (∀ q ∈ pushed, P q ∧ r (rank q) (rank p)) ∧
        ∀ outs, List.Forall₂ D pushed outs → D p (written ++ outs.flatten))
    {p : α} (hp : P p) {stack : List α} {written : List β} {done : Bool}
    (hok : Succeeds visit ⟨p :: stack, written, done⟩) :
    ∃ n out, run visit n ⟨p :: stack, written, done⟩ = ⟨stack, written ++ out, done⟩ ∧ D p out := by
  induction hrank : rank p using wf.induction generalizing p stack written with
  | _ k ih =>
      obtain ⟨⟨pushed, made⟩, hmade⟩ := hok 0 p rfl
      obtain ⟨hpushed, hdescribes⟩ := hvisit p pushed made hmade hp
      have hstep : run visit 1 ⟨p :: stack, written, done⟩ = ⟨pushed ++ stack, written ++ made, done⟩ := by
        rw [run, Function.iterate_one, step]
        dsimp only
        rw [hmade]
      -- the items pushed, from the top
      have hall : ∀ (qs : List α) (written : List β), (∀ q ∈ qs, P q ∧ r (rank q) k) →
          Succeeds visit ⟨qs ++ stack, written, done⟩ →
          ∃ n outs, run visit n ⟨qs ++ stack, written, done⟩ = ⟨stack, written ++ outs.flatten, done⟩ ∧
            List.Forall₂ D qs outs := by
        intro qs
        induction qs with
        | nil => exact fun written _ _ => ⟨0, [], by simp [run], .nil⟩
        | cons q qs ihqs =>
            intro written hqs hqok
            obtain ⟨⟨hq, hlt⟩, hqs⟩ := List.forall_mem_cons.mp hqs
            have hqok : Succeeds visit ⟨q :: (qs ++ stack), written, done⟩ := hqok
            obtain ⟨n, out, hrun, hD⟩ := ih _ hlt hq hqok rfl
            have hrest := hqok.run n
            rw [hrun] at hrest
            rw [List.cons_append]
            obtain ⟨m, outs, hrun', hDs⟩ := ihqs (written ++ out) hqs hrest
            refine ⟨m + n, out :: outs, ?_, .cons hD hDs⟩
            rw [run_add, hrun, hrun', List.flatten_cons, List.append_assoc]
      have hok' := hok.run 1
      rw [hstep] at hok'
      obtain ⟨n, outs, hrun, hDs⟩ := hall pushed (written ++ made) (hrank ▸ hpushed) hok'
      refine ⟨n + 1, made ++ outs.flatten, ?_, hdescribes outs hDs⟩
      rw [run_add, hstep, hrun, List.append_assoc]

/-! ## Runs that end -/

/-- A run of lower and lower items ends, if only in a visit that fails. -/
theorem exists_done {ω : Type} {r : ω → ω → Prop} (wf : WellFounded r) (rank : α → ω) {P : α → Prop}
    (hvisit : ∀ p pushed written, visit p = .ok (pushed, written) → P p → ∀ q ∈ pushed, P q ∧ r (rank q) (rank p))
    {p : α} (hp : P p) : ∃ n, (run visit n (start p)).done = true := by
  by_cases hok : Succeeds visit (start p)
  · obtain ⟨n, out, hrun, _⟩ := work_off (D := fun _ _ => True) wf rank
      (fun p pushed written h hp => ⟨hvisit p pushed written h hp, fun _ _ => trivial⟩) hp hok
    refine ⟨1 + n, ?_⟩
    rw [run_add, start, hrun]
    rfl
  · simp only [Succeeds, not_forall] at hok
    obtain ⟨n, q, hq, hfail⟩ := hok
    refine ⟨1 + n, ?_⟩
    rw [run_add]
    obtain ⟨stack, hstack⟩ : ∃ stack, (run visit n (start p)).stack = q :: stack := by
      cases hcases : (run visit n (start p)).stack with
      | nil => rw [hcases] at hq; cases hq
      | cons q' stack => rw [hcases] at hq; cases hq; exact ⟨stack, rfl⟩
    cases hvisited : visit q with
    | ok r => exact absurd ⟨r, hvisited⟩ hfail
    | error e =>
        show (step visit _).done = true
        rw [step, hstack]
        dsimp only
        rw [hvisited]

/-- From `p` the loop comes `n` items down, each pushed by the one before. -/
def LeadsDown (visit : α → Except ε (List α × List β)) : Nat → α → Prop
  | 0, _ => True
  | n + 1, p => ∃ pushed written, visit p = .ok (pushed, written) ∧ ∃ q ∈ pushed, LeadsDown visit n q

theorem LeadsDown.pred {n : Nat} {p : α} (h : LeadsDown visit (n + 1) p) : LeadsDown visit n p := by
  induction n generalizing p with
  | zero => trivial
  | succ n ih =>
      obtain ⟨pushed, written, hvisited, q, hq, hdown⟩ := h
      exact ⟨pushed, written, hvisited, q, hq, ih hdown⟩

/-- The loop is not done before it has come as far down as its items lead. -/
theorem done_eq_false {P : α → Prop}
    (hvisit : ∀ p, P p → ∃ pushed written, visit p = .ok (pushed, written) ∧ ∀ q ∈ pushed, P q) {n : Nat} {p : α}
    (hdown : LeadsDown visit n p) (hmem : p ∈ s.stack) (hall : ∀ q ∈ s.stack, P q) (hdone : s.done = false) :
    (run visit n s).done = false := by
  induction n generalizing p s with
  | zero => exact hdone
  | succ n ih =>
      obtain ⟨stack, written, done⟩ := s
      cases stack with
      | nil => cases hmem
      | cons top stack =>
          obtain ⟨htop, hstack⟩ := List.forall_mem_cons.mp hall
          obtain ⟨pushed, made, hmade, hpushed⟩ := hvisit top htop
          have hstep : run visit 1 ⟨top :: stack, written, done⟩ = ⟨pushed ++ stack, written ++ made, done⟩ := by
            rw [run, Function.iterate_one, step]
            dsimp only
            rw [hmade]
          have hnext : ∃ q ∈ pushed ++ stack, LeadsDown visit n q := by
            rcases List.mem_cons.mp hmem with rfl | hmem
            · obtain ⟨pushed', written', hvisited, q, hq, hdown⟩ := hdown
              rw [hmade] at hvisited
              cases hvisited
              exact ⟨q, List.mem_append_left _ hq, hdown⟩
            · exact ⟨p, List.mem_append_right _ hmem, hdown.pred⟩
          obtain ⟨q, hq, hdown⟩ := hnext
          rw [run_add, hstep]
          exact ih hdown hq (List.forall_mem_append.mpr ⟨hpushed, hstack⟩) hdone

end Worklist
