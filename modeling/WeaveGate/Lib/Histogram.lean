import Mathlib.Data.List.Basic
import Mathlib.Order.Lattice

/-!
# Histograms

A histogram has a bucket for each of its bounds. What is observed goes into the first bucket whose bound it does not
exceed, and into none when it exceeds them all. Read cumulatively, a bucket counts what was observed up to its bound.
-/

namespace Histogram

variable {τ : Type} [LinearOrder τ]

def observe : List τ → τ → List Nat → List Nat
  | bound :: bounds, v, n :: buckets => if v ≤ bound then (n + 1) :: buckets else n :: observe bounds v buckets
  | _, _, buckets => buckets

/-- Each bucket with all before it, and with what came before the first. -/
def cumulative (before : Nat) : List Nat → List Nat
  | [] => []
  | n :: buckets => (before + n) :: cumulative (before + n) buckets

theorem cumulative_succ (before : Nat) (buckets : List Nat) :
    cumulative (before + 1) buckets = (cumulative before buckets).map (· + 1) := by
  induction buckets generalizing before with
  | nil => rfl
  | cons n buckets ih =>
      have hn : before + 1 + n = before + n + 1 := by omega
      rw [cumulative, hn, ih, cumulative, List.map_cons]

/-- In the cumulative reading an observation counts in every bucket whose bound it does not exceed. -/
theorem cumulative_observe {bounds : List τ} (sorted : bounds.Pairwise (· ≤ ·)) {v : τ} {f : τ → Nat} {before : Nat}
    {buckets : List Nat} (h : cumulative before buckets = bounds.map f) :
    cumulative before (observe bounds v buckets) = bounds.map fun bound => f bound + (decide (v ≤ bound)).toNat := by
  induction bounds generalizing before buckets with
  | nil =>
      cases buckets with
      | nil => rfl
      | cons n buckets => simp [cumulative] at h
  | cons bound bounds ih =>
      cases buckets with
      | nil => simp [cumulative] at h
      | cons n buckets =>
          rw [List.pairwise_cons] at sorted
          simp only [cumulative, List.map_cons, List.cons.injEq] at h
          obtain ⟨hn, hrest⟩ := h
          by_cases hv : v ≤ bound
          · have hall : ∀ b ∈ bounds, f b + (decide (v ≤ b)).toNat = f b + 1 := by
              intro b hb
              simp [le_trans hv (sorted.1 b hb)]
            simp only [observe, if_pos hv, cumulative, List.map_cons, ← Nat.add_assoc]
            rw [cumulative_succ, hrest, List.map_map, hn, List.map_congr_left hall]
            simp [hv]
          · simp only [observe, if_neg hv, cumulative, List.map_cons, hn]
            rw [hn] at hrest
            rw [ih sorted.2 hrest]
            simp [hv]

end Histogram
