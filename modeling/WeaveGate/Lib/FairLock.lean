import Mathlib.Data.List.Nodup

/-!
# Locks that are handed on in order

A lock has a holder and a queue. Whoever asks for it comes to the end of the queue, unless the lock is free. It is
handed on to the first in the queue.
-/

structure FairLock (ι : Type) where
  holder : Option ι
  queue : List ι
  handed : holder = none → queue = []

namespace FairLock

variable {ι : Type}

def free : FairLock ι := ⟨none, [], fun _ => rfl⟩

def request (l : FairLock ι) (i : ι) : FairLock ι :=
  match l.holder with
  | none => ⟨some i, [], fun h => by cases h⟩
  | some j => ⟨some j, l.queue ++ [i], fun h => by cases h⟩

def release (l : FairLock ι) : FairLock ι :=
  match l.queue with
  | [] => free
  | i :: rest => ⟨some i, rest, fun h => by cases h⟩

/-- Everybody who holds the lock or waits for it, in order. -/
def line (l : FairLock ι) : List ι := l.holder.toList ++ l.queue

@[simp] theorem line_free : (free : FairLock ι).line = [] := rfl

theorem line_request (l : FairLock ι) (i : ι) : (l.request i).line = l.line ++ [i] := by
  unfold request line
  cases h : l.holder with
  | none => simp [l.handed h]
  | some j => simp

theorem line_release (l : FairLock ι) : l.release.line = l.line.tail := by
  unfold release line
  cases hholder : l.holder with
  | none => simp [l.handed hholder, free]
  | some j => cases l.queue <;> rfl

theorem holder_eq (l : FairLock ι) : l.holder = l.line.head? := by
  unfold line
  cases h : l.holder with
  | none => simp [l.handed h]
  | some j => rfl

/-! ## Those whom it serves -/

/-- The line is made of those of whom `P` holds, each once. -/
structure Serves (l : FairLock ι) (P : ι → Prop) : Prop where
  nodup : l.line.Nodup
  mem : ∀ i, i ∈ l.line ↔ P i

variable {l : FairLock ι} {P Q : ι → Prop} {i : ι}

theorem serves_free (h : ∀ i, ¬ P i) : (free : FairLock ι).Serves P :=
  ⟨List.nodup_nil, fun i => by simp [h i]⟩

theorem Serves.congr (h : l.Serves P) (hPQ : ∀ i, Q i ↔ P i) : l.Serves Q :=
  ⟨h.nodup, fun i => (h.mem i).trans (hPQ i).symm⟩

theorem Serves.request (h : l.Serves P) (hi : ¬ P i) (hQ : ∀ j, Q j ↔ P j ∨ j = i) : (l.request i).Serves Q := by
  refine ⟨?_, fun j => ?_⟩
  · rw [line_request]
    refine List.nodup_append.mpr ⟨h.nodup, List.nodup_singleton i, fun j hj k hk hjk => hi ?_⟩
    rw [← List.mem_singleton.mp hk, ← hjk]
    exact (h.mem j).mp hj
  · rw [line_request, List.mem_append, List.mem_singleton, h.mem, hQ]

theorem Serves.release (h : l.Serves P) (hi : l.holder = some i) (hQ : ∀ j, Q j ↔ P j ∧ j ≠ i) :
    l.release.Serves Q := by
  obtain ⟨rest, hline⟩ : ∃ rest, l.line = i :: rest := by
    rw [holder_eq] at hi
    exact List.head?_eq_some_iff.mp hi
  have hrelease : l.release.line = rest := by rw [line_release, hline, List.tail_cons]
  have hnodup := h.nodup
  rw [hline, List.nodup_cons] at hnodup
  refine ⟨by rw [hrelease]; exact hnodup.2, fun j => ?_⟩
  have hj := h.mem j
  rw [hline, List.mem_cons] at hj
  rw [hrelease, hQ, ← hj]
  constructor
  · intro hmem
    exact ⟨.inr hmem, fun h => hnodup.1 (h ▸ hmem)⟩
  · rintro ⟨hmem | hmem, hne⟩
    · exact absurd hmem hne
    · exact hmem

theorem Serves.exists_holder (h : l.Serves P) (hi : P i) : ∃ j, l.holder = some j ∧ P j := by
  obtain ⟨j, rest, hline⟩ := List.exists_cons_of_ne_nil (List.ne_nil_of_mem ((h.mem i).mpr hi))
  refine ⟨j, by rw [holder_eq, hline]; rfl, ?_⟩
  rw [← h.mem, hline]
  exact List.mem_cons_self

theorem Serves.of_holder (h : l.Serves P) (hi : l.holder = some i) : P i := by
  rw [← h.mem]
  rw [holder_eq] at hi
  exact List.mem_of_mem_head? hi

/-- Whoever holds the lock still does when another asks for it. -/
theorem holder_request (h : l.holder = some i) (j : ι) : (l.request j).holder = some i := by
  unfold FairLock.request
  rw [h]

end FairLock
