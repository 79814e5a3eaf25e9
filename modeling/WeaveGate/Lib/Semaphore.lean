import Mathlib.Data.List.Perm.Basic

/-!
# Counting semaphores

A semaphore hands out permits and takes them back. Permits carry the serial numbers under which they were handed
out, so that one can say which permit came back, and how often.
-/

structure Semaphore where
  available : Nat
  /-- How many permits were handed out so far. -/
  issued : Nat
  /-- The serial numbers of the permits that came back. -/
  returned : List Nat
deriving DecidableEq

namespace Semaphore

def new (n : Nat) : Semaphore := ⟨n, 0, []⟩

/-- A permit, none when all are out. -/
def tryAcquire (s : Semaphore) : Option (Nat × Semaphore) :=
  if s.available = 0 then none else some (s.issued, ⟨s.available - 1, s.issued + 1, s.returned⟩)

def release (s : Semaphore) (permit : Nat) : Semaphore :=
  { s with available := s.available + 1, returned := s.returned ++ [permit] }

/-- With `held` the permits that are out, nothing is lost: what is available and what is held make up `n`, and
every permit handed out is held by one holder or came back once. -/
structure Accounts (n : Nat) (held : List Nat) (s : Semaphore) : Prop where
  total : s.available + held.length = n
  serials : (s.returned ++ held).Perm (List.range s.issued)

variable {n : Nat} {held : List Nat} {s : Semaphore}

theorem Accounts.perm (h : Accounts n held s) {held' : List Nat} (hp : held.Perm held') : Accounts n held' s :=
  ⟨hp.length_eq ▸ h.total, (hp.symm.append_left _).trans h.serials⟩

theorem Accounts.tryAcquire (h : Accounts n held s) {permit : Nat} {s' : Semaphore}
    (ha : s.tryAcquire = some (permit, s')) : Accounts n (permit :: held) s' := by
  unfold Semaphore.tryAcquire at ha
  split at ha
  · cases ha
  · rename_i hpos
    cases ha
    refine ⟨?_, ?_⟩
    · have htotal := h.total
      simp only [List.length_cons]
      omega
    · rw [List.range_succ]
      exact List.perm_middle.trans ((List.Perm.cons _ h.serials).trans (List.perm_append_singleton _ _).symm)

theorem Accounts.release {permit : Nat} (h : Accounts n (permit :: held) s) : Accounts n held (s.release permit) := by
  refine ⟨?_, ?_⟩
  · have htotal := h.total
    simp only [List.length_cons] at htotal
    simp only [Semaphore.release]
    omega
  · simp only [Semaphore.release, List.append_assoc, List.singleton_append]
    exact h.serials

/-- No permit is held twice, or held after it came back, or came back twice. -/
theorem Accounts.nodup (h : Accounts n held s) : (s.returned ++ held).Nodup :=
  h.serials.nodup_iff.mpr List.nodup_range

end Semaphore
