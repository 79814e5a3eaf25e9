import Mathlib.Data.List.Basic

/-!
# A channel between two tasks

One task sends, and the other one reads until it goes away. A sender that finds no room is woken when there is some.
Whatever the sender finds, it is woken when the reader goes away.
-/

/-- What the reader keeps as long as it is there. -/
structure Channel.Reader (α : Type) where
  queue : List α
  /-- The sender asked to be woken when a message is taken. -/
  registered : Bool
  /-- The sender asked to be woken when the reader goes away. -/
  watched : Bool

structure Channel (α : Type) where
  reader : Option (Channel.Reader α)
  /-- The sender has been woken, and has not run since. -/
  notified : Bool

namespace Channel

variable {α : Type}

inductive Readiness where
  | ready
  | closed
  | pending
deriving DecidableEq

def empty : Channel α := ⟨some ⟨[], false, false⟩, false⟩

def gone (c : Channel α) : Bool := c.reader.isNone

def queue (c : Channel α) : List α := c.reader.elim [] Reader.queue

/-- A wake-up of the sender is registered or pending. -/
def willWake (c : Channel α) : Bool := c.notified || c.reader.any fun r => r.registered || r.watched

/-- `buffer` messages may wait when one is sent. -/
def hasRoom (buffer : Nat) (c : Channel α) : Bool := c.reader.any fun r => r.queue.length ≤ buffer

/-- Every check watches the reader, and one that finds no room waits for some. -/
def register (full : Bool) (c : Channel α) : Channel α :=
  { c with reader := c.reader.map fun r => { r with registered := r.registered || full, watched := true } }

def pollReady (buffer : Nat) (c : Channel α) : Readiness × Channel α :=
  if c.gone then (.closed, c)
  else if c.hasRoom buffer then (.ready, c.register false)
  else (.pending, c.register true)

def trySend (buffer : Nat) (a : α) (c : Channel α) : Bool × Channel α :=
  if c.hasRoom buffer then (true, { c with reader := c.reader.map fun r => { r with queue := r.queue ++ [a] } })
  else (false, c)

/-- The reader takes a message, and wakes the sender. -/
def next (c : Channel α) : Option α × Channel α :=
  match c.reader with
  | some ⟨a :: queue, registered, watched⟩ => (some a, ⟨some ⟨queue, false, watched⟩, c.notified || registered⟩)
  | _ => (none, c)

/-- The reader goes away, and what it has not read goes with it. -/
def close (c : Channel α) : Channel α := ⟨none, c.willWake⟩

def takeWakeup (c : Channel α) : Channel α := { c with notified := false }

/-! ## Messages -/

theorem willWake_register {c : Channel α} (full : Bool) (h : c.gone = false) : (c.register full).willWake = true := by
  rcases c with ⟨reader, notified⟩
  cases reader with
  | none => cases h
  | some r => simp [register, willWake]

/-- A check that does not find the reader gone leaves a wake-up for when it goes. -/
theorem willWake_pollReady {buffer : Nat} {c : Channel α} (h : (c.pollReady buffer).1 ≠ .closed) :
    (c.pollReady buffer).2.willWake = true := by
  unfold pollReady at h ⊢
  split at h
  · exact absurd rfl h
  · rename_i hthere
    have hregistered := fun full => willWake_register full (Bool.eq_false_iff.mpr hthere)
    rw [if_neg hthere]
    split
    · exact hregistered false
    · exact hregistered true

@[simp] theorem willWake_trySend (buffer : Nat) (a : α) (c : Channel α) : (c.trySend buffer a).2.willWake = c.willWake := by
  rcases c with ⟨reader, notified⟩
  unfold trySend
  split
  · cases reader <;> rfl
  · rfl

@[simp] theorem willWake_next (c : Channel α) : c.next.2.willWake = c.willWake := by
  rcases c with ⟨_ | ⟨_ | ⟨a, queue⟩, registered, watched⟩, notified⟩
  · rfl
  · rfl
  · simp [next, willWake, Bool.or_assoc]

@[simp] theorem willWake_close (c : Channel α) : c.close.willWake = c.willWake := by simp [close, willWake]

end Channel
