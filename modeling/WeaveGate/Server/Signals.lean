import Mathlib.Logic.Function.Basic
import WeaveGate.Lib.FairLock

/-!
# Waiting for the end

`signals.rs`: the tasks of `wait_for_signals` in servers that share one receiver of the cancel channel, behind a lock.
The sender stays, and no signal arrives.
-/

namespace WeaveGate.Server

/-- How far a task is that waits for the cancel channel. -/
inductive CancelTask where
  | spawned
  /-- It waits for the lock of the receiver. -/
  | locking
  /-- It waits for a value that the receiver has not seen. -/
  | watching
  /-- `changed` has returned. -/
  | changed
  /-- The server has its message, the lock is still held. -/
  | forwarded
  | finished
deriving DecidableEq

/-- `version` counts the values that were sent, `seen` those that the receiver has seen. -/
structure SignalState (n : Nat) where
  version : Nat
  seen : Nat
  cancelRecv : FairLock (Fin n)
  tasks : Fin n → CancelTask
  /-- The message in the channel of a server. -/
  message : Fin n → Bool
  /-- The server has left `wait_for_signals`. -/
  released : Fin n → Bool

variable {n : Nat}

def SignalState.initial (n : Nat) : SignalState n :=
  { version := 0, seen := 0, cancelRecv := .free, tasks := fun _ => .spawned, message := fun _ => false
    released := fun _ => false }

def SignalState.setTask (s : SignalState n) (i : Fin n) (task : CancelTask) : SignalState n :=
  { s with tasks := Function.update s.tasks i task }

inductive SignalStep : SignalState n → SignalState n → Prop where
  | send {s : SignalState n} (unsent : s.version = 0) : SignalStep s { s with version := 1 }
  | lock {s : SignalState n} (i : Fin n) (task : s.tasks i = .spawned) :
      SignalStep s ({ s with cancelRecv := s.cancelRecv.request i }.setTask i .locking)
  | locked {s : SignalState n} (i : Fin n) (task : s.tasks i = .locking) (holder : s.cancelRecv.holder = some i) :
      SignalStep s (s.setTask i .watching)
  | changed {s : SignalState n} (i : Fin n) (task : s.tasks i = .watching) (unseen : s.seen ≠ s.version) :
      SignalStep s ({ s with seen := s.version }.setTask i .changed)
  | forward {s : SignalState n} (i : Fin n) (task : s.tasks i = .changed) :
      SignalStep s ({ s with message := Function.update s.message i true }.setTask i .forwarded)
  | unlock {s : SignalState n} (i : Fin n) (task : s.tasks i = .forwarded) :
      SignalStep s ({ s with cancelRecv := s.cancelRecv.release }.setTask i .finished)
  | receive {s : SignalState n} (i : Fin n) (message : s.message i = true) (waiting : s.released i = false) :
      SignalStep s { s with released := Function.update s.released i true }

end WeaveGate.Server
