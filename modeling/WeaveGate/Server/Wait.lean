import WeaveGate.Server.Signals

/-!
# Waiting for a signal

`signals.rs`: the servers of one process in `wait_for_signals`, each with the two tasks that it spawns and with its
channel of one place. Signals arrive, the cancel channel is sent values, and its sender is dropped.
-/

namespace WeaveGate.Server

/-- The signals of `create_signals`. -/
inductive Signal where
  | hup
  | term
  | int
  | quit
deriving DecidableEq

def Signal.terminates : Signal → Bool
  | .hup => false
  | .term | .int | .quit => true

/-- How far the task is that listens to signals. -/
inductive SignalTask where
  | listening
  /-- It has a message for the server. -/
  | caught
  | finished
deriving DecidableEq

def SignalTask.next (signal : Signal) : SignalTask := if signal.terminates then .caught else .listening

inductive Phase where
  | waiting
  /-- The grace period has started. -/
  | delaying
  | left
deriving DecidableEq

/-- A server in `wait_for_signals`. -/
structure Waiting where
  /-- The signals that its stream has not returned. A signal that arrives twice is there once. -/
  pending : List Signal
  signals : SignalTask
  cancel : CancelTask
  /-- There is a message in its channel. -/
  queue : Bool
  phase : Phase

def Waiting.initial : Waiting :=
  { pending := [], signals := .listening, cancel := .spawned, queue := false, phase := .waiting }

/-- A message can be sent. The receiver is gone where the server has left. -/
def Waiting.HasRoom (w : Waiting) : Prop := w.phase = .left ∨ w.queue = false

def Waiting.send (w : Waiting) : Waiting := if w.phase = .left then w else { w with queue := true }

/-- The servers, and what they share. -/
structure WaitState (n : Nat) where
  /-- The signals that have arrived. -/
  delivered : List Signal
  version : Nat
  seen : Nat
  /-- The sender of the cancel channel is gone. -/
  closed : Bool
  cancelRecv : FairLock (Fin n)
  servers : Fin n → Waiting

variable {n : Nat}

def WaitState.initial (n : Nat) : WaitState n :=
  { delivered := [], version := 0, seen := 0, closed := false, cancelRecv := .free, servers := fun _ => .initial }

def WaitState.set (s : WaitState n) (i : Fin n) (w : Waiting) : WaitState n :=
  { s with servers := Function.update s.servers i w }

/-- A step of the servers. There may be no receiver behind the lock. -/
inductive WaitStep (receiver : Bool) : WaitState n → WaitState n → Prop where
  | next {s : WaitState n} (i : Fin n) (signal : Signal) (task : (s.servers i).signals = .listening)
      (pending : signal ∈ (s.servers i).pending) :
      WaitStep receiver s (s.set i { s.servers i with
        pending := (s.servers i).pending.erase signal, signals := .next signal })
  | signalled {s : WaitState n} (i : Fin n) (task : (s.servers i).signals = .caught) (room : (s.servers i).HasRoom) :
      WaitStep receiver s (s.set i { (s.servers i).send with signals := .finished })
  | lock {s : WaitState n} (i : Fin n) (task : (s.servers i).cancel = .spawned) :
      WaitStep receiver s ({ s with cancelRecv := s.cancelRecv.request i }.set i { s.servers i with cancel := .locking })
  | skip {s : WaitState n} (i : Fin n) (absent : receiver = false) (task : (s.servers i).cancel = .locking)
      (holder : s.cancelRecv.holder = some i) :
      WaitStep receiver s ({ s with cancelRecv := s.cancelRecv.release }.set i { s.servers i with cancel := .finished })
  | locked {s : WaitState n} (i : Fin n) (present : receiver = true) (task : (s.servers i).cancel = .locking)
      (holder : s.cancelRecv.holder = some i) :
      WaitStep receiver s (s.set i { s.servers i with cancel := .watching })
  | changed {s : WaitState n} (i : Fin n) (task : (s.servers i).cancel = .watching) (unseen : s.seen ≠ s.version) :
      WaitStep receiver s ({ s with seen := s.version }.set i { s.servers i with cancel := .changed })
  -- `changed` fails, and the error is dropped
  | closed {s : WaitState n} (i : Fin n) (task : (s.servers i).cancel = .watching) (seen : s.seen = s.version)
      (closed : s.closed = true) : WaitStep receiver s (s.set i { s.servers i with cancel := .changed })
  | forward {s : WaitState n} (i : Fin n) (task : (s.servers i).cancel = .changed) (room : (s.servers i).HasRoom) :
      WaitStep receiver s (s.set i { (s.servers i).send with cancel := .forwarded })
  | unlock {s : WaitState n} (i : Fin n) (task : (s.servers i).cancel = .forwarded) :
      WaitStep receiver s ({ s with cancelRecv := s.cancelRecv.release }.set i { s.servers i with cancel := .finished })
  | receive {s : WaitState n} (i : Fin n) (message : (s.servers i).queue = true) (phase : (s.servers i).phase = .waiting) :
      WaitStep receiver s (s.set i { s.servers i with queue := false, phase := .delaying })
  | elapse {s : WaitState n} (i : Fin n) (phase : (s.servers i).phase = .delaying) :
      WaitStep receiver s (s.set i { s.servers i with phase := .left })

/-- What happens to the process. A signal comes to the stream of every server. -/
inductive ProcessStep : WaitState n → WaitState n → Prop where
  | deliver {s : WaitState n} (signal : Signal) : ProcessStep s { s with
      delivered := signal :: s.delivered
      servers := fun i => { s.servers i with pending := (s.servers i).pending.insert signal } }
  | send {s : WaitState n} (opened : s.closed = false) : ProcessStep s { s with version := s.version + 1 }
  | drop {s : WaitState n} : ProcessStep s { s with closed := true }

def RunStep (receiver : Bool) (s s' : WaitState n) : Prop := WaitStep receiver s s' ∨ ProcessStep s s'

end WeaveGate.Server
