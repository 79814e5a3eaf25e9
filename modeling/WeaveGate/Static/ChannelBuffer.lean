import WeaveGate.Lib.Channel
import WeaveGate.Lib.Run
import WeaveGate.Static.Types

/-!
# The writer of an archive

`ChannelBuffer` of `directory_listing_download.rs`, whose `poll_write` is a check of the channel and a send, and the
reader of the body, which may come in between.
-/

namespace WeaveGate.Static

open Posix (Octets)

inductive PollWrite where
  /-- `Ready(Ok(n))` -/
  | written (n : Nat)
  /-- `Ready(Err(BrokenPipe))` -/
  | brokenPipe
  | pending
deriving DecidableEq

/-- `poll_write` up to its call of `try_send_data`, if it comes to one. -/
def pollWriteReady : Channel.Readiness → Option PollWrite
  | .ready => none
  | .closed => some .brokenPipe
  | .pending => some .pending

/-- `poll_write` from the answer of `try_send_data` on. -/
def pollWriteSent (buf : Octets) : Bool → PollWrite
  | true => .written buf.length
  | false => .pending

/-! ## The archive task and the reader -/

inductive WriterPhase where
  | running
  /-- Between the two calls of `poll_write`. -/
  | sending (buf : Octets)
  /-- The last `poll_write` returned `Pending`. -/
  | suspended
  | failed
deriving DecidableEq

def PollWrite.phase : PollWrite → WriterPhase
  | .written _ => .running
  | .brokenPipe => .failed
  | .pending => .suspended

/-- `calls` has the calls of `poll_write` that have returned, `delivered` what the reader got. -/
structure Download where
  channel : Channel Octets
  writer : WriterPhase
  calls : List (Octets × PollWrite)
  delivered : Octets

namespace Download

def start : Download := ⟨.empty, .running, [], []⟩

def finish (s : Download) (buf : Octets) (r : PollWrite) : Download :=
  { s with writer := r.phase, calls := s.calls ++ [(buf, r)] }

end Download

inductive DownloadEvent where
  /-- The runtime polls the task that was woken. -/
  | resume
  | pollWrite (buf : Octets)
  | trySend
  | read
  | dropBody
deriving DecidableEq

/-- Events that cannot happen in a state leave it as it is. A writer may go on after `Pending`, as the encoder does
while it has room of its own. -/
def downloadStep (buffer : Nat) (s : Download) : DownloadEvent → Download
  | .resume =>
      if s.writer = .suspended && s.channel.notified then
        { s with channel := s.channel.takeWakeup, writer := .running }
      else s
  | .pollWrite buf =>
      if s.writer = .running || s.writer = .suspended then
        let s' := { s with channel := (s.channel.pollReady buffer).2 }
        match pollWriteReady (s.channel.pollReady buffer).1 with
        | none => { s' with writer := .sending buf }
        | some r => s'.finish buf r
      else s
  | .trySend =>
      match s.writer with
      | .sending buf =>
          { s with channel := (s.channel.trySend buffer buf).2 }.finish buf (pollWriteSent buf (s.channel.trySend buffer buf).1)
      | _ => s
  | .read => { s with channel := s.channel.next.2, delivered := s.delivered ++ s.channel.next.1.getD [] }
  | .dropBody => { s with channel := s.channel.close }

end WeaveGate.Static
