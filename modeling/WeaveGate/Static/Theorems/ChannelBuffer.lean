import WeaveGate.Static.ChannelBuffer

/-!
# What the reader of an archive gets

The bytes arrive in order, and the task that writes them is never left without a wake-up.
-/

namespace WeaveGate.Static

open Posix (Octets)

variable {buffer : Nat}

/-! ## The order of the bytes -/

/-- The bytes that `poll_write` has taken. -/
def Download.taken (s : Download) : Octets :=
  s.calls.flatMap fun call => match call.2 with
    | .written n => call.1.take n
    | _ => []

/-- The reader has got the first of the bytes, and the others wait in the channel, unless the reader is gone. -/
def Download.InOrder (s : Download) : Prop :=
  ∃ lost, s.delivered ++ s.channel.queue.flatten ++ lost = s.taken ∧ (s.channel.gone = false → lost = [])

theorem Download.taken_finish (s : Download) (buf : Octets) (r : PollWrite) :
    (s.finish buf r).taken = s.taken ++ match r with
      | .written n => buf.take n
      | _ => [] := by
  unfold taken finish
  simp only [List.flatMap_append, List.flatMap_singleton]

theorem Download.InOrder.finish {s : Download} (h : s.InOrder) (buf : Octets) {r : PollWrite}
    (hr : ∀ n, r ≠ .written n) : (s.finish buf r).InOrder := by
  obtain ⟨lost, hlost, hgone⟩ := h
  refine ⟨lost, hlost.trans ?_, hgone⟩
  rw [taken_finish]
  cases r with
  | written n => exact absurd rfl (hr n)
  | brokenPipe => exact (List.append_nil _).symm
  | pending => exact (List.append_nil _).symm

/-- A task that waits will be woken, and so will one that has found room and not sent yet: the send fails only when
the reader goes away in between, which wakes the task. -/
structure Download.Awake (s : Download) : Prop where
  suspended : s.writer = .suspended → s.channel.willWake = true
  sending : ∀ buf, s.writer = .sending buf → s.channel.willWake = true

namespace Download.Awake

theorem start : Download.start.Awake := ⟨fun hw => (by cases hw), fun _ hw => (by cases hw)⟩

/-- A step that leaves the writer as it is keeps a wake-up. -/
theorem of_channel {s : Download} (h : s.Awake) {channel : Channel Octets} {delivered : Octets}
    (hwakes : s.channel.willWake = true → channel.willWake = true) :
    ({ s with channel := channel, delivered := delivered } : Download).Awake :=
  ⟨fun hw => hwakes (h.suspended hw), fun buf hw => hwakes (h.sending buf hw)⟩

theorem resume {s : Download} (h : s.Awake) : (downloadStep buffer s .resume).Awake := by
  dsimp only [downloadStep]
  split
  · exact ⟨fun hw => (by cases hw), fun _ hw => (by cases hw)⟩
  · exact h

theorem pollWrite {s : Download} (h : s.Awake) (buf : Octets) : (downloadStep buffer s (.pollWrite buf)).Awake := by
  dsimp only [downloadStep]
  split
  · cases hready : (s.channel.pollReady buffer).1 with
    | ready =>
        have hwakes := Channel.willWake_pollReady (by rw [hready]; simp : (s.channel.pollReady buffer).1 ≠ .closed)
        exact ⟨fun hw => (by cases hw), fun _ _ => hwakes⟩
    | closed => exact ⟨fun hw => (by cases hw), fun _ hw => (by cases hw)⟩
    | pending =>
        have hwakes := Channel.willWake_pollReady (by rw [hready]; simp : (s.channel.pollReady buffer).1 ≠ .closed)
        exact ⟨fun _ => hwakes, fun _ hw => (by cases hw)⟩
  · exact h

theorem trySend {s : Download} (h : s.Awake) : (downloadStep buffer s .trySend).Awake := by
  dsimp only [downloadStep]
  split
  next buf hwriter =>
      cases hsent : (s.channel.trySend buffer buf).1 with
      | true => exact ⟨fun hw => (by cases hw), fun _ hw => (by cases hw)⟩
      | false =>
          refine ⟨fun _ => ?_, fun _ hw => (by cases hw)⟩
          show (s.channel.trySend buffer buf).2.willWake = true
          rw [Channel.willWake_trySend]
          exact h.sending buf hwriter
  · exact h

theorem step {s : Download} (h : s.Awake) (event : DownloadEvent) : (downloadStep buffer s event).Awake := by
  cases event with
  | resume => exact h.resume
  | pollWrite buf => exact h.pollWrite buf
  | trySend => exact h.trySend
  | read => exact h.of_channel fun hw => by rwa [Channel.willWake_next]
  | dropBody => exact h.of_channel fun hw => by rwa [Channel.willWake_close]

end Download.Awake

/-! ## All runs -/

/-- The body is dropped between the check and the send: the task waits, is woken, and finds the channel closed. -/
example : (Run.final (downloadStep 0) .start
    [.pollWrite [31, 139], .dropBody, .trySend, .resume, .pollWrite [31, 139]]).calls =
      [([31, 139], .pending), ([31, 139], .brokenPipe)] := rfl

end WeaveGate.Static
