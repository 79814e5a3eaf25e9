import Mathlib.Data.Fintype.Card
import WeaveGate.Server.Theorems.Signals
import WeaveGate.Server.Wait

/-!
# Who leaves `wait_for_signals`
-/

namespace WeaveGate.Server

variable {n : Nat} {receiver : Bool}

/-! ## What holds in every state -/

/-- A signal that ends the servers has arrived. -/
def WaitState.Terminated (s : WaitState n) : Prop := ∃ signal ∈ s.delivered, signal.terminates = true

/-- What holds of a server: a message is sent by the task that ends, and a task has its reason to send one. -/
structure Waiting.Sound (receiver : Bool) (s : WaitState n) (w : Waiting) : Prop where
  told : (w.phase ≠ .waiting ∨ w.queue = true) ↔ w.signals = .finished ∨ receiver = true ∧ w.cancel.told = true
  caught : w.signals ≠ .listening → s.Terminated
  pending : ∀ signal ∈ s.delivered, signal.terminates = true → signal ∈ w.pending ∨ w.signals ≠ .listening
  arrived : ∀ signal ∈ w.pending, signal ∈ s.delivered
  passed : receiver = true → w.cancel.passed = true → s.closed = true ∨ 0 < s.version
  watches : w.cancel = .watching ∨ w.cancel = .changed ∨ w.cancel = .forwarded → receiver = true

/-- The servers whose cancel task has seen a value, or that there will be none. -/
def WaitState.passed (s : WaitState n) : Finset (Fin n) :=
  Finset.univ.filter fun i => (s.servers i).cancel.passed = true

structure WaitState.Sound (receiver : Bool) (s : WaitState n) : Prop where
  seen : s.seen ≤ s.version
  served : s.cancelRecv.Serves fun i => (s.servers i).cancel.inLine = true
  head : ∀ i, (s.servers i).cancel.holds = true → s.cancelRecv.holder = some i
  each : ∀ i, (s.servers i).Sound receiver s
  count : receiver = true → s.closed = false → s.passed.card ≤ s.seen
  somebody : 0 < s.seen → ∃ i, (s.servers i).cancel.passed = true

theorem WaitState.set_server (s : WaitState n) (i j : Fin n) (w : Waiting) :
    (s.set i w).servers j = if j = i then w else s.servers j := Function.update_apply _ _ _ _

theorem WaitState.mem_passed {s : WaitState n} {i : Fin n} : i ∈ s.passed ↔ (s.servers i).cancel.passed = true := by
  simp [passed]

theorem WaitState.sound_initial (receiver : Bool) (n : Nat) : (WaitState.initial n).Sound receiver where
  seen := Nat.le_refl _
  served := FairLock.serves_free fun i => by simp [initial, Waiting.initial, CancelTask.inLine]
  head i h := by cases h
  each i := by
    refine ⟨?_, fun h => absurd rfl h, fun _ h => ?_, fun _ h => ?_, fun _ h => ?_, fun h => ?_⟩
    · simp [initial, Waiting.initial, CancelTask.told]
    · cases h
    · cases h
    · cases h
    · rcases h with h | h | h <;> cases h
  count _ _ := by simp [passed, initial, Waiting.initial, CancelTask.passed]
  somebody h := absurd h (Nat.lt_irrefl 0)

/-- What holds of a server still does after the state of the others has changed. -/
theorem Waiting.Sound.congr {s s' : WaitState n} {w : Waiting} (h : w.Sound receiver s)
    (hdelivered : s'.delivered = s.delivered) (hversion : s'.version = s.version) (hclosed : s'.closed = s.closed) :
    w.Sound receiver s' where
  told := h.told
  caught hsignals := by
    have := h.caught hsignals
    unfold WaitState.Terminated at this ⊢
    rwa [hdelivered]
  pending := by
    rw [hdelivered]
    exact h.pending
  arrived := by
    rw [hdelivered]
    exact h.arrived
  passed := by
    rw [hclosed, hversion]
    exact h.passed
  watches := h.watches

/-- A server and the lock go on together. -/
theorem WaitState.Sound.relock {s : WaitState n} (hs : s.Sound receiver) {i : Fin n} {w : Waiting}
    (lock : FairLock (Fin n)) (hw : w.Sound receiver s)
    (hserved : lock.Serves fun j => (if j = i then w else s.servers j).cancel.inLine = true)
    (hhead : ∀ j, (if j = i then w else s.servers j).cancel.holds = true → lock.holder = some j)
    (hpassed : (s.servers i).cancel.passed = true → w.cancel.passed = true)
    (hsame : receiver = true → w.cancel.passed = (s.servers i).cancel.passed) :
    ({ s with cancelRecv := lock }.set i w).Sound receiver := by
  have hservers : ∀ j, ({ s with cancelRecv := lock }.set i w).servers j = if j = i then w else s.servers j :=
    (set_server _ i · w)
  refine ⟨hs.seen, hserved.congr fun j => by rw [hservers], fun j hj => hhead j (hservers j ▸ hj), fun j => ?_,
    fun hreceiver hclosed => ?_, fun hseen => ?_⟩
  · rw [hservers]
    split
    · exact hw.congr rfl rfl rfl
    · exact (hs.each j).congr rfl rfl rfl
  · have hpass : ({ s with cancelRecv := lock }.set i w).passed = s.passed := by
      ext j
      rw [mem_passed, mem_passed, hservers]
      split
      · rename_i hj
        rw [hj, hsame hreceiver]
      · rfl
    rw [hpass]
    exact hs.count hreceiver hclosed
  · obtain ⟨j, hj⟩ := hs.somebody hseen
    refine ⟨j, ?_⟩
    rw [hservers]
    split
    · rename_i h
      exact hpassed (h ▸ hj)
    · exact hj

/-- A server goes on while it keeps its place in the line. -/
theorem WaitState.Sound.set {s : WaitState n} (hs : s.Sound receiver) {i : Fin n} {w : Waiting}
    (hw : w.Sound receiver s) (hline : w.cancel.inLine = (s.servers i).cancel.inLine)
    (hpassed : w.cancel.passed = (s.servers i).cancel.passed)
    (hhead : w.cancel.holds = true → s.cancelRecv.holder = some i) : (s.set i w).Sound receiver := by
  refine hs.relock s.cancelRecv hw (hs.served.congr fun j => ?_) (fun j hj => ?_) (fun h => hpassed.trans h)
    fun _ => hpassed
  · split
    · rename_i hj
      rw [hj, hline]
    · exact Iff.rfl
  · split at hj
    · rename_i h
      rw [h]
      exact hhead hj
    · exact hs.head j hj

/-- A task that keeps its place has seen that there is a value, or that there will be none. -/
theorem WaitState.Sound.pass {s : WaitState n} (hs : s.Sound receiver) {i : Fin n} {seen : Nat}
    (htask : (s.servers i).cancel = .watching) (hseen : seen ≤ s.version) (hpositive : s.closed = true ∨ 0 < s.version)
    (hmore : s.closed = false → s.seen < seen) :
    ({ s with seen := seen }.set i { s.servers i with cancel := .changed }).Sound receiver := by
  have hservers : ∀ j, ({ s with seen := seen }.set i { s.servers i with cancel := .changed }).servers j =
      if j = i then { s.servers i with cancel := .changed } else s.servers j := (WaitState.set_server _ i · _)
  have hi := hs.each i
  have hreceiver := hi.watches (.inl htask)
  refine ⟨hseen, hs.served.congr fun j => ?_, fun j hj => ?_, fun j => ?_, fun _ hclosed => ?_, fun _ => ⟨i, ?_⟩⟩
  · rw [hservers]
    split
    · rename_i hj
      rw [hj, htask]
      exact Iff.rfl
    · exact Iff.rfl
  · refine hs.head j ?_
    rw [hservers] at hj
    split at hj
    · rename_i h
      rw [h, htask]
      rfl
    · exact hj
  · rw [hservers]
    split
    · refine Waiting.Sound.congr (s := s) ?_ rfl rfl rfl
      refine ⟨?_, hi.caught, hi.pending, hi.arrived, fun _ _ => hpositive, fun _ => hreceiver⟩
      have htold := hi.told
      rw [htask] at htold
      exact htold
    · exact (hs.each j).congr rfl rfl rfl
  · have hsub : ({ s with seen := seen }.set i { s.servers i with cancel := .changed }).passed ⊆ insert i s.passed := by
      intro j hj
      rw [mem_passed, hservers] at hj
      rw [Finset.mem_insert, mem_passed]
      split at hj
      · exact .inl ‹_›
      · exact .inr hj
    calc _ ≤ (insert i s.passed).card := Finset.card_le_card hsub
      _ ≤ s.passed.card + 1 := Finset.card_insert_le _ _
      _ ≤ s.seen + 1 := Nat.succ_le_succ (hs.count hreceiver hclosed)
      _ ≤ seen := hmore hclosed
  · rw [hservers, if_pos rfl]
    rfl

/-! ## Steps of the servers -/

@[simp] theorem Waiting.send_pending (w : Waiting) : w.send.pending = w.pending := by
  unfold send
  split <;> rfl

@[simp] theorem Waiting.send_signals (w : Waiting) : w.send.signals = w.signals := by
  unfold send
  split <;> rfl

@[simp] theorem Waiting.send_cancel (w : Waiting) : w.send.cancel = w.cancel := by
  unfold send
  split <;> rfl

theorem Waiting.send_told (w : Waiting) : w.send.phase ≠ .waiting ∨ w.send.queue = true := by
  unfold send
  split
  · rename_i h
    exact .inl (by rw [h]; decide)
  · exact .inr rfl

/-- A signal is taken from the stream. -/
theorem Waiting.Sound.next {s : WaitState n} {w : Waiting} (h : w.Sound receiver s) {signal : Signal}
    (htask : w.signals = .listening) (hpending : signal ∈ w.pending) :
    ({ w with pending := w.pending.erase signal, signals := .next signal } : Waiting).Sound receiver s := by
  have hfinished : SignalTask.next signal ≠ .finished := by
    unfold SignalTask.next
    split <;> decide
  refine ⟨h.told.trans (or_congr_left ?_), fun hcaught => ?_, fun other hother hends => ?_, fun other hother => ?_,
    h.passed, h.watches⟩
  · rw [htask]
    exact iff_of_false (by decide) hfinished
  · have hends : signal.terminates = true := by
      by_contra hends
      exact hcaught (if_neg hends)
    exact ⟨signal, h.arrived signal hpending, hends⟩
  · by_cases heq : other = signal
    · right
      change SignalTask.next signal ≠ .listening
      rw [← heq, SignalTask.next, if_pos hends]
      decide
    · rcases h.pending other hother hends with hmem | hcaught
      · exact .inl ((List.mem_erase_of_ne heq).mpr hmem)
      · exact absurd htask hcaught
  · exact h.arrived other (List.mem_of_mem_erase hother)

theorem Waiting.Sound.setCancel {s : WaitState n} {w : Waiting} (h : w.Sound receiver s) {task : CancelTask}
    (htold : receiver = true → task.told = w.cancel.told) (hpassed : receiver = true → task.passed = w.cancel.passed)
    (hwatches : task = .watching ∨ task = .changed ∨ task = .forwarded → receiver = true) :
    ({ w with cancel := task } : Waiting).Sound receiver s := by
  refine ⟨h.told.trans (or_congr_right (and_congr_right fun hreceiver => by rw [htold hreceiver])), h.caught, h.pending,
    h.arrived, fun hreceiver htask => h.passed hreceiver ?_, hwatches⟩
  rw [← hpassed hreceiver]
  exact htask

theorem WaitState.Sound.lock {s : WaitState n} (hs : s.Sound receiver) {i : Fin n}
    (htask : (s.servers i).cancel = .spawned) :
    ({ s with cancelRecv := s.cancelRecv.request i }.set i { s.servers i with cancel := .locking }).Sound receiver := by
  refine hs.relock _ ((hs.each i).setCancel (fun _ => by rw [htask]; rfl) (fun _ => by rw [htask]; rfl) ?_)
    (hs.served.request (by simp [htask, CancelTask.inLine]) fun j => ?_) (fun j hj => ?_) ?_ fun _ => by rw [htask]; rfl
  · rintro (h | h | h) <;> cases h
  · by_cases hj : j = i
    · simp [hj, CancelTask.inLine]
    · simp [hj]
  · split at hj
    · cases hj
    · exact FairLock.holder_request (hs.head j hj) i
  · rw [htask]
    exact fun h => by cases h

/-- A task that is done gives the lock back. -/
theorem WaitState.Sound.finish {s : WaitState n} (hs : s.Sound receiver) {i : Fin n}
    (hholder : s.cancelRecv.holder = some i)
    (htask : receiver = true → (s.servers i).cancel = .forwarded) :
    ({ s with cancelRecv := s.cancelRecv.release }.set i { s.servers i with cancel := .finished }).Sound receiver := by
  have hi := hs.each i
  refine hs.relock _ (hi.setCancel (fun h => by rw [htask h]; rfl) (fun h => by rw [htask h]; rfl) ?_)
    (hs.served.release hholder fun j => ?_) (fun j hj => ?_) (fun _ => rfl) fun h => by rw [htask h]; rfl
  · rintro (h | h | h) <;> cases h
  · by_cases hj : j = i
    · simp [hj, CancelTask.inLine]
    · simp [hj]
  · split at hj
    · cases hj
    · rename_i hne
      cases hholder.symm.trans (hs.head j hj)
      exact absurd rfl hne

theorem WaitStep.sound {s s' : WaitState n} (h : WaitStep receiver s s') (hs : s.Sound receiver) : s'.Sound receiver := by
  cases h with
  | next i signal task pending => exact hs.set ((hs.each i).next task pending) rfl rfl (hs.head i)
  | signalled i task room =>
      have hi := hs.each i
      refine hs.set ⟨iff_of_true (Waiting.send_told _) (.inl rfl), fun _ => hi.caught ?_, fun _ _ _ => .inr ?_, ?_, ?_, ?_⟩ ?_ ?_ ?_
      · rw [task]
        decide
      · exact fun h => by cases h
      · simpa using hi.arrived
      · simpa using hi.passed
      · simpa using hi.watches
      · simp
      · simp
      · simpa using hs.head i
  | lock i task => exact hs.lock task
  | skip i absent task holder => exact hs.finish holder fun h => by rw [absent] at h; cases h
  | locked i present task holder =>
      exact hs.set ((hs.each i).setCancel (fun _ => by rw [task]; rfl) (fun _ => by rw [task]; rfl) fun _ => present)
        (by rw [task]; rfl) (by rw [task]; rfl) fun _ => holder
  | changed i task unseen =>
      have hle := hs.seen
      exact hs.pass task (Nat.le_refl _) (.inr (by omega)) fun _ => by omega
  | closed i task seen closed =>
      exact hs.pass task hs.seen (.inl closed) fun h => by rw [closed] at h; cases h
  | forward i task room =>
      have hi := hs.each i
      have hreceiver := hi.watches (.inr (.inl task))
      refine hs.set ⟨iff_of_true (Waiting.send_told _) (.inr ⟨hreceiver, rfl⟩), ?_, ?_, ?_, fun h _ => hi.passed h ?_,
        fun _ => hreceiver⟩ (by rw [task]; rfl) (by rw [task]; rfl) fun _ => hs.head i (by rw [task]; rfl)
      · simpa using hi.caught
      · simpa using hi.pending
      · simpa using hi.arrived
      · rw [task]
        rfl
  | unlock i task => exact hs.finish (hs.head i (by rw [task]; rfl)) fun _ => task
  | receive i message phase =>
      have hi := hs.each i
      exact hs.set ⟨iff_of_true (.inl fun h => by cases h) (hi.told.mp (.inr message)), hi.caught, hi.pending, hi.arrived,
        hi.passed, hi.watches⟩ rfl rfl (hs.head i)
  | elapse i phase =>
      have hi := hs.each i
      have htold := hi.told.mp (.inl (by rw [phase]; decide))
      exact hs.set ⟨iff_of_true (.inl fun h => by cases h) htold, hi.caught, hi.pending, hi.arrived, hi.passed, hi.watches⟩
        rfl rfl (hs.head i)

theorem ProcessStep.sound {s s' : WaitState n} (h : ProcessStep s s') (hs : s.Sound receiver) : s'.Sound receiver := by
  cases h with
  | deliver signal =>
      refine ⟨hs.seen, hs.served, hs.head, fun i => ?_, hs.count, hs.somebody⟩
      have hi := hs.each i
      refine ⟨hi.told, fun h => ?_, fun other hother hends => ?_, fun other hother => ?_, hi.passed, hi.watches⟩
      · obtain ⟨ends, hmem, hends⟩ := hi.caught h
        exact ⟨ends, List.mem_cons_of_mem _ hmem, hends⟩
      · rcases List.mem_cons.mp hother with rfl | hmem
        · exact .inl List.mem_insert_self
        · exact (hi.pending other hmem hends).imp_left List.mem_insert_of_mem
      · rcases List.mem_insert_iff.mp hother with rfl | hmem
        · exact List.mem_cons_self
        · exact List.mem_cons_of_mem _ (hi.arrived other hmem)
  | send opened =>
      refine ⟨Nat.le_succ_of_le hs.seen, hs.served, hs.head, fun i => ?_, hs.count, hs.somebody⟩
      have hi := hs.each i
      exact ⟨hi.told, hi.caught, hi.pending, hi.arrived, fun _ _ => .inr (Nat.succ_pos _), hi.watches⟩
  | drop =>
      refine ⟨hs.seen, hs.served, hs.head, fun i => ?_, fun _ h => (by cases h), hs.somebody⟩
      have hi := hs.each i
      exact ⟨hi.told, hi.caught, hi.pending, hi.arrived, fun _ _ => .inl rfl, hi.watches⟩

theorem waits_of_reaches {s : WaitState n} (h : Steps.Reaches (RunStep receiver) (.initial n) s) : s.Sound receiver :=
  Steps.invariant (fun _ _ hstep hs => hstep.elim (fun h => h.sound hs) fun h => h.sound hs) h
    (WaitState.sound_initial receiver n)

/-! ## Servers that can do nothing more -/

/-- A server waits with nothing to receive, or has left. Each of its tasks waits for something, or is done. -/
structure WaitState.Rests (s : WaitState n) (i : Fin n) : Prop where
  phase : (s.servers i).phase = .waiting ∧ (s.servers i).queue = false ∨ (s.servers i).phase = .left
  signals : (s.servers i).signals = .listening ∧ (s.servers i).pending = [] ∨ (s.servers i).signals = .finished
  cancel : (s.servers i).cancel = .locking ∧ (s.cancelRecv.holder = some i → False) ∨
    (s.servers i).cancel = .watching ∧ s.seen = s.version ∧ s.closed = false ∨ (s.servers i).cancel = .finished

theorem rests_of_stuck {s : WaitState n} (hstuck : Steps.Stuck (WaitStep receiver) s) (i : Fin n) : s.Rests i := by
  have hphase : (s.servers i).phase = .waiting ∧ (s.servers i).queue = false ∨ (s.servers i).phase = .left := by
    cases hphase : (s.servers i).phase with
    | waiting => exact .inl ⟨rfl, Bool.eq_false_of_not_eq_true fun h => hstuck _ (.receive i h hphase)⟩
    | delaying => exact absurd (.elapse i hphase) (hstuck _)
    | left => exact .inr rfl
  have hroom : (s.servers i).HasRoom := hphase.elim (fun h => .inr h.2) .inl
  refine ⟨hphase, ?_, ?_⟩
  · cases htask : (s.servers i).signals with
    | listening =>
        refine .inl ⟨rfl, List.eq_nil_iff_forall_not_mem.mpr fun signal hmem => hstuck _ (.next i signal htask hmem)⟩
    | caught => exact absurd (.signalled i htask hroom) (hstuck _)
    | finished => exact .inr rfl
  · cases htask : (s.servers i).cancel with
    | spawned => exact absurd (.lock i htask) (hstuck _)
    | locking =>
        refine .inl ⟨rfl, fun hholder => ?_⟩
        cases hreceiver : receiver with
        | true => exact hstuck _ (.locked i hreceiver htask hholder)
        | false => exact hstuck _ (.skip i hreceiver htask hholder)
    | watching =>
        have hseen : s.seen = s.version := by
          by_contra hunseen
          exact hstuck _ (.changed i htask hunseen)
        exact .inr (.inl ⟨rfl, hseen, Bool.eq_false_of_not_eq_true fun h => hstuck _ (.closed i htask hseen h)⟩)
    | changed => exact absurd (.forward i htask hroom) (hstuck _)
    | forwarded => exact absurd (.unlock i htask) (hstuck _)
    | finished => exact .inr (.inr rfl)

theorem WaitState.Rests.left_iff {s : WaitState n} (hs : s.Sound receiver) {i : Fin n} (h : s.Rests i) :
    (s.servers i).phase = .left ↔ (s.servers i).signals = .finished ∨ receiver = true ∧ (s.servers i).cancel = .finished := by
  have htold : (s.servers i).cancel.told = true ↔ (s.servers i).cancel = .finished := by
    rcases h.cancel with hc | hc | hc
    · rw [hc.1]
      decide
    · rw [hc.1]
      decide
    · rw [hc]
      decide
  rw [← htold, ← (hs.each i).told]
  rcases h.phase with ⟨hphase, hqueue⟩ | hphase
  · simp [hphase, hqueue]
  · simp [hphase]

/-- Behind the lock there is a task that waits for a value, or no task at all. -/
theorem WaitState.Sound.rests_cancel {s : WaitState n} (hs : s.Sound receiver) (h : ∀ i, s.Rests i) :
    (∀ i, (s.servers i).cancel = .finished) ∨
      s.closed = false ∧ s.seen = s.version ∧ ∃ i, (s.servers i).cancel = .watching := by
  by_cases hline : ∃ i, (s.servers i).cancel.inLine = true
  · right
    obtain ⟨i, hi⟩ := hline
    obtain ⟨j, hholder, hj⟩ := hs.served.exists_holder hi
    rcases (h j).cancel with ⟨_, hfree⟩ | ⟨htask, hseen, hclosed⟩ | htask
    · exact (hfree hholder).elim
    · exact ⟨hclosed, hseen, j, htask⟩
    · rw [htask] at hj
      cases hj
  · left
    intro i
    rcases (h i).cancel with ⟨htask, _⟩ | ⟨htask, _⟩ | htask
    · exact absurd ⟨i, by rw [htask]; rfl⟩ hline
    · exact absurd ⟨i, by rw [htask]; rfl⟩ hline
    · exact htask

theorem rests_terminated {s : WaitState n} (hs : s.Sound receiver) (h : ∀ i, s.Rests i) (hterminated : s.Terminated)
    (i : Fin n) : (s.servers i).phase = .left := by
  obtain ⟨signal, hmem, hends⟩ := hterminated
  refine ((h i).left_iff hs).mpr (.inl ?_)
  rcases (h i).signals with ⟨hlistening, hnone⟩ | hfinished
  · rcases (hs.each i).pending signal hmem hends with hpending | hcaught
    · rw [hnone] at hpending
      cases hpending
    · exact absurd hlistening hcaught
  · exact hfinished

theorem rests_closed {s : WaitState n} (hs : s.Sound true) (h : ∀ i, s.Rests i) (hclosed : s.closed = true) (i : Fin n) :
    (s.servers i).phase = .left := by
  rcases hs.rests_cancel h with hfinished | ⟨hopen, _⟩
  · exact ((h i).left_iff hs).mpr (.inr ⟨rfl, hfinished i⟩)
  · rw [hclosed] at hopen
    cases hopen

theorem rests_value {s : WaitState n} (hs : s.Sound true) (h : ∀ i, s.Rests i) (hversion : 0 < s.version) (hn : 0 < n) :
    ∃ i, (s.servers i).phase = .left := by
  rcases hs.rests_cancel h with hfinished | ⟨_, hseen, _⟩
  · exact ⟨⟨0, hn⟩, ((h _).left_iff hs).mpr (.inr ⟨rfl, hfinished _⟩)⟩
  · obtain ⟨i, hi⟩ := hs.somebody (hseen ▸ hversion)
    refine ⟨i, ((h i).left_iff hs).mpr (.inr ⟨rfl, ?_⟩)⟩
    rcases (h i).cancel with ⟨htask, _⟩ | ⟨htask, _⟩ | htask
    · rw [htask] at hi
      cases hi
    · rw [htask] at hi
      cases hi
    · exact htask

/-! ## Runs -/

def SignalTask.steps : SignalTask → Nat
  | .listening => 2
  | .caught => 1
  | .finished => 0

def Phase.steps : Phase → Nat
  | .waiting => 2
  | .delaying => 1
  | .left => 0

def Waiting.steps (w : Waiting) : Nat := w.pending.length + w.signals.steps + w.cancel.left + w.phase.steps

/-- How many steps the servers take at most, if nothing happens to the process. -/
def WaitState.steps (s : WaitState n) : Nat := ∑ i, (s.servers i).steps

theorem WaitState.steps_set {s s' : WaitState n} {i : Fin n} {w : Waiting} (hservers : s'.servers = s.servers)
    (h : w.steps < (s.servers i).steps) : (s'.set i w).steps < s.steps := by
  refine Finset.sum_lt_sum (fun j _ => ?_) ⟨i, Finset.mem_univ i, ?_⟩
  · rw [set_server, hservers]
    split
    · rename_i hj
      rw [hj]
      omega
    · exact Nat.le_refl _
  · rw [set_server, if_pos rfl]
    exact h

@[simp] theorem Waiting.send_phase (w : Waiting) : w.send.phase = w.phase := by
  unfold send
  split <;> rfl

theorem SignalTask.steps_next (signal : Signal) : (SignalTask.next signal).steps ≤ 2 := by
  cases signal <;> decide

theorem WaitStep.steps_lt {s s' : WaitState n} (h : WaitStep receiver s s') : s'.steps < s.steps := by
  cases h with
  | next i signal task pending =>
      refine WaitState.steps_set rfl ?_
      have hlength := List.length_erase_of_mem pending
      have hpos := List.length_pos_of_mem pending
      have hnext := SignalTask.steps_next signal
      simp only [Waiting.steps, task, SignalTask.steps] at hnext ⊢
      omega
  | signalled i task room =>
      refine WaitState.steps_set rfl ?_
      simp [Waiting.steps, task, SignalTask.steps]
  | lock i task => exact WaitState.steps_set rfl (by simp [Waiting.steps, task, CancelTask.left])
  | skip i absent task holder => exact WaitState.steps_set rfl (by simp [Waiting.steps, task, CancelTask.left])
  | locked i present task holder => exact WaitState.steps_set rfl (by simp [Waiting.steps, task, CancelTask.left])
  | changed i task unseen => exact WaitState.steps_set rfl (by simp [Waiting.steps, task, CancelTask.left])
  | closed i task seen closed => exact WaitState.steps_set rfl (by simp [Waiting.steps, task, CancelTask.left])
  | forward i task room => exact WaitState.steps_set rfl (by simp [Waiting.steps, task, CancelTask.left])
  | unlock i task => exact WaitState.steps_set rfl (by simp [Waiting.steps, task, CancelTask.left])
  | receive i message phase => exact WaitState.steps_set rfl (by simp [Waiting.steps, phase, Phase.steps])
  | elapse i phase => exact WaitState.steps_set rfl (by simp [Waiting.steps, phase, Phase.steps])

/-- The servers that are told to leave. -/
def WaitState.told (s : WaitState n) : Finset (Fin n) := Finset.univ.filter fun i => (s.servers i).phase ≠ .waiting

/-- Who leaves, in a state that a run has come to. -/
structure Releases (receiver : Bool) (s : WaitState n) : Prop where
  /-- No server leaves without a reason. -/
  safe : ∀ i ∈ s.told, s.Terminated ∨ receiver = true ∧ (s.closed = true ∨ 0 < s.version)
  /-- A value is for one server. -/
  once : ¬ s.Terminated → s.closed = false → s.told.card ≤ s.version
  signals : Steps.Stuck (WaitStep receiver) s → s.Terminated → ∀ i, (s.servers i).phase = .left
  dropped : Steps.Stuck (WaitStep receiver) s → receiver = true → s.closed = true → ∀ i, (s.servers i).phase = .left
  value : Steps.Stuck (WaitStep receiver) s → receiver = true → 0 < s.version → 0 < n → ∃ i, (s.servers i).phase = .left
  /-- The servers come to rest when nothing more happens to the process. -/
  rests : ∃ s', Steps.Reaches (WaitStep receiver) s s' ∧ Steps.Stuck (WaitStep receiver) s'

theorem WaitState.mem_told {s : WaitState n} {i : Fin n} : i ∈ s.told ↔ (s.servers i).phase ≠ .waiting := by simp [told]

theorem WaitState.Sound.safe {s : WaitState n} (hs : s.Sound receiver) {i : Fin n} (h : i ∈ s.told) :
    s.Terminated ∨ receiver = true ∧ (s.servers i).cancel.passed = true := by
  rcases (hs.each i).told.mp (.inl (WaitState.mem_told.mp h)) with hsignals | ⟨hreceiver, htold⟩
  · exact .inl ((hs.each i).caught (by rw [hsignals]; decide))
  · refine .inr ⟨hreceiver, ?_⟩
    revert htold
    cases (s.servers i).cancel <;> decide

/-- In whatever order tasks run and signals and values arrive: a signal that ends the process makes every server leave,
and so does the end of the cancel channel. A value makes one of them leave. Nothing else does. -/
theorem waitForSignals_releases {s : WaitState n} (h : Steps.Reaches (RunStep receiver) (.initial n) s) :
    Releases receiver s := by
  have hs := waits_of_reaches h
  refine ⟨fun i hi => ?_, fun hsignals hclosed => ?_, fun hstuck => rests_terminated hs (rests_of_stuck hstuck),
    fun hstuck hreceiver => ?_, fun hstuck hreceiver => ?_,
    Steps.exists_stuck WaitState.steps (fun _ _ hstep => hstep.steps_lt) s⟩
  · exact (hs.safe hi).imp_right fun ⟨hreceiver, hpassed⟩ => ⟨hreceiver, (hs.each i).passed hreceiver hpassed⟩
  · have hsub : s.told ⊆ s.passed := fun i hi =>
      WaitState.mem_passed.mpr ((hs.safe hi).resolve_left hsignals).2
    cases hreceiver : receiver with
    | true => exact (Finset.card_le_card hsub).trans ((hs.count hreceiver hclosed).trans hs.seen)
    | false =>
        have hnone : s.told = ∅ := Finset.eq_empty_of_forall_notMem fun i hi => by
          have hpassed := (hs.safe hi).resolve_left hsignals
          rw [hreceiver] at hpassed
          cases hpassed.1
        rw [hnone]
        exact Nat.zero_le _
  · subst hreceiver
    exact rests_closed hs (rests_of_stuck hstuck)
  · subst hreceiver
    exact rests_value hs (rests_of_stuck hstuck)

/-- A first server has taken a value when the signal arrives. -/
theorem waitForSignals_releases_term : ∃ s : WaitState 2, s.delivered = [.term] ∧ (s.servers 0).cancel = .changed ∧
    Releases true s := by
  refine ⟨_, rfl, ?_, waitForSignals_releases (.tail (.tail (.tail (.tail (.tail .refl (.inl (.lock 0 rfl)))
    (.inl (.locked 0 rfl rfl rfl))) (.inr (.send rfl))) (.inl (.changed 0 rfl (by decide)))) (.inr (.deliver .term)))⟩
  rfl

end WeaveGate.Server
