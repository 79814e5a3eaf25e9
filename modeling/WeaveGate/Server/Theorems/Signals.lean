import Mathlib.Algebra.BigOperators.Fin
import Mathlib.Algebra.Order.BigOperators.Group.Finset
import WeaveGate.Lib.Steps
import WeaveGate.Server.Signals

/-!
# Who is released by a cancel value
-/

namespace WeaveGate.Server

variable {n : Nat}

/-! ## What holds in every state -/

def CancelTask.passed : CancelTask → Bool
  | .changed | .forwarded | .finished => true
  | .spawned | .locking | .watching => false

/-- Tasks that are past the request for the lock and have not given it back. -/
def CancelTask.inLine : CancelTask → Bool
  | .locking | .watching | .changed | .forwarded => true
  | .spawned | .finished => false

def CancelTask.holds : CancelTask → Bool
  | .watching | .changed | .forwarded => true
  | .spawned | .locking | .finished => false

def CancelTask.told : CancelTask → Bool
  | .forwarded | .finished => true
  | _ => false

/-- One task has passed `changed` where the value has been seen, and none where it has not. -/
structure SeenOnce (seen : Nat) (tasks : Fin n → CancelTask) : Prop where
  unseen : seen = 0 → ∀ i, (tasks i).passed = false
  once : ∀ i j, (tasks i).passed = true → (tasks j).passed = true → i = j
  somebody : seen = 1 → ∃ i, (tasks i).passed = true

theorem SeenOnce.congr {seen : Nat} {tasks tasks' : Fin n → CancelTask} (h : SeenOnce seen tasks)
    (hsame : ∀ i, (tasks' i).passed = (tasks i).passed) : SeenOnce seen tasks' where
  unseen hseen i := (hsame i).trans (h.unseen hseen i)
  once i j hi hj := h.once i j ((hsame i).symm.trans hi) ((hsame j).symm.trans hj)
  somebody hseen := by
    obtain ⟨i, hi⟩ := h.somebody hseen
    exact ⟨i, (hsame i).trans hi⟩

structure SignalState.Sound (s : SignalState n) : Prop where
  version : s.version ≤ 1
  seen : s.seen ≤ s.version
  served : s.cancelRecv.Serves fun i => (s.tasks i).inLine = true
  head : ∀ i, (s.tasks i).holds = true → s.cancelRecv.holder = some i
  seenOnce : SeenOnce s.seen s.tasks
  message : ∀ i, s.message i = (s.tasks i).told
  released : ∀ i, s.released i = true → s.message i = true

theorem SignalState.sound_initial (n : Nat) : (SignalState.initial n).Sound := by
  refine ⟨Nat.zero_le _, Nat.le_refl _, FairLock.serves_free fun i => ?_, ?_, ⟨fun _ _ => rfl, ?_, ?_⟩, fun _ => rfl,
    ?_⟩
  · simp [initial, CancelTask.inLine]
  · simp [initial, CancelTask.holds]
  · simp [initial, CancelTask.passed]
  · simp [initial]
  · simp [initial]

theorem SignalState.setTask_task (s : SignalState n) (i j : Fin n) (task : CancelTask) :
    (s.setTask i task).tasks j = if j = i then task else s.tasks j := Function.update_apply _ _ _ _

/-- What a task has in common with the one that it was, all tasks have. -/
theorem SignalState.setTask_keep {s : SignalState n} {i : Fin n} {task : CancelTask} {f : CancelTask → Bool}
    (h : f task = f (s.tasks i)) (j : Fin n) : f ((s.setTask i task).tasks j) = f (s.tasks j) := by
  rw [setTask_task]
  split
  · rename_i hj
    rw [hj, h]
  · rfl

/-- A task goes on while it keeps its place in the line. -/
theorem SignalState.Sound.setTask {s : SignalState n} (hs : s.Sound) {i : Fin n} {task : CancelTask}
    (hline : task.inLine = (s.tasks i).inLine) (hpassed : task.passed = (s.tasks i).passed)
    (htold : task.told = (s.tasks i).told) (hhead : s.cancelRecv.holder = some i) : (s.setTask i task).Sound := by
  have hinLine := setTask_keep (f := CancelTask.inLine) hline
  refine ⟨hs.version, hs.seen, hs.served.congr fun j => by rw [hinLine], fun j hj => ?_,
    hs.seenOnce.congr (setTask_keep hpassed), fun j => ?_, hs.released⟩
  · rw [setTask_task] at hj
    split at hj
    · rename_i h
      rw [h]
      exact hhead
    · exact hs.head j hj
  · rw [setTask_keep (f := CancelTask.told) htold]
    exact hs.message j

theorem SignalState.Sound.lock {s : SignalState n} (hs : s.Sound) {i : Fin n} (htask : s.tasks i = .spawned) :
    ({ s with cancelRecv := s.cancelRecv.request i }.setTask i .locking).Sound := by
  refine ⟨hs.version, hs.seen, hs.served.request (by simp [htask, CancelTask.inLine]) fun j => ?_, fun j hj => ?_,
    hs.seenOnce.congr (SignalState.setTask_keep (by rw [htask]; rfl)), fun j => ?_, hs.released⟩
  · rw [SignalState.setTask_task]
    by_cases h : j = i
    · simp [h, CancelTask.inLine]
    · simp [h]
  · rw [SignalState.setTask_keep (f := CancelTask.holds) (by rw [htask]; rfl)] at hj
    exact FairLock.holder_request (hs.head j hj) i
  · rw [SignalState.setTask_keep (f := CancelTask.told) (by rw [htask]; rfl)]
    exact hs.message j

theorem SignalState.Sound.changed {s : SignalState n} (hs : s.Sound) {i : Fin n} (htask : s.tasks i = .watching)
    (hunseen : s.seen ≠ s.version) : ({ s with seen := s.version }.setTask i .changed).Sound := by
  have hseen : s.seen = 0 ∧ s.version = 1 := by
    have := hs.seen
    have := hs.version
    omega
  have hnone := hs.seenOnce.unseen hseen.1
  have hpass : ∀ j, (({ s with seen := s.version }.setTask i .changed).tasks j).passed = true ↔ j = i := by
    intro j
    rw [SignalState.setTask_task]
    by_cases h : j = i
    · simp [h, CancelTask.passed]
    · simp [h, hnone j]
  refine ⟨hs.version, Nat.le_refl _, hs.served.congr fun j => ?_, fun j hj => ?_,
    ⟨fun h => ?_, fun j k hj hk => ?_, fun _ => ⟨i, (hpass i).mpr rfl⟩⟩, fun j => ?_, hs.released⟩
  · rw [SignalState.setTask_keep (f := CancelTask.inLine) (by rw [htask]; rfl)]
  · rw [SignalState.setTask_keep (f := CancelTask.holds) (by rw [htask]; rfl)] at hj
    exact hs.head j hj
  · exact absurd (hseen.2.symm.trans h) Nat.one_ne_zero
  · rw [(hpass j).mp hj, (hpass k).mp hk]
  · rw [SignalState.setTask_keep (f := CancelTask.told) (by rw [htask]; rfl)]
    exact hs.message j

theorem SignalState.Sound.forward {s : SignalState n} (hs : s.Sound) {i : Fin n} (htask : s.tasks i = .changed) :
    ({ s with message := Function.update s.message i true }.setTask i .forwarded).Sound := by
  have hmessage : ∀ j, s.message j = true → Function.update s.message i true j = true := by
    intro j hj
    rw [Function.update_apply]
    split
    · rfl
    · exact hj
  refine ⟨hs.version, hs.seen, hs.served.congr fun j => ?_, fun j hj => ?_,
    hs.seenOnce.congr (SignalState.setTask_keep (by rw [htask]; rfl)), fun j => ?_,
    fun j hj => hmessage j (hs.released j hj)⟩
  · rw [SignalState.setTask_keep (f := CancelTask.inLine) (by rw [htask]; rfl)]
  · rw [SignalState.setTask_keep (f := CancelTask.holds) (by rw [htask]; rfl)] at hj
    exact hs.head j hj
  · rw [SignalState.setTask_task]
    change Function.update s.message i true j = _
    rw [Function.update_apply]
    split
    · rfl
    · exact hs.message j

theorem SignalState.Sound.unlock {s : SignalState n} (hs : s.Sound) {i : Fin n} (htask : s.tasks i = .forwarded) :
    ({ s with cancelRecv := s.cancelRecv.release }.setTask i .finished).Sound := by
  have hholder := hs.head i (by rw [htask]; rfl)
  refine ⟨hs.version, hs.seen, hs.served.release hholder fun j => ?_, fun j hj => ?_,
    hs.seenOnce.congr (SignalState.setTask_keep (by rw [htask]; rfl)), fun j => ?_, hs.released⟩
  · rw [SignalState.setTask_task]
    by_cases h : j = i
    · simp [h, CancelTask.inLine]
    · simp [h]
  · rw [SignalState.setTask_task] at hj
    split at hj
    · cases hj
    · rename_i h
      cases hholder.symm.trans (hs.head j hj)
      exact absurd rfl h
  · rw [SignalState.setTask_keep (f := CancelTask.told) (by rw [htask]; rfl)]
    exact hs.message j

theorem SignalStep.sound {s s' : SignalState n} (h : SignalStep s s') (hs : s.Sound) : s'.Sound := by
  cases h with
  | send unsent =>
      have hseen : s.seen = 0 := by
        have := hs.seen
        omega
      exact ⟨Nat.le_refl _, by simp [hseen], hs.served, hs.head, hs.seenOnce, hs.message, hs.released⟩
  | lock i task => exact hs.lock task
  | locked i task holder => exact hs.setTask (by rw [task]; rfl) (by rw [task]; rfl) (by rw [task]; rfl) holder
  | changed i task unseen => exact hs.changed task unseen
  | forward i task => exact hs.forward task
  | unlock i task => exact hs.unlock task
  | receive i message waiting =>
      refine ⟨hs.version, hs.seen, hs.served, hs.head, hs.seenOnce, hs.message, fun j hj => ?_⟩
      change Function.update s.released i true j = true at hj
      rw [Function.update_apply] at hj
      split at hj
      · rename_i h
        rw [h]
        exact message
      · exact hs.released j hj

/-! ## Runs -/

theorem sound_of_reaches {s : SignalState n} (h : Steps.Reaches SignalStep (.initial n) s) : s.Sound :=
  Steps.invariant (fun _ _ hstep hs => hstep.sound hs) h (SignalState.sound_initial n)

def CancelTask.left : CancelTask → Nat
  | .spawned => 5
  | .locking => 4
  | .watching => 3
  | .changed => 2
  | .forwarded => 1
  | .finished => 0

/-- How many steps are left at most. -/
def SignalState.left (s : SignalState n) : Nat :=
  (1 - s.version) + ∑ i, ((s.tasks i).left + if s.released i then 0 else 1)

theorem SignalState.left_setTask {s s' : SignalState n} {i : Fin n} {task : CancelTask}
    (hversion : s'.version = s.version) (hreleased : s'.released = s.released) (htasks : s'.tasks = s.tasks)
    (h : task.left < (s.tasks i).left) : (s'.setTask i task).left < s.left := by
  have hversion' : (s'.setTask i task).version = s.version := hversion
  have hreleased' : (s'.setTask i task).released = s.released := hreleased
  unfold left
  rw [hversion', hreleased']
  refine Nat.add_lt_add_left (Finset.sum_lt_sum (fun j _ => ?_) ⟨i, Finset.mem_univ i, ?_⟩) _
  · rw [setTask_task, htasks]
    split
    · rename_i hj
      rw [hj]
      omega
    · exact Nat.le_refl _
  · rw [setTask_task, if_pos rfl]
    omega

theorem SignalStep.left_lt {s s' : SignalState n} (h : SignalStep s s') : s'.left < s.left := by
  cases h with
  | send unsent =>
      unfold SignalState.left
      rw [unsent]
      exact Nat.add_lt_add_right Nat.zero_lt_one _
  | lock i task => exact SignalState.left_setTask rfl rfl rfl (by rw [task]; decide)
  | locked i task holder => exact SignalState.left_setTask rfl rfl rfl (by rw [task]; decide)
  | changed i task unseen => exact SignalState.left_setTask rfl rfl rfl (by rw [task]; decide)
  | forward i task => exact SignalState.left_setTask rfl rfl rfl (by rw [task]; decide)
  | unlock i task => exact SignalState.left_setTask rfl rfl rfl (by rw [task]; decide)
  | receive i message waiting =>
      unfold SignalState.left
      refine Nat.add_lt_add_left (Finset.sum_lt_sum (fun j _ => ?_) ⟨i, Finset.mem_univ i, ?_⟩) _
      · change _ + (if Function.update s.released i true j = true then 0 else 1) ≤ _
        rw [Function.update_apply]
        by_cases hj : j = i
        · simp [hj]
        · simp [hj]
      · change _ + (if Function.update s.released i true i = true then 0 else 1) < _
        rw [Function.update_self, waiting]
        exact Nat.lt_succ_self _

/-- Where no step is left, a task waits for the lock that another one has, waits for a value, or is done. -/
theorem stuck_task {s : SignalState n} (hstuck : Steps.Stuck SignalStep s) (i : Fin n) :
    s.tasks i = .locking ∧ s.cancelRecv.holder ≠ some i ∨ s.tasks i = .watching ∧ s.seen = s.version ∨
      s.tasks i = .finished := by
  cases htask : s.tasks i with
  | spawned => exact absurd (.lock i htask) (hstuck _)
  | locking => exact .inl ⟨rfl, fun h => hstuck _ (.locked i htask h)⟩
  | watching => exact .inr (.inl ⟨rfl, Classical.not_not.mp fun h => hstuck _ (.changed i htask h)⟩)
  | changed => exact absurd (.forward i htask) (hstuck _)
  | forwarded => exact absurd (.unlock i htask) (hstuck _)
  | finished => exact .inr (.inr rfl)

theorem stuck_seen {s : SignalState n} (hs : s.Sound) (hstuck : Steps.Stuck SignalStep s) (hn : 0 < n) :
    s.version = 1 ∧ s.seen = 1 := by
  have hversion : s.version = 1 := by
    have hle := hs.version
    by_contra h
    exact hstuck _ (.send (by omega))
  refine ⟨hversion, ?_⟩
  by_contra hne
  have hzero : s.seen = 0 := by
    have hle := hs.seen
    omega
  have hlocking : ∀ i, s.tasks i = .locking ∧ s.cancelRecv.holder ≠ some i := by
    intro i
    rcases stuck_task hstuck i with h | h | h
    · exact h
    · exact absurd (h.2.trans hversion) hne
    · have hpassed := hs.seenOnce.unseen hzero i
      rw [h] at hpassed
      cases hpassed
  -- somebody stands in line, and the head of the line can go on
  obtain ⟨i, hholder, _⟩ := hs.served.exists_holder (i := ⟨0, hn⟩) (by rw [(hlocking _).1]; rfl)
  exact (hlocking i).2 hholder

/-- Where no step is left, the value has been sent, and one server has been released. -/
theorem stuck_released {s : SignalState n} (hs : s.Sound) (hstuck : Steps.Stuck SignalStep s) (hn : 0 < n) :
    s.version = 1 ∧ ∃ i, ∀ j, s.released j = true ↔ j = i := by
  obtain ⟨hversion, hseen⟩ := stuck_seen hs hstuck hn
  obtain ⟨i, hi⟩ := hs.seenOnce.somebody hseen
  have hfinished : s.tasks i = .finished := by
    rcases stuck_task hstuck i with h | h | h
    · rw [h.1] at hi
      cases hi
    · rw [h.1] at hi
      cases hi
    · exact h
  have hmessage : s.message i = true := by
    rw [hs.message, hfinished]
    rfl
  refine ⟨hversion, i, fun j => ⟨fun hj => ?_, ?_⟩⟩
  · have htold := hs.message j
    rw [hs.released j hj] at htold
    refine hs.seenOnce.once j i ?_ hi
    revert htold
    cases s.tasks j <;> decide
  · rintro rfl
    by_contra h
    exact hstuck _ (.receive j hmessage (Bool.eq_false_of_not_eq_true h))

/-- The value has been sent, nothing can happen any more, and a server waits. -/
def SignalState.LeavesWaiting (s : SignalState n) : Prop :=
  s.version = 1 ∧ Steps.Stuck SignalStep s ∧ ∃ i, s.released i = false

/-- One value releases one server, whoever sees it. So all are released exactly where no two of them share the
receiver. Every run of several servers can only end with one that waits. -/
theorem released_by_cancel_iff (n : Nat) :
    ((∀ s : SignalState n, Steps.Reaches SignalStep (.initial n) s → ¬ s.LeavesWaiting) ↔ n ≤ 1) ∧
    (∀ s : SignalState n, Steps.Reaches SignalStep (.initial n) s → Steps.Stuck SignalStep s → 0 < n →
      s.version = 1 ∧ ∃ i, ∀ j, s.released j = true ↔ j = i) ∧
    ∀ s : SignalState n, Steps.Reaches SignalStep (.initial n) s →
      ∃ s', Steps.Reaches SignalStep s s' ∧ Steps.Stuck SignalStep s' := by
  have hends : ∀ s : SignalState n, ∃ s', Steps.Reaches SignalStep s s' ∧ Steps.Stuck SignalStep s' :=
    Steps.exists_stuck SignalState.left fun _ _ h => h.left_lt
  refine ⟨⟨fun hall => ?_, fun hn s hs hwaiting => ?_⟩, fun s hs hstuck hn =>
    stuck_released (sound_of_reaches hs) hstuck hn, fun s _ => hends s⟩
  · by_contra hn
    obtain ⟨s, hs, hstuck⟩ := hends (.initial n)
    obtain ⟨hversion, i, hi⟩ := stuck_released (sound_of_reaches hs) hstuck (by omega)
    -- with two servers, one of them is not the one that is released
    obtain ⟨j, hj⟩ : ∃ j : Fin n, j ≠ i := by
      by_cases h : i.val = 0
      · exact ⟨⟨1, by omega⟩, fun heq => by simp [← heq] at h⟩
      · exact ⟨⟨0, by omega⟩, fun heq => by simp [← heq] at h⟩
    refine hall s hs ⟨hversion, hstuck, j, ?_⟩
    exact Bool.eq_false_of_not_eq_true fun hreleased => hj ((hi j).mp hreleased)
  · obtain ⟨_, hstuck, j, hj⟩ := hwaiting
    obtain ⟨_, i, hi⟩ := stuck_released (sound_of_reaches hs) hstuck (by have := j.isLt; omega)
    have hsame : j = i := Fin.ext (by have := j.isLt; have := i.isLt; omega)
    rw [(hi j).mpr hsame] at hj
    cases hj

theorem second_server_waits :
    ¬ ∀ s : SignalState 2, Steps.Reaches SignalStep (.initial 2) s → ¬ s.LeavesWaiting := by
  intro hall
  refine hall _ (.tail (.tail (.tail (.tail (.tail (.tail (.tail (.tail (.tail .refl
    (.lock 0 rfl)) (.locked 0 rfl rfl)) (.lock 1 rfl)) (.send rfl)) (.changed 0 rfl (by decide))) (.forward 0 rfl))
    (.unlock 0 rfl)) (.receive 0 rfl rfl)) (.locked 1 rfl rfl)) ⟨rfl, fun s' h => ?_, 1, rfl⟩
  cases h with
  | send unsent => exact absurd unsent (by decide)
  | lock i task => revert i; decide
  | locked i task holder => revert i; decide
  | changed i task unseen => exact absurd rfl unseen
  | forward i task => revert i; decide
  | unlock i task => revert i; decide
  | receive i message waiting => revert i; decide

end WeaveGate.Server
