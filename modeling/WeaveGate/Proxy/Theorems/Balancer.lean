import WeaveGate.Lib.RoundRobin
import WeaveGate.Lib.Run
import WeaveGate.Settings.Types

/-!
# Fairness of the balancer

The callers of `next_index` share the counter of the balancer. A call is one `fetch_add` and a remainder that
touches nothing shared, so an interleaving is the order in which the callers increment the counter.
-/

namespace WeaveGate.Proxy

open Settings

variable {ι : Type}

/-! ## Concurrent callers -/

/-- The counter, and what the calls picked so far, in the order of the increments. -/
structure BalancerState (ι : Type) where
  next : Nat
  picks : List (ι × Nat)

def BalancerState.new : BalancerState ι := ⟨0, []⟩

/-- One caller increments the counter. -/
def callNextIndex (bits : Nat) (b : ProxyBalancer) (s : BalancerState ι) (caller : ι) : BalancerState ι :=
  ⟨(b.nextIndex bits s.next).2, s.picks ++ [(caller, (b.nextIndex bits s.next).1)]⟩

/-- The picks of all callers, when they increment the counter in the order of the schedule. -/
def schedulePicks (bits : Nat) (b : ProxyBalancer) (schedule : List ι) : List Nat :=
  (Run.final (callNextIndex bits b) BalancerState.new schedule).picks.map Prod.snd

/-- After `k` calls the counter is `k` modulo its size, whoever called. -/
structure CountsCalls (bits : Nat) (b : ProxyBalancer) (k : Nat) (s : BalancerState ι) : Prop where
  next : s.next = k % 2 ^ bits
  picks : s.picks.map Prod.snd = RoundRobin.picks b.targets.length (2 ^ bits) k

theorem CountsCalls.call {bits k : Nat} {b : ProxyBalancer} {s : BalancerState ι} (h : CountsCalls bits b k s)
    (caller : ι) : CountsCalls bits b (k + 1) (callNextIndex bits b s caller) where
  next := by
    simp only [callNextIndex, ProxyBalancer.nextIndex, h.next, Nat.mod_add_mod]
  picks := by
    simp only [callNextIndex, ProxyBalancer.nextIndex, h.next, List.map_append, h.picks, RoundRobin.picks,
      List.range_succ, List.map_cons, List.map_nil]

theorem CountsCalls.run {bits k : Nat} {b : ProxyBalancer} {s : BalancerState ι} (h : CountsCalls bits b k s)
    (schedule : List ι) :
    CountsCalls bits b (k + schedule.length) (Run.final (callNextIndex bits b) s schedule) := by
  induction schedule generalizing k s with
  | nil => exact h
  | cons caller schedule ih =>
      have hrest := ih (h.call caller)
      rwa [Nat.add_assoc, Nat.add_comm 1] at hrest

theorem schedulePicks_eq (bits : Nat) (b : ProxyBalancer) (schedule : List ι) :
    schedulePicks bits b schedule = RoundRobin.picks b.targets.length (2 ^ bits) schedule.length := by
  have hnew : CountsCalls bits b 0 (BalancerState.new : BalancerState ι) := ⟨by simp [BalancerState.new], rfl⟩
  have hrun := (hnew.run schedule).picks
  rwa [Nat.zero_add] at hrun

/-! ## Fairness -/

theorem schedulePicks_fair_iff (bits : Nat) (b : ProxyBalancer) (schedule : List ι) :
    RoundRobin.Fair b.targets.length (schedulePicks bits b schedule) ↔
      schedule.length ≤ 2 ^ bits ∨ b.targets.length ∣ 2 ^ bits := by
  rw [schedulePicks_eq]
  exact RoundRobin.fair_picks_iff (List.length_pos_iff.mpr b.nonempty) (Nat.two_pow_pos bits)

def upstreamAt (host : String) : Http.Uri := ⟨some "http".toList, some host.toList, none⟩

def threeUpstreams : ProxyBalancer := ⟨none, [upstreamAt "a", upstreamAt "b", upstreamAt "c"], List.cons_ne_nil _ _⟩

/-- On a 32-bit target, 2^32 is no multiple of three: the first upstream is picked twice in a row. -/
theorem unfair_over_wrap :
    ¬ RoundRobin.Fair 3 (schedulePicks 32 threeUpstreams (List.replicate (2 ^ 32 + 1) "client")) := by
  rw [schedulePicks_eq, List.length_replicate]
  exact RoundRobin.not_fair_of_lt (Nat.lt_succ_self _) (by decide) (by decide) (by decide)

end WeaveGate.Proxy
