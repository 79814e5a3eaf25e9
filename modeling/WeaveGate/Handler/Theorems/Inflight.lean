import WeaveGate.Handler.Inflight
import WeaveGate.Handler.Theorems
import WeaveGate.Lib.Steps

/-!
# What the gauges show

The gauge of the connections counts the connections. The gauge of the requests counts those in progress until one is
dropped at an await point, or panics.
-/

namespace WeaveGate.Handler

open Http
open Static (Body)

variable {crates : Crates} {opts : RequestHandlerOpts} {remoteIp : Option Str}

/-! ## The block and the handler -/

theorem awaitReverseProxy_outcome (w : World) (req : Request Body) (next : World → HandleBlock) :
    (awaitReverseProxy crates opts remoteIp w req next).outcome w =
      (tryReverseProxy crates w opts remoteIp req).getD ((next w).outcome w) := by
  unfold awaitReverseProxy
  cases h : tryReverseProxy crates w opts remoteIp req with
  | none => rfl
  | some outcome => simp [HandleBlock.outcome, h]

theorem handleRoutedBlock_outcome (w : World) (req : Request Body) :
    (handleRoutedBlock crates opts remoteIp w req).outcome w = handleRouted crates w opts remoteIp req := by
  unfold handleRoutedBlock handleRouted
  cases redirectsPreProcess crates w opts req with
  | some resp => rfl
  | none =>
      dsimp only
      rcases rewritesPreProcess crates w opts req with ⟨_ | resp, req'⟩
      · cases opts.proxyFirst with
        | true => rfl
        | false => exact awaitReverseProxy_outcome w req' _
      · rfl

theorem handleBlock_outcome (w : World) (req : Request Body) :
    (handleBlock crates opts remoteIp w req).outcome w = handle crates w opts remoteIp req := by
  unfold handleBlock handle
  cases Static.isAllowed req.method with
  | false => rfl
  | true =>
      simp only [Bool.not_true, Bool.false_eq_true, if_false]
      cases (earlyStages crates w opts req).findSome? id with
      | some resp => rfl
      | none =>
          dsimp only
          cases opts.proxyFirst with
          | true =>
              simp only [if_true]
              rw [awaitReverseProxy_outcome, handleRoutedBlock_outcome]
          | false => exact handleRoutedBlock_outcome w req

theorem HandleBlock.outcome_run (block : HandleBlock) (w : World) (n : Nat) :
    (block.run (List.replicate n w)).outcome w = block.outcome w := by
  induction n generalizing block with
  | zero => cases block <;> rfl
  | succ n ih =>
      cases block with
      | returned outcome => rfl
      | awaiting point resume => exact ih (resume w)

/-- However it is suspended, the block returns the outcome of the handler, in a world that stays as it is. -/
theorem handleBlock_returned {w : World} {req : Request Body} {n : Nat} {outcome : Outcome}
    (h : (handleBlock crates opts remoteIp w req).run (List.replicate n w) = .returned outcome) :
    outcome = handle crates w opts remoteIp req := by
  have hrun := HandleBlock.outcome_run (handleBlock crates opts remoteIp w req) w n
  rw [h, handleBlock_outcome] at hrun
  exact hrun

/-! ## Futures that end without the decrement -/

def HandleBlock.panics : HandleBlock → Bool
  | .returned outcome => match outcome.result with
      | .error .panic => true
      | _ => false
  | .awaiting _ _ => false

/-- The event drops a suspended future, or polls a future that panics. -/
def ServiceEvent.abandons (crates : Crates) (opts : RequestHandlerOpts) (s : ServiceState) : ServiceEvent → Bool
  | .start k w worlds =>
      match s.futures[k]? with
      | some (.created req remoteIp) => ((handleBlock crates opts remoteIp w req).run worlds).panics
      | _ => false
  | .poll k worlds =>
      match s.futures[k]? with
      | some (.suspended point resume) => ((HandleBlock.awaiting point resume).run worlds).panics
      | _ => false
  | .drop k => s.futures[k]?.any HandleFuture.inProgress
  | _ => false

def ServiceState.inProgress (s : ServiceState) : Nat := s.futures.countP HandleFuture.inProgress

def ServiceState.openConnections (s : ServiceState) : Nat := s.services.countP RequestService.isOpen

/-- The decrement is left out for a future that is suspended or panics. -/
theorem finishHandle_gauge (h : opts.metricsEnabled = true) (g : Gauges) (block : HandleBlock) :
    (finishHandle opts g block).2.requestsInflight + 1 =
      g.requestsInflight + (finishHandle opts g block).1.inProgress.toNat + block.panics.toNat := by
  cases block with
  | awaiting point resume => simp [finishHandle, HandleFuture.inProgress, HandleBlock.panics]
  | returned outcome =>
      rcases hresult : outcome.result with (status | _) | resp <;>
        simp [finishHandle, HandleBlock.panics, HandleFuture.inProgress, hresult, h, Gauges.decRequestsInflight]

theorem finishHandle_gauge_off (h : opts.metricsEnabled = false) (g : Gauges) (block : HandleBlock) :
    (finishHandle opts g block).2 = g := by
  unfold finishHandle
  split
  · rfl
  · split
    · rfl
    · simp [h]

theorem startHandle_gauge (h : opts.metricsEnabled = true) (g : Gauges) (block : HandleBlock) :
    (startHandle opts g block).2.requestsInflight =
      g.requestsInflight + (startHandle opts g block).1.inProgress.toNat + block.panics.toNat := by
  have hfinish := finishHandle_gauge h g.incRequestsInflight block
  unfold startHandle
  rw [if_pos h]
  simp only [Gauges.incRequestsInflight] at hfinish ⊢
  omega

theorem ServiceState.inProgress_setFuture {s : ServiceState} {k : Nat} {future : HandleFuture}
    (h : s.futures[k]? = some future) (next : HandleFuture × Gauges) :
    (s.setFuture k next).inProgress + future.inProgress.toNat = s.inProgress + next.1.inProgress.toNat :=
  Steps.countP_set_add HandleFuture.inProgress h next.1

/-! ## One event -/

/-- How far the gauge is from the number of requests in progress. -/
def ServiceState.excess (s : ServiceState) : Int := s.gauges.requestsInflight - s.inProgress

theorem serviceStep_excess (h : opts.metricsEnabled = true) (s : ServiceState) (event : ServiceEvent) :
    (serviceStep crates opts s event).excess = s.excess + (event.abandons crates opts s).toNat := by
  cases event with
  | connect remoteAddr => simp [serviceStep, ServiceState.excess, ServiceEvent.abandons, ServiceState.inProgress,
      Gauges.incConnections]
  | disconnect conn =>
      unfold serviceStep
      dsimp only
      split
      · simp [ServiceState.excess, ServiceEvent.abandons, ServiceState.inProgress, Gauges.decConnections]
      · simp [ServiceEvent.abandons]
  | call conn req =>
      unfold serviceStep
      dsimp only
      split
      · simp [ServiceState.excess, ServiceEvent.abandons, ServiceState.inProgress, HandleFuture.inProgress]
      · simp [ServiceEvent.abandons]
  | start k w worlds =>
      simp only [serviceStep, ServiceEvent.abandons]
      cases hk : s.futures[k]? with
      | none => simp
      | some future =>
          cases future with
          | created req remoteIp =>
              have hgauge := startHandle_gauge h s.gauges ((handleBlock crates opts remoteIp w req).run worlds)
              have hcount := ServiceState.inProgress_setFuture hk
                (startHandle opts s.gauges ((handleBlock crates opts remoteIp w req).run worlds))
              simp only [ServiceState.excess, ServiceState.setFuture, HandleFuture.inProgress, Bool.toNat_false] at *
              omega
          | _ => simp
  | poll k worlds =>
      simp only [serviceStep, ServiceEvent.abandons]
      cases hk : s.futures[k]? with
      | none => simp
      | some future =>
          cases future with
          | suspended point resume =>
              have hgauge := finishHandle_gauge h s.gauges ((HandleBlock.awaiting point resume).run worlds)
              have hcount := ServiceState.inProgress_setFuture hk
                (finishHandle opts s.gauges ((HandleBlock.awaiting point resume).run worlds))
              simp only [ServiceState.excess, ServiceState.setFuture, HandleFuture.inProgress, Bool.toNat_true] at *
              omega
          | _ => simp
  | drop k =>
      simp only [serviceStep, ServiceEvent.abandons]
      cases hk : s.futures[k]? with
      | none => simp
      | some future =>
          have hcount := ServiceState.inProgress_setFuture hk (.dropped, s.gauges)
          cases future <;> simp [ServiceState.excess, ServiceState.setFuture, HandleFuture.inProgress] at hcount ⊢
          all_goals omega

theorem serviceStep_off (h : opts.metricsEnabled = false) (s : ServiceState) (event : ServiceEvent) :
    (serviceStep crates opts s event).gauges.requestsInflight = s.gauges.requestsInflight := by
  cases event with
  | connect remoteAddr => rfl
  | disconnect conn =>
      simp only [serviceStep]
      split <;> rfl
  | call conn req =>
      simp only [serviceStep]
      split <;> rfl
  | start k w worlds =>
      simp only [serviceStep]
      split
      · simp [ServiceState.setFuture, startHandle, finishHandle_gauge_off h, h]
      · rfl
  | poll k worlds =>
      simp only [serviceStep]
      split
      · simp [ServiceState.setFuture, finishHandle_gauge_off h]
      · rfl
  | drop k =>
      simp only [serviceStep]
      split <;> rfl

theorem finishHandle_connections (g : Gauges) (block : HandleBlock) :
    (finishHandle opts g block).2.connectionsActive = g.connectionsActive := by
  unfold finishHandle
  split
  · rfl
  · split
    · rfl
    · cases opts.metricsEnabled <;> rfl

theorem startHandle_connections (g : Gauges) (block : HandleBlock) :
    (startHandle opts g block).2.connectionsActive = g.connectionsActive := by
  unfold startHandle
  rw [finishHandle_connections]
  cases opts.metricsEnabled <;> rfl

theorem serviceStep_connections (s : ServiceState) (event : ServiceEvent)
    (h : s.gauges.connectionsActive = s.openConnections) :
    (serviceStep crates opts s event).gauges.connectionsActive = (serviceStep crates opts s event).openConnections := by
  unfold ServiceState.openConnections at *
  cases event with
  | connect remoteAddr => simp [serviceStep, Gauges.incConnections, h]
  | disconnect conn =>
      simp only [serviceStep]
      split
      · rename_i remoteAddr hconn
        have hcount := Steps.countP_set_add RequestService.isOpen hconn ⟨remoteAddr, false⟩
        simp only [Gauges.decConnections, Bool.toNat_true, Bool.toNat_false] at hcount ⊢
        omega
      · exact h
  | call conn req =>
      simp only [serviceStep]
      split <;> exact h
  | start k w worlds =>
      simp only [serviceStep]
      split
      · simpa [ServiceState.setFuture, startHandle_connections] using h
      · exact h
  | poll k worlds =>
      simp only [serviceStep]
      split
      · simpa [ServiceState.setFuture, finishHandle_connections] using h
      · exact h
  | drop k =>
      simp only [serviceStep]
      split <;> exact h

/-- The event is about the future of that place. -/
def ServiceEvent.isAbout (k : Nat) : ServiceEvent → Bool
  | .start k' _ _ => k' = k
  | .poll k' _ => k' = k
  | .drop k' => k' = k
  | _ => false

/-- Ended without an outcome. -/
def HandleFuture.isGone : HandleFuture → Bool
  | .panicked => true
  | .dropped => true
  | _ => false

theorem finishHandle_isGone (g : Gauges) (block : HandleBlock) : (finishHandle opts g block).1.isGone = block.panics := by
  cases block with
  | awaiting point resume => rfl
  | returned outcome =>
      rcases hresult : outcome.result with (status | _) | resp <;>
        simp [finishHandle, HandleBlock.panics, HandleFuture.isGone, hresult]

/-- The future of that place has ended without an outcome, 1 or 0. -/
def ServiceState.gone (s : ServiceState) (k : Nat) : Nat := (s.futures[k]?.any HandleFuture.isGone).toNat

theorem ServiceState.gone_setFuture {s : ServiceState} {k k' : Nat} {future : HandleFuture}
    (h : s.futures[k']? = some future) (hfuture : future.isGone = false) (next : HandleFuture × Gauges) {lost : Bool}
    (hlost : lost = true → next.1.isGone = true) :
    (lost && decide (k' = k)).toNat + s.gone k ≤ (s.setFuture k' next).gone k := by
  unfold gone setFuture
  by_cases hk : k' = k
  · subst hk
    rw [h, List.getElem?_set_self (List.getElem?_eq_some_iff.mp h).1, Option.any_some, Option.any_some, hfuture]
    cases lost with
    | false => simp
    | true => simp [hlost rfl]
  · rw [List.getElem?_set_ne hk]
    simp [hk]

/-- An event that abandons a future leaves it gone, and no event brings one back. -/
theorem serviceStep_gone (s : ServiceState) (event : ServiceEvent) (k : Nat) :
    (event.abandons crates opts s && event.isAbout k).toNat + s.gone k ≤
      (serviceStep crates opts s event).gone k := by
  cases event with
  | connect remoteAddr => simp [serviceStep, ServiceEvent.abandons, ServiceState.gone]
  | disconnect conn =>
      simp only [serviceStep, ServiceEvent.abandons]
      split <;> simp [ServiceState.gone]
  | call conn req =>
      simp only [serviceStep, ServiceEvent.abandons]
      split
      · unfold ServiceState.gone
        by_cases hk : k < s.futures.length
        · simp [List.getElem?_append_left hk]
        · simp [List.getElem?_eq_none (not_lt.mp hk)]
      · simp
  | start k' w worlds =>
      cases hk : s.futures[k']? with
      | none => simp [serviceStep, ServiceEvent.abandons, hk]
      | some future =>
          cases future with
          | created req remoteIp =>
              simp only [serviceStep, ServiceEvent.abandons, ServiceEvent.isAbout, hk]
              exact ServiceState.gone_setFuture hk rfl _ fun h => (finishHandle_isGone _ _).trans h
          | _ => simp [serviceStep, ServiceEvent.abandons, hk]
  | poll k' worlds =>
      cases hk : s.futures[k']? with
      | none => simp [serviceStep, ServiceEvent.abandons, hk]
      | some future =>
          cases future with
          | suspended point resume =>
              simp only [serviceStep, ServiceEvent.abandons, ServiceEvent.isAbout, hk]
              exact ServiceState.gone_setFuture hk rfl _ fun h => (finishHandle_isGone _ _).trans h
          | _ => simp [serviceStep, ServiceEvent.abandons, hk]
  | drop k' =>
      cases hk : s.futures[k']? with
      | none => simp [serviceStep, ServiceEvent.abandons, hk]
      | some future =>
          cases future with
          | created _ _ | suspended _ _ =>
              simp only [serviceStep, ServiceEvent.abandons, ServiceEvent.isAbout, hk]
              exact ServiceState.gone_setFuture hk rfl _ fun _ => rfl
          | _ => simp [serviceStep, ServiceEvent.abandons, HandleFuture.inProgress, hk]

/-! ## Runs -/

/-- What is abandoned stays in the gauge. -/
theorem final_excess (h : opts.metricsEnabled = true) (s : ServiceState) (events : List ServiceEvent) :
    (Run.final (serviceStep crates opts) s events).excess =
      s.excess + (Run.trace (serviceStep crates opts) s events).countP fun x => x.2.abandons crates opts x.1 := by
  induction events generalizing s with
  | nil => simp [Run.final, Run.trace]
  | cons event events ih =>
      have hrest := ih (serviceStep crates opts s event)
      rw [serviceStep_excess h] at hrest
      rw [Run.trace, List.countP_cons]
      change (Run.final (serviceStep crates opts) (serviceStep crates opts s event) events).excess = _
      rw [hrest]
      cases event.abandons crates opts s with
      | false => simp
      | true =>
          simp only [Bool.toNat_true, if_true]
          omega

theorem requestsInflight_off (h : opts.metricsEnabled = false) (events : List ServiceEvent) :
    (Run.final (serviceStep crates opts) .new events).gauges.requestsInflight = 0 :=
  (Run.invariant (C := fun _ _ => True) (I := fun s => s.gauges.requestsInflight = 0)
    (fun s event hs _ => (serviceStep_off h s event).trans hs) rfl fun _ _ => trivial).2

/-- In every run the gauge is the number of requests in progress as long as none of them was dropped at an await point
and none has panicked. Where metrics are off it stays at zero. -/
theorem requests_inflight_iff (crates : Crates) (opts : RequestHandlerOpts) (events : List ServiceEvent) :
    (Run.final (serviceStep crates opts) .new events).gauges.requestsInflight =
        (Run.final (serviceStep crates opts) .new events).inProgress ↔
      if opts.metricsEnabled then
        ∀ x ∈ Run.trace (serviceStep crates opts) .new events, x.2.abandons crates opts x.1 = false
      else (Run.final (serviceStep crates opts) .new events).inProgress = 0 := by
  cases h : opts.metricsEnabled with
  | true =>
      have hexcess : (Run.final (serviceStep crates opts) .new events).excess = ServiceState.new.excess + _ :=
        final_excess h .new events
      have hnew : ServiceState.new.excess = 0 := rfl
      rw [hnew, Int.zero_add, ServiceState.excess] at hexcess
      have hzero : (Run.final (serviceStep crates opts) .new events).gauges.requestsInflight =
          (Run.final (serviceStep crates opts) .new events).inProgress ↔
          (Run.trace (serviceStep crates opts) .new events).countP (fun x => x.2.abandons crates opts x.1) = 0 := by
        omega
      rw [hzero, List.countP_eq_zero, if_pos rfl]
      exact forall₂_congr fun x _ => Bool.not_eq_true _ ▸ Iff.rfl
  | false =>
      rw [requestsInflight_off h, if_neg Bool.false_ne_true]
      omega

/-- What the gauges show of a run: the connections, and the requests in progress with those that were abandoned. -/
structure AccountsGauges (crates : Crates) (opts : RequestHandlerOpts) (events : List ServiceEvent) : Prop where
  connections : (Run.final (serviceStep crates opts) .new events).gauges.connectionsActive =
    (Run.final (serviceStep crates opts) .new events).openConnections
  inflight : (Run.final (serviceStep crates opts) .new events).gauges.requestsInflight =
    if opts.metricsEnabled then ((Run.final (serviceStep crates opts) .new events).inProgress : Int) +
      (Run.trace (serviceStep crates opts) .new events).countP fun x => x.2.abandons crates opts x.1
    else 0
  /-- No request is abandoned twice. -/
  once : ∀ k, ((Run.trace (serviceStep crates opts) .new events).countP fun x =>
    x.2.abandons crates opts x.1 && x.2.isAbout k) ≤ 1

theorem gauges_account (crates : Crates) (opts : RequestHandlerOpts) (events : List ServiceEvent) :
    AccountsGauges crates opts events := by
  refine ⟨?_, ?_, fun k => ?_⟩
  · exact (Run.invariant (C := fun _ _ => True) (fun s event h _ => serviceStep_connections s event h) rfl
      fun _ _ => trivial).2
  · cases h : opts.metricsEnabled with
    | true =>
        have hexcess : (Run.final (serviceStep crates opts) .new events).excess = ServiceState.new.excess + _ :=
          final_excess h .new events
        have hnew : ServiceState.new.excess = 0 := rfl
        rw [hnew, Int.zero_add, ServiceState.excess] at hexcess
        rw [if_pos rfl]
        omega
    | false => exact requestsInflight_off h events
  · have hgone := Run.countP_trace_add_le (p := fun x => x.2.abandons crates opts x.1 && x.2.isAbout k)
      (f := fun s => s.gone k) (fun s event => serviceStep_gone s event k) .new events
    have hle : (Run.final (serviceStep crates opts) .new events).gone k ≤ 1 := Bool.toNat_le _
    omega

/-- A client goes away while the upstream is waited for. -/
def clientGone : List ServiceEvent :=
  [.connect none, .call 0 (sampleRequest .get), .start 0 sampleWorld [], .drop 0, .disconnect 0]

theorem gauge_counts_dropped :
    (Run.final (serviceStep sampleCrates { sampleOpts with metricsEnabled := true }) .new clientGone).gauges =
      ⟨1, 0⟩ ∧
    (Run.final (serviceStep sampleCrates { sampleOpts with metricsEnabled := true }) .new clientGone).inProgress =
      0 ∧
    ¬ ∀ events, (Run.final (serviceStep sampleCrates { sampleOpts with metricsEnabled := true }) .new
        events).gauges.requestsInflight =
      (Run.final (serviceStep sampleCrates { sampleOpts with metricsEnabled := true }) .new events).inProgress := by
  have hgauges : (Run.final (serviceStep sampleCrates { sampleOpts with metricsEnabled := true }) .new
      clientGone).gauges = ⟨1, 0⟩ := by decide +kernel
  have hnone : (Run.final (serviceStep sampleCrates { sampleOpts with metricsEnabled := true }) .new
      clientGone).inProgress = 0 := by decide +kernel
  refine ⟨hgauges, hnone, fun h => ?_⟩
  have heq := h clientGone
  rw [hgauges, hnone] at heq
  exact absurd heq (by decide)

end WeaveGate.Handler
