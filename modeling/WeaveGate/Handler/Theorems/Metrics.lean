import WeaveGate.Handler.Metrics
import WeaveGate.Handler.Theorems.Inflight

/-!
# What the counters show

However the futures run side by side, each label's counters show the requests that ended with a response under it, their
lengths and how long they took. A future that was dropped or has panicked is not counted.
-/

namespace WeaveGate.Handler

open Http
open Static (Body)

variable {crates : Crates} {opts : RequestHandlerOpts} {remoteIp : Option Str}

/-! ## What is recorded -/

structure Recording where
  labels : MetricLabels
  bytes : Nat
  elapsed : Nat

def Metered.recording (m : Metered) (resp : Response Body) : Option Recording :=
  if m.req.uri.path = "/metrics".toList then none
  else some ⟨metricLabels m.req resp.status, responseBytes resp, m.elapsed⟩

/-- For each request what is recorded of it. -/
def MeteredState.entries (s : MeteredState) : List (Option Recording) :=
  List.zipWith (fun m future => future.response?.bind m.recording) s.metered s.service.futures

/-- What was recorded under some labels. -/
def MeteredState.recordings (s : MeteredState) (labels : MetricLabels) : List Recording :=
  (s.entries.filterMap id).filter fun r => r.labels = labels

def Recording.add (r : Recording) (m : Metrics) : Metrics :=
  { httpRequestsTotal := Metrics.withLabelValues m.httpRequestsTotal 0 r.labels (· + 1)
    httpRequestDurationSeconds := Metrics.withLabelValues m.httpRequestDurationSeconds .new r.labels (·.observe r.elapsed)
    httpResponseBytesTotal := if r.bytes = 0 then m.httpResponseBytesTotal
      else Metrics.withLabelValues m.httpResponseBytesTotal 0 r.labels (· + UInt64.ofNat r.bytes) }

theorem recordRequest_eq (m : Metered) (resp : Response Body) (metrics : Metrics) :
    recordRequest m.req resp.status (responseBytes resp) m.elapsed metrics =
      (m.recording resp).elim metrics (·.add metrics) := by
  unfold recordRequest Metered.recording
  split <;> rfl

/-! ## One event -/

theorem zipWith_set {α β γ : Type} (f : α → β → γ) (as : List α) (bs : List β) (k : Nat) (a : α) (b : β) :
    List.zipWith f (as.set k a) (bs.set k b) = (List.zipWith f as bs).set k (f a b) := by
  induction as generalizing bs k with
  | nil => simp
  | cons a' as ih =>
      cases bs with
      | nil => simp
      | cons b' bs =>
          cases k with
          | zero => simp
          | succ k => simp [ih]

/-- What an event does to the entries: nothing, a new one without a recording, or a recording in an entry that had
none. -/
inductive Records (s s' : MeteredState) : Prop where
  | same (entries : s'.entries = s.entries) (metrics : s'.metrics = s.metrics)
  | arrived (entries : s'.entries = s.entries ++ [none]) (metrics : s'.metrics = s.metrics)
  | ended (k : Nat) (r : Recording) (vacant : s.entries[k]? = some none) (entries : s'.entries = s.entries.set k (some r))
      (metrics : s'.metrics = r.add s.metrics)

def MeteredState.Aligned (s : MeteredState) : Prop := s.metered.length = s.service.futures.length

theorem set_self {α : Type} {l : List α} {k : Nat} {a : α} (h : l[k]? = some a) : l.set k a = l := by
  obtain ⟨hk, rfl⟩ := List.getElem?_eq_some_iff.mp h
  exact List.set_getElem_self hk

theorem entries_vacant {s : MeteredState} {k : Nat} {m : Metered} {future : HandleFuture} (hm : s.metered[k]? = some m)
    (hfuture : s.service.futures[k]? = some future) (hnone : future.response? = none) :
    s.entries[k]? = some none := by
  simp [MeteredState.entries, List.getElem?_zipWith, hm, hfuture, hnone]

/-- A future that has no response yet is polled and becomes the given one. -/
theorem finish_records (h : opts.metricsEnabled = true) {s : MeteredState} (haligned : s.Aligned) {k : Nat} {m : Metered}
    {old : HandleFuture} (hm : s.metered[k]? = some m) (hold : s.service.futures[k]? = some old)
    (hnone : old.response? = none) (m' : Metered) (now : Nat) (next : HandleFuture × Gauges) :
    Records s (({ s with service := s.service.setFuture k next } : MeteredState).finish opts k m' now) ∧
      (({ s with service := s.service.setFuture k next } : MeteredState).finish opts k m' now).Aligned := by
  have hvacant := entries_vacant hm hold hnone
  have hlength : s.metered.length = s.service.futures.length := haligned
  have hnext : (s.service.setFuture k next).futures[k]? = some next.1 := by
    simp [ServiceState.setFuture, (List.getElem?_eq_some_iff.mp hold).1]
  unfold MeteredState.finish MeteredState.Aligned
  simp only [hnext, Option.bind_some]
  cases hresp : next.1.response? with
  | none =>
      refine ⟨.same ?_ rfl, by simpa [ServiceState.setFuture] using hlength⟩
      simp only [MeteredState.entries, ServiceState.setFuture, zipWith_set, hresp, Option.bind_none]
      exact set_self hvacant
  | some resp =>
      refine ⟨?_, by simpa [ServiceState.setFuture] using hlength⟩
      have hrecord := recordRequest_eq { m' with elapsed := now - m'.reqStart } resp s.metrics
      simp only [h, if_true]
      cases hrec : ({ m' with elapsed := now - m'.reqStart } : Metered).recording resp with
      | none =>
          rw [hrec] at hrecord
          refine .same ?_ hrecord
          simp only [MeteredState.entries, ServiceState.setFuture, zipWith_set, hresp, Option.bind_some, hrec]
          exact set_self hvacant
      | some r =>
          rw [hrec] at hrecord
          refine .ended k r hvacant ?_ hrecord
          simp only [MeteredState.entries, ServiceState.setFuture, zipWith_set, hresp, Option.bind_some, hrec]

theorem MeteredState.Aligned.exists_metered {s : MeteredState} (h : s.Aligned) {k : Nat} {future : HandleFuture}
    (hfuture : s.service.futures[k]? = some future) : ∃ m, s.metered[k]? = some m :=
  ⟨_, List.getElem?_eq_getElem (h ▸ (List.getElem?_eq_some_iff.mp hfuture).1)⟩

theorem drop_entries {s : MeteredState} (haligned : s.Aligned) {k : Nat} {old : HandleFuture}
    (hold : s.service.futures[k]? = some old) (hnone : old.response? = none) :
    Records s { s with service := s.service.setFuture k (.dropped, s.service.gauges) } ∧
      ({ s with service := s.service.setFuture k (.dropped, s.service.gauges) } : MeteredState).Aligned := by
  have hlength : s.metered.length = s.service.futures.length := haligned
  obtain ⟨m, hm⟩ := haligned.exists_metered hold
  refine ⟨.same ?_ rfl, by simpa [MeteredState.Aligned, ServiceState.setFuture] using hlength⟩
  have hset := zipWith_set (fun (m : Metered) (future : HandleFuture) => future.response?.bind m.recording) s.metered
    s.service.futures k m .dropped
  rw [set_self hm] at hset
  exact hset.trans (set_self (entries_vacant hm hold hnone))

theorem meteredStep_records (crates : Crates) (h : opts.metricsEnabled = true) {s : MeteredState} (haligned : s.Aligned)
    (e : MeteredEvent) : Records s (meteredStep crates opts s e) ∧ (meteredStep crates opts s e).Aligned := by
  obtain ⟨event, now⟩ := e
  have hquiet : ∀ service : ServiceState, service.futures = s.service.futures →
      Records s { s with service } ∧ ({ s with service } : MeteredState).Aligned := by
    intro service hservice
    exact ⟨.same (by simp [MeteredState.entries, hservice]) rfl, by simpa [MeteredState.Aligned, hservice] using haligned⟩
  cases event with
  | connect remoteAddr => exact hquiet _ rfl
  | disconnect conn =>
      apply hquiet
      simp only [serviceStep]
      split <;> rfl
  | call conn req =>
      simp only [meteredStep, serviceStep]
      cases hconn : s.service.services[conn]? with
      | none => exact hquiet _ rfl
      | some service =>
          obtain ⟨remoteAddr, isOpen⟩ := service
          cases isOpen with
          | false => exact hquiet _ rfl
          | true =>
              refine ⟨.arrived ?_ rfl, by simpa [MeteredState.Aligned] using haligned⟩
              simp [MeteredState.entries, List.zipWith_append haligned, HandleFuture.response?]
  | start k w worlds =>
      simp only [meteredStep, serviceStep]
      cases hk : s.service.futures[k]? with
      | none => exact hquiet _ rfl
      | some future =>
          cases future with
          | created req remoteIp =>
              obtain ⟨m, hm⟩ := haligned.exists_metered hk
              simp only [hm]
              exact finish_records h haligned hm hk rfl _ now _
          | _ => exact hquiet _ rfl
  | poll k worlds =>
      simp only [meteredStep, serviceStep]
      cases hk : s.service.futures[k]? with
      | none => exact hquiet _ rfl
      | some future =>
          cases future with
          | suspended point resume =>
              obtain ⟨m, hm⟩ := haligned.exists_metered hk
              simp only [hm]
              exact finish_records h haligned hm hk rfl m now _
          | _ => exact hquiet _ rfl
  | drop k =>
      simp only [meteredStep, serviceStep]
      cases hk : s.service.futures[k]? with
      | none => exact hquiet _ rfl
      | some future =>
          cases future with
          | created req remoteIp => exact drop_entries haligned hk rfl
          | suspended point resume => exact drop_entries haligned hk rfl
          | _ => exact hquiet _ rfl

/-! ## The collectors of some labels -/

theorem withLabelValues_getD {α : Type} (vec : Multimap MetricLabels α) (new : α) (labels labels' : MetricLabels)
    (f : α → α) : ((Metrics.withLabelValues vec new labels f).get? labels').getD new =
      if labels = labels' then f ((vec.get? labels').getD new) else (vec.get? labels').getD new := by
  unfold Metrics.withLabelValues
  rw [Multimap.get?_insert]
  split
  · rename_i h
    rw [h, Option.getD_some]
  · rfl

/-- The collectors of some labels show what was recorded under them. The counters are 64 bits wide. -/
structure Accounts (m : Metrics) (labels : MetricLabels) (recordings : List Recording) : Prop where
  total : (m.httpRequestsTotal.get? labels).getD 0 = UInt64.ofNat recordings.length
  bytes : (m.httpResponseBytesTotal.get? labels).getD 0 = UInt64.ofNat (recordings.map (·.bytes)).sum
  count : ((m.httpRequestDurationSeconds.get? labels).getD .new).count = recordings.length
  buckets : ((m.httpRequestDurationSeconds.get? labels).getD .new).cumulative =
    latencyBuckets.map fun bound => recordings.countP fun r => r.elapsed ≤ bound

theorem Accounts.perm {m : Metrics} {labels : MetricLabels} {recordings recordings' : List Recording}
    (h : Accounts m labels recordings) (hperm : recordings.Perm recordings') : Accounts m labels recordings' where
  total := by rw [h.total, hperm.length_eq]
  bytes := by rw [h.bytes, (hperm.map _).sum_nat]
  count := by rw [h.count, hperm.length_eq]
  buckets := by
    rw [h.buckets]
    exact List.map_congr_left fun bound _ => hperm.countP_eq _

theorem Accounts.new (labels : MetricLabels) : Accounts .new labels [] where
  total := rfl
  bytes := rfl
  count := rfl
  buckets := by
    change DurationHistogram.new.cumulative = _
    decide

/-- The bytes are counted as if a length of zero were added too. -/
theorem Recording.add_bytes (r : Recording) (m : Metrics) (labels : MetricLabels) :
    ((r.add m).httpResponseBytesTotal.get? labels).getD 0 = (m.httpResponseBytesTotal.get? labels).getD 0 +
      if r.labels = labels then UInt64.ofNat r.bytes else 0 := by
  simp only [Recording.add]
  by_cases hbytes : r.bytes = 0
  · simp [hbytes]
  · rw [if_neg hbytes, withLabelValues_getD]
    split
    · rfl
    · simp

theorem Accounts.add {m : Metrics} {labels : MetricLabels} {recordings : List Recording}
    (h : Accounts m labels recordings) (r : Recording) :
    Accounts (r.add m) labels (([r].filter fun r => r.labels = labels) ++ recordings) := by
  by_cases hlabels : r.labels = labels
  · have hfilter : ([r].filter fun r => r.labels = labels) ++ recordings = r :: recordings := by simp [hlabels]
    rw [hfilter]
    refine ⟨?_, ?_, ?_, ?_⟩
    · simp only [Recording.add, withLabelValues_getD, if_pos hlabels, h.total]
      simp
    · rw [Recording.add_bytes, if_pos hlabels, h.bytes]
      simp [UInt64.add_comm]
    · simp only [Recording.add, withLabelValues_getD, if_pos hlabels, DurationHistogram.observe, h.count]
      simp
    · simp only [Recording.add, withLabelValues_getD, if_pos hlabels, DurationHistogram.observe,
        DurationHistogram.cumulative]
      rw [Histogram.cumulative_observe latencyBuckets_sorted h.buckets]
      exact List.map_congr_left fun bound _ => by
        rw [List.countP_cons]
        by_cases hle : r.elapsed ≤ bound <;> simp [hle]
  · have hfilter : ([r].filter fun r => r.labels = labels) ++ recordings = recordings := by simp [hlabels]
    rw [hfilter]
    refine ⟨?_, ?_, ?_, ?_⟩
    · simpa only [Recording.add, withLabelValues_getD, if_neg hlabels] using h.total
    · rw [Recording.add_bytes, if_neg hlabels, h.bytes]
      simp
    · simpa only [Recording.add, withLabelValues_getD, if_neg hlabels] using h.count
    · simpa only [Recording.add, withLabelValues_getD, if_neg hlabels] using h.buckets

/-! ## Runs -/

theorem filterMap_set_perm {entries : List (Option Recording)} {k : Nat} (h : entries[k]? = some none) (r : Recording) :
    ((entries.set k (some r)).filterMap id).Perm (r :: entries.filterMap id) := by
  induction entries generalizing k with
  | nil => simp at h
  | cons entry entries ih =>
      cases k with
      | zero =>
          simp only [List.getElem?_cons_zero, Option.some.injEq] at h
          simp [h]
      | succ k =>
          have hrest := ih (by simpa using h)
          cases entry with
          | none => simpa using hrest
          | some r' => simpa using (hrest.cons r').trans (List.Perm.swap r r' _)

theorem Records.accounts {s s' : MeteredState} (h : Records s s') {labels : MetricLabels}
    (hs : Accounts s.metrics labels (s.recordings labels)) : Accounts s'.metrics labels (s'.recordings labels) := by
  cases h with
  | same entries metrics => rwa [metrics, MeteredState.recordings, entries]
  | arrived entries metrics =>
      rw [metrics, MeteredState.recordings, entries]
      simpa [MeteredState.recordings] using hs
  | ended k r vacant entries metrics =>
      rw [metrics, MeteredState.recordings, entries]
      refine (hs.add r).perm ?_
      have hperm := (filterMap_set_perm vacant r).filter fun r => r.labels = labels
      rw [← List.singleton_append, List.filter_append] at hperm
      exact hperm.symm

/-- In every run each label's collectors show the requests that have ended with a response under it, each once: their
number, the sum of their lengths, and for each bound how many took no longer. -/
theorem metrics_account (crates : Crates) (h : opts.metricsEnabled = true) (events : List MeteredEvent)
    (labels : MetricLabels) :
    Accounts (Run.final (meteredStep crates opts) .new events).metrics labels
      ((Run.final (meteredStep crates opts) .new events).recordings labels) := by
  have hkeep : ∀ s e, (s.Aligned ∧ Accounts s.metrics labels (s.recordings labels)) → True →
      (meteredStep crates opts s e).Aligned ∧
        Accounts (meteredStep crates opts s e).metrics labels ((meteredStep crates opts s e).recordings labels) := by
    intro s e hs _
    obtain ⟨hrecords, haligned⟩ := meteredStep_records crates h hs.1 e
    exact ⟨haligned, hrecords.accounts hs.2⟩
  have hnew : MeteredState.new.Aligned ∧ Accounts MeteredState.new.metrics labels (MeteredState.new.recordings labels) :=
    ⟨rfl, Accounts.new labels⟩
  exact (Run.invariant hkeep hnew fun _ _ => trivial).2.2

def meteredOpts : RequestHandlerOpts := { sampleOpts with metricsEnabled := true }

/-- A refused request, and one whose client goes away while the upstream is waited for. -/
def refusedAndGone : List MeteredEvent :=
  [⟨.connect none, 0⟩, ⟨.call 0 (sampleRequest .post), 10⟩, ⟨.call 0 (sampleRequest .get), 20⟩,
    ⟨.start 1 sampleWorld [], 30⟩, ⟨.start 0 sampleWorld [], 40⟩, ⟨.drop 1, 50⟩]

theorem metrics_account_refused :
    Accounts (Run.final (meteredStep sampleCrates meteredOpts) .new refusedAndGone).metrics
        ⟨"POST".toList, "4xx".toList, []⟩
        ((Run.final (meteredStep sampleCrates meteredOpts) .new refusedAndGone).recordings
          ⟨"POST".toList, "4xx".toList, []⟩) ∧
      ((Run.final (meteredStep sampleCrates meteredOpts) .new refusedAndGone).entries.map Option.isSome) =
        [true, false] :=
  ⟨metrics_account sampleCrates rfl refusedAndGone _, by decide +kernel⟩

end WeaveGate.Handler
