import WeaveGate.Handler.Inflight
import WeaveGate.Lib.Histogram

/-!
# Counters

`metrics.rs` where it counts requests: `record_request`, which `handle` calls behind its inner block, and the futures
of `handle` as they run beside the collectors.
-/

namespace WeaveGate.Handler

open Http
open Static (Body)

/-! ## The collectors -/

structure MetricLabels where
  method : Str
  status : Str
  host : Str
deriving DecidableEq

def statusClass (code : Nat) : Str :=
  match code / 100 with
  | 1 => "1xx".toList
  | 2 => "2xx".toList
  | 3 => "3xx".toList
  | 4 => "4xx".toList
  | _ => "5xx".toList

/-- `LATENCY_BUCKETS` in nanoseconds. -/
def latencyBuckets : List Nat :=
  [50000, 100000, 250000, 500000, 1000000, 2500000, 5000000, 10000000, 25000000, 50000000, 100000000, 250000000,
    500000000, 1000000000, 2500000000, 5000000000, 10000000000]

theorem latencyBuckets_sorted : latencyBuckets.Pairwise (· ≤ ·) := by decide

/-- How many requests took how long. -/
structure DurationHistogram where
  buckets : List Nat
  count : Nat
deriving DecidableEq

namespace DurationHistogram

def new : DurationHistogram := ⟨latencyBuckets.map fun _ => 0, 0⟩

def observe (h : DurationHistogram) (elapsed : Nat) : DurationHistogram :=
  { buckets := Histogram.observe latencyBuckets elapsed h.buckets, count := h.count + 1 }

/-- The buckets as they are shown. -/
def cumulative (h : DurationHistogram) : List Nat := Histogram.cumulative 0 h.buckets

end DurationHistogram

/-- The vectors of collectors. One that has not been asked for yet is not there. -/
structure Metrics where
  httpRequestsTotal : Multimap MetricLabels UInt64
  httpRequestDurationSeconds : Multimap MetricLabels DurationHistogram
  httpResponseBytesTotal : Multimap MetricLabels UInt64

namespace Metrics

def new : Metrics := ⟨[], [], []⟩

/-- `with_label_values`, and what is done to the collector. -/
def withLabelValues {α : Type} (vec : Multimap MetricLabels α) (new : α) (labels : MetricLabels) (f : α → α) :
    Multimap MetricLabels α :=
  vec.insert labels (f ((vec.get? labels).getD new))

end Metrics

/-! ## `record_request` -/

variable {β : Type}

def metricLabels (req : Request β) (status : StatusCode) : MetricLabels :=
  { method := req.method.asStr, status := statusClass status.code
    host := ((req.headers.get? .host).bind HeaderValue.toStr).getD [] }

def recordRequest (req : Request β) (status : StatusCode) (bytes elapsed : Nat) (m : Metrics) : Metrics :=
  if req.uri.path = "/metrics".toList then m
  else
    let labels := metricLabels req status
    { httpRequestsTotal := Metrics.withLabelValues m.httpRequestsTotal 0 labels (· + 1)
      httpRequestDurationSeconds :=
        Metrics.withLabelValues m.httpRequestDurationSeconds .new labels (·.observe elapsed)
      httpResponseBytesTotal :=
        if bytes = 0 then m.httpResponseBytesTotal
        else Metrics.withLabelValues m.httpResponseBytesTotal 0 labels (· + UInt64.ofNat bytes) }

/-- The `Content-Length` of a response, zero where there is none that can be read. -/
def responseBytes (resp : Response Body) : Nat :=
  (((resp.headers.get? .contentLength).bind HeaderValue.toStr).bind (Text.parseUnsigned (2 ^ 64 - 1))).getD 0

/-! ## The request behind the inner block -/

/-- The request as the inner block leaves it, whose URI and `Host` a rewrite may have replaced. Its body, which the
proxy takes, is not looked at. The world does not matter, so it is the same behind every await point. -/
def leftRequest (crates : Crates) (w : World) (opts : RequestHandlerOpts) (remoteIp : Option Str)
    (req : Request Body) : Request Body :=
  if !Static.isAllowed req.method then req
  else if ((earlyStages crates w opts req).findSome? id).isSome then req
  else if opts.proxyFirst && (tryReverseProxy crates w opts remoteIp req).isSome then req
  else if (redirectsPreProcess crates w opts req).isSome then req
  else (rewritesPreProcess crates w opts req).2

/-! ## Futures beside the collectors -/

/-- What the future of a request holds besides its state. Times are in nanoseconds. -/
structure Metered where
  req : Request Body
  reqStart : Nat
  /-- What was measured at its end. Nothing reads it. -/
  elapsed : Nat

structure MeteredState where
  service : ServiceState
  metered : List Metered
  metrics : Metrics

def MeteredState.new : MeteredState := ⟨.new, [], .new⟩

/-- An event, and the time on the clock when it comes. -/
structure MeteredEvent where
  event : ServiceEvent
  now : Nat

def HandleFuture.response? : HandleFuture → Option (Response Body)
  | .completed outcome => outcome.result.toOption
  | _ => none

section

variable (crates : Crates) (opts : RequestHandlerOpts)

/-- The part of `handle` behind its inner block, for a future that was just polled. -/
def MeteredState.finish (s : MeteredState) (k : Nat) (m : Metered) (now : Nat) : MeteredState :=
  let m := { m with elapsed := now - m.reqStart }
  match (s.service.futures[k]?).bind HandleFuture.response? with
  | none => { s with metered := s.metered.set k m }
  | some resp =>
      { s with
        metered := s.metered.set k m
        metrics := if opts.metricsEnabled then recordRequest m.req resp.status (responseBytes resp) m.elapsed s.metrics
          else s.metrics }

def meteredStep (s : MeteredState) (e : MeteredEvent) : MeteredState :=
  let next := { s with service := serviceStep crates opts s.service e.event }
  match e.event with
  | .call conn req =>
      match s.service.services[conn]? with
      | some ⟨_, true⟩ => { next with metered := s.metered ++ [⟨req, e.now, 0⟩] }
      | _ => next
  | .start k w _ =>
      match s.service.futures[k]?, s.metered[k]? with
      | some (.created req remoteIp), some m =>
          next.finish opts k { m with req := leftRequest crates w opts remoteIp req, reqStart := e.now } e.now
      | _, _ => next
  | .poll k _ =>
      match s.service.futures[k]?, s.metered[k]? with
      | some (.suspended _ _), some m => next.finish opts k m e.now
      | _, _ => next
  | _ => next

end

end WeaveGate.Handler
