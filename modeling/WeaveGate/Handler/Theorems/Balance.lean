import WeaveGate.Handler.Balance
import WeaveGate.Lib.RoundRobin
import WeaveGate.Proxy.Theorems.Balancer
import WeaveGate.Proxy.Theorems.Targets

/-!
# The upstreams of a rule take turns

In every run of the handler, whatever requests come in between.
-/

namespace WeaveGate.Proxy

open Http Settings

variable {β : Type} {globs : GlobSet} {proxies : Option (List ProxyRule)} {proxyClient : Option (HttpClient β)}
  {permits : Option Nat} {req : Request β}

/-- The rule that the request is forwarded by is the one whose balancer is asked. -/
theorem findRule_of_asked {k : Nat} (h : balancerAsked globs proxies proxyClient permits req = some k) :
    ∃ rules rule client, proxies = some rules ∧ rules[k]? = some rule ∧ findRule globs proxies req = some rule ∧
      proxyClient = some client ∧ ¬ (isProtocolUpgrade req = true ∧ permits = some 0) := by
  obtain ⟨rules, hrules, h⟩ := Option.bind_eq_some_iff.mp h
  obtain ⟨host, hhost, h⟩ := Option.bind_eq_some_iff.mp h
  obtain ⟨k', hidx, h⟩ := Option.bind_eq_some_iff.mp h
  obtain ⟨client, hclient, h⟩ := Option.bind_eq_some_iff.mp h
  split at h
  · cases h
  · rename_i hfull
    cases h
    have hk := (List.findIdx?_eq_some_iff_getElem.mp hidx).1
    refine ⟨rules, rules[k], client, hrules, List.getElem?_eq_getElem hk, ?_, hclient, hfull⟩
    unfold findRule
    simp only [hrules, hhost, Option.bind_eq_bind, Option.bind_some, List.find?_eq_bind_findIdx?_getElem?, hidx,
      List.getElem?_eq_getElem hk]

theorem asked_of_findRule {rule : ProxyRule} {client : HttpClient β} (hrule : findRule globs proxies req = some rule)
    (h : balancerAsked globs proxies (some client) permits req = none) :
    isProtocolUpgrade req = true ∧ permits = some 0 := by
  obtain ⟨rules, hrules, hrule⟩ := Option.bind_eq_some_iff.mp hrule
  obtain ⟨host, hhost, hrule⟩ := Option.bind_eq_some_iff.mp hrule
  have hidx : (rules.findIdx? (ruleMatches globs host req.uri.path)).isSome = true := by
    rw [List.findIdx?_isSome, List.any_eq_true]
    exact ⟨rule, List.mem_of_find?_eq_some hrule, List.find?_some hrule⟩
  obtain ⟨k, hk⟩ := Option.isSome_iff_exists.mp hidx
  unfold balancerAsked at h
  simp only [Option.bind_eq_bind, hrules, hhost, Option.bind_some, hk] at h
  split at h
  · assumption
  · cases h

/-- Where no balancer is asked, nothing is sent, and the answer is the same for every ticket. -/
theorem preProcess_of_not_asked (parseUri : Str → Option Uri) (empty : β) (remoteIp : Option Str)
    (h : balancerAsked globs proxies proxyClient permits req = none) (ticket : Nat) :
    preProcess parseUri globs empty proxies proxyClient permits ticket req remoteIp =
        preProcess parseUri globs empty proxies proxyClient permits 0 req remoteIp ∧
      ∀ exchange, preProcess parseUri globs empty proxies proxyClient permits ticket req remoteIp = some exchange →
        exchange.sent = [] := by
  unfold preProcess
  cases hrule : findRule globs proxies req with
  | none => exact ⟨rfl, fun _ h => nomatch h⟩
  | some rule =>
      cases proxyClient with
      | none => exact ⟨rfl, fun _ h => nomatch h⟩
      | some client =>
          obtain ⟨hupgrade, hfull⟩ := asked_of_findRule hrule h
          simp only [Option.bind_eq_bind, Option.bind_some, hupgrade, hfull, if_true, forwardUpgrade]
          refine ⟨trivial, fun exchange hexchange => ?_⟩
          cases hexchange
          rfl

end WeaveGate.Proxy

namespace WeaveGate.Handler

open Http Settings
open Static (Body)

variable {crates : Crates} {w : World} {opts : RequestHandlerOpts} {remoteIp : Option Str} {req : Request Body}

/-! ## One request -/

theorem handleRouted_ticket (crates : Crates) (w : World) (opts : RequestHandlerOpts) (remoteIp : Option Str)
    (req : Request Body) : ∃ own : Outcome, own.sent = [] ∧ ∀ ticket,
      handleRouted crates { w with ticket := ticket } opts remoteIp req =
        ((if opts.proxyFirst then none else match redirectsPreProcess crates w opts req with
            | some _ => none
            | none => match rewritesPreProcess crates w opts req with
                | (some _, _) => none
                | (none, req') => some req').bind
          (tryReverseProxy crates { w with ticket := ticket } opts remoteIp)).getD own := by
  have hredirects : ∀ ticket, redirectsPreProcess crates { w with ticket := ticket } opts req =
      redirectsPreProcess crates w opts req := fun _ => rfl
  have hrewrites : ∀ ticket, rewritesPreProcess crates { w with ticket := ticket } opts req =
      rewritesPreProcess crates w opts req := fun _ => rfl
  unfold handleRouted
  simp only [hredirects, hrewrites]
  cases redirectsPreProcess crates w opts req with
  | some resp => exact ⟨.answer resp, rfl, fun _ => by simp⟩
  | none =>
      rcases rewritesPreProcess crates w opts req with ⟨_ | resp, req'⟩
      · refine ⟨serveStatic crates w opts req', rfl, fun ticket => ?_⟩
        by_cases hfirst : opts.proxyFirst = true
        · simp only [hfirst, if_true]
          rfl
        · simp only [hfirst, if_false, Bool.false_eq_true]
          rfl
      · exact ⟨.answer resp, rfl, fun _ => by simp⟩

/-- A request is answered by the proxy or, whatever the ticket, by the handler itself. -/
theorem handle_ticket (crates : Crates) (w : World) (opts : RequestHandlerOpts) (remoteIp : Option Str)
    (req : Request Body) : ∃ own : Outcome, own.sent = [] ∧ ∀ ticket,
      handle crates { w with ticket := ticket } opts remoteIp req =
        ((if !Static.isAllowed req.method then none else atProxy crates w opts req).bind
          (tryReverseProxy crates { w with ticket := ticket } opts remoteIp)).getD own := by
  have hearly : ∀ ticket, earlyStages crates { w with ticket := ticket } opts req = earlyStages crates w opts req :=
    fun _ => rfl
  unfold handle atProxy ownStages
  simp only [hearly]
  by_cases hallowed : Static.isAllowed req.method = true
  · simp only [hallowed, Bool.not_true, Bool.false_eq_true, if_false]
    cases (earlyStages crates w opts req).findSome? id with
    | some resp => exact ⟨.answer resp, rfl, fun _ => by simp⟩
    | none =>
        obtain ⟨own, hsent, hrouted⟩ := handleRouted_ticket crates w opts remoteIp req
        refine ⟨own, hsent, fun ticket => ?_⟩
        simp only [hrouted]
        by_cases hfirst : opts.proxyFirst = true
        · simp [hfirst]
        · simp only [hfirst, if_false, Bool.false_eq_true]
          cases redirectsPreProcess crates w opts req with
          | some resp => rfl
          | none => rcases rewritesPreProcess crates w opts req with ⟨_ | resp, req'⟩ <;> rfl
  · refine ⟨.answer (errorPage w opts req .methodNotAllowed), rfl, fun ticket => ?_⟩
    simp only [hallowed, Bool.not_false, if_true]
    rfl

theorem outcome_of_not_asked {a : Arrival} (h : balancerAsked crates opts a.world a.req = none) (ticket : Nat) :
    a.outcome crates opts ticket = a.outcome crates opts 0 ∧ (a.outcome crates opts ticket).sent = [] := by
  obtain ⟨own, hsent, howns⟩ := handle_ticket crates a.world opts a.remoteIp a.req
  unfold Arrival.outcome balancerAsked at *
  rw [howns, howns 0]
  split at h
  · rename_i hnot
    simp only [hnot, if_true]
    exact ⟨rfl, hsent⟩
  · rename_i hallowed
    rw [if_neg hallowed]
    cases hproxied : atProxy crates a.world opts a.req with
    | none => exact ⟨rfl, hsent⟩
    | some r =>
        rw [hproxied, Option.bind_some] at h
        have hticket := Proxy.preProcess_of_not_asked crates.parseUri .empty a.remoteIp h
        simp only [Option.bind_some, tryReverseProxy]
        rw [(hticket ticket).1]
        refine ⟨rfl, ?_⟩
        cases hexchange : Proxy.preProcess crates.parseUri crates.globs .empty (opts.advancedOpts.bind (·.proxies))
            opts.proxyClient a.world.permits 0 r a.remoteIp with
        | none => exact hsent
        | some exchange => exact (hticket 0).2 exchange hexchange

/-- What comes of a turn: one request to the target that was picked, or an error that the client is told. -/
structure Turn.Serves (rule : ProxyRule) (turn : Turn) : Prop where
  once : turn.outcome.sent.length ≤ 1
  target : ∀ u ∈ turn.outcome.sent, ∃ target, rule.balancer.targets[turn.upstream]? = some target ∧ Proxy.IsAt target u
  refused : turn.outcome.sent = [] → ∃ resp, turn.outcome.result = .ok resp ∧ resp.status = .badGateway

/-- A rule and its balancer as they were compiled. -/
structure IsCompiled (crates : Crates) (rule : ProxyRule) : Prop where
  absolute : AbsoluteUris crates.parseUri
  empty : crates.parseUri [] = none
  compiled : ∃ d, Proxy.compileProxyRule crates.globs crates.parseUri d = .ok rule

theorem outcome_serves {a : Arrival} {k : Nat} (h : balancerAsked crates opts a.world a.req = some k)
    {rules : List ProxyRule} (hrules : opts.advancedOpts.bind (·.proxies) = some rules) {rule : ProxyRule}
    (hk : rules[k]? = some rule) (hrule : IsCompiled crates rule) (ticket : Nat) :
    Turn.Serves rule ⟨k, (rule.balancer.nextIndex 64 ticket).1, a.outcome crates opts ticket⟩ := by
  obtain ⟨own, _, howns⟩ := handle_ticket crates a.world opts a.remoteIp a.req
  obtain ⟨d, hcompiled⟩ := hrule.compiled
  unfold balancerAsked at h
  split at h
  · cases h
  · rename_i hallowed
    obtain ⟨r, hproxied, h⟩ := Option.bind_eq_some_iff.mp h
    obtain ⟨rules', rule', client, hrules', hk', hfind, hclient, hfull⟩ := Proxy.findRule_of_asked h
    cases hrules.symm.trans hrules'
    cases hk.symm.trans hk'
    have hfree : Proxy.TunnelFree a.world.permits r := fun hupgrade hpermits => hfull ⟨hupgrade, hpermits⟩
    obtain ⟨exchange, hexchange⟩ : ∃ exchange, Proxy.preProcess crates.parseUri crates.globs .empty
        (opts.advancedOpts.bind (·.proxies)) opts.proxyClient a.world.permits ticket r a.remoteIp = some exchange :=
      ⟨_, Proxy.preProcess_matched hfind hclient⟩
    have houtcome : a.outcome crates opts ticket = ⟨exchange.sent, none, .ok (proxyAnswer { a.world with ticket := ticket }
        opts r exchange.result)⟩ := by
      unfold Arrival.outcome
      rw [howns, if_neg hallowed, hproxied]
      simp only [Option.bind_some, tryReverseProxy, hexchange, Option.bind_eq_bind, Option.pure_def, Option.getD_some]
    rw [hclient] at hexchange
    have hgoes := Proxy.preProcess_goesTo hrule.absolute hrule.empty hcompiled hfind .empty hfree hexchange
    rw [houtcome]
    refine ⟨hgoes.once, hgoes.target, fun hnil => ?_⟩
    obtain ⟨e, he⟩ := hgoes.refused hnil
    exact ⟨_, rfl, by rw [he]; rfl⟩

/-! ## Runs -/

/-- The upstreams that a rule's balancer chose, in their order. -/
def BalancedState.upstreams (s : BalancedState) (k : Nat) : List Nat :=
  (s.turns.filter fun turn => turn.rule = k).map (·.upstream)

/-- What a run has done to one rule. -/
structure TakesTurns (rule : ProxyRule) (k : Nat) (s : BalancedState) : Prop where
  counter : s.counters[k]? = some ((s.upstreams k).length % 2 ^ 64)
  upstreams : s.upstreams k = RoundRobin.picks rule.balancer.targets.length (2 ^ 64) (s.upstreams k).length
  serves : ∀ turn ∈ s.turns, turn.rule = k → turn.Serves rule

theorem takesTurns_new {rules : List ProxyRule} {k : Nat} {rule : ProxyRule}
    (hk : rules[k]? = some rule) : TakesTurns rule k (.new rules) where
  counter := by
    rw [BalancedState.new, List.getElem?_map, hk]
    rfl
  upstreams := rfl
  serves := fun _ h => nomatch h

theorem TakesTurns.step {rules : List ProxyRule} (hrules : opts.advancedOpts.bind (·.proxies) = some rules) {k : Nat}
    {rule : ProxyRule} (hk : rules[k]? = some rule) (hrule : IsCompiled crates rule) {s : BalancedState}
    (h : TakesTurns rule k s) (a : Arrival) : TakesTurns rule k (balancedStep crates opts rules s a) := by
  unfold balancedStep
  split
  · exact h
  · rename_i k' hasked
    split
    · rename_i rule' next hrule' hnext
      by_cases hsame : k' = k
      · subst hsame
        cases hk.symm.trans hrule'
        have hcounter := h.counter
        rw [hnext, Option.some_inj] at hcounter
        subst hcounter
        have hupstreams : BalancedState.upstreams
            { counters := s.counters.set k' (rule.balancer.nextIndex 64 ((s.upstreams k').length % 2 ^ 64)).2
              turns := s.turns ++ [⟨k', (rule.balancer.nextIndex 64 ((s.upstreams k').length % 2 ^ 64)).1,
                a.outcome crates opts ((s.upstreams k').length % 2 ^ 64)⟩] } k' =
              s.upstreams k' ++ [(s.upstreams k').length % 2 ^ 64 % rule.balancer.targets.length] := by
          simp [BalancedState.upstreams, List.filter_append, ProxyBalancer.nextIndex]
        refine ⟨?_, ?_, fun turn hturn hplace => ?_⟩
        · rw [hupstreams, List.length_append, List.length_singleton, List.getElem?_set_self (List.getElem?_eq_some_iff.mp hnext).1]
          simp only [ProxyBalancer.nextIndex, Nat.mod_add_mod]
        · rw [hupstreams, List.length_append, List.length_singleton]
          conv_lhs => rw [h.upstreams]
          simp [RoundRobin.picks, List.range_succ]
        · rcases List.mem_append.mp hturn with hturn | hturn
          · exact h.serves turn hturn hplace
          · rw [List.mem_singleton.mp hturn]
            exact outcome_serves hasked hrules hk hrule _
      · have hupstreams : BalancedState.upstreams
            { counters := s.counters.set k' (rule'.balancer.nextIndex 64 next).2
              turns := s.turns ++ [⟨k', (rule'.balancer.nextIndex 64 next).1, a.outcome crates opts next⟩] } k =
              s.upstreams k := by
          simp [BalancedState.upstreams, List.filter_append, hsame]
        refine ⟨?_, ?_, fun turn hturn hplace => ?_⟩
        · rw [hupstreams, List.getElem?_set_ne hsame]
          exact h.counter
        · rw [hupstreams]
          exact h.upstreams
        · rcases List.mem_append.mp hturn with hturn | hturn
          · exact h.serves turn hturn hplace
          · rw [List.mem_singleton.mp hturn] at hplace
            exact absurd hplace hsame
    · exact h

/-- Each request that asks the rule's balancer is a turn. -/
theorem TakesTurns.step_length {rules : List ProxyRule} {k : Nat} {rule : ProxyRule} (hk : rules[k]? = some rule)
    {s : BalancedState} (h : TakesTurns rule k s) (a : Arrival) :
    ((balancedStep crates opts rules s a).upstreams k).length =
      (s.upstreams k).length + if balancerAsked crates opts a.world a.req = some k then 1 else 0 := by
  unfold balancedStep
  cases hasked : balancerAsked crates opts a.world a.req with
  | none => simp
  | some k' =>
      by_cases hsame : k' = k
      · subst hsame
        simp [hk, h.counter, BalancedState.upstreams, List.filter_append]
      · simp only [Option.some_inj, hsame, if_false]
        split <;> simp [BalancedState.upstreams, List.filter_append, hsame]

theorem takesTurns_run {rules : List ProxyRule} (hrules : opts.advancedOpts.bind (·.proxies) = some rules) {k : Nat}
    {rule : ProxyRule} (hk : rules[k]? = some rule) (hrule : IsCompiled crates rule) (arrivals : List Arrival) {s : BalancedState}
    (h : TakesTurns rule k s) :
    TakesTurns rule k (Run.final (balancedStep crates opts rules) s arrivals) ∧
      ((Run.final (balancedStep crates opts rules) s arrivals).upstreams k).length =
        (s.upstreams k).length + arrivals.countP fun a => balancerAsked crates opts a.world a.req = some k := by
  induction arrivals generalizing s with
  | nil => exact ⟨h, rfl⟩
  | cons a arrivals ih =>
      obtain ⟨hrun, hlength⟩ := ih (h.step hrules hk hrule a)
      refine ⟨hrun, hlength.trans ?_⟩
      rw [h.step_length hk a, List.countP_cons]
      simp only [decide_eq_true_eq]
      omega

/-- What the upstreams of a rule see of a run. -/
structure Balanced (crates : Crates) (opts : RequestHandlerOpts) (rule : ProxyRule) (k : Nat) (arrivals : List Arrival)
    (s : BalancedState) : Prop where
  /-- No request that the rule forwards is left out, none counts twice. -/
  turns : (s.upstreams k).length = arrivals.countP fun a => balancerAsked crates opts a.world a.req = some k
  fair : RoundRobin.Fair rule.balancer.targets.length (s.upstreams k) ↔
    (s.upstreams k).length ≤ 2 ^ 64 ∨ rule.balancer.targets.length ∣ 2 ^ 64
  serves : ∀ turn ∈ s.turns, turn.rule = k → turn.Serves rule
  /-- A request that asks no balancer sends nothing, and no counter matters to it. -/
  others : ∀ a ∈ arrivals, balancerAsked crates opts a.world a.req = none → ∀ ticket,
    a.outcome crates opts ticket = a.outcome crates opts 0 ∧ (a.outcome crates opts ticket).sent = []

/-- In whatever order requests to all the rules, and to none, come in. -/
theorem balanced_run {rules : List ProxyRule} (hrules : opts.advancedOpts.bind (·.proxies) = some rules) {k : Nat}
    {rule : ProxyRule} (hk : rules[k]? = some rule) (hrule : IsCompiled crates rule) (arrivals : List Arrival) :
    Balanced crates opts rule k arrivals (Run.final (balancedStep crates opts rules) (.new rules) arrivals) := by
  obtain ⟨hturns, hlength⟩ := takesTurns_run hrules hk hrule arrivals (takesTurns_new hk)
  refine ⟨?_, ?_, hturns.serves, fun a _ hnone ticket => outcome_of_not_asked hnone ticket⟩
  · rw [hlength]
    exact Nat.zero_add _
  · conv_lhs => rw [hturns.upstreams]
    exact RoundRobin.fair_picks_iff (List.length_pos_iff.mpr rule.balancer.nonempty) (Nat.two_pow_pos 64)

def threeUpstreamsDef : Settings.Proxy :=
  { Proxy.sampleDef "/**".toList with
    target := none, targets := some ["http://a".toList, "http://b/v1".toList, "http://c".toList] }

theorem legal_v1 : "/v1".toList.all isPathChar = true := by decide

def threeUpstreamsRule : ProxyRule :=
  { Proxy.sampleRule with
    balancer := ⟨none, [⟨some "http".toList, some "a".toList, some ⟨[], none, rfl, PathAndQuery.legal_none⟩⟩,
      ⟨some "http".toList, some "b".toList, some ⟨"/v1".toList, none, legal_v1, PathAndQuery.legal_none⟩⟩,
      ⟨some "http".toList, some "c".toList, some ⟨[], none, rfl, PathAndQuery.legal_none⟩⟩], List.cons_ne_nil _ _⟩
    uriTemplates := [⟨"http://a".toList, ['/'], none⟩, ⟨"http://b".toList, "/v1".toList, none⟩,
      ⟨"http://c".toList, ['/'], none⟩] }

def threeUpstreamsOpts : RequestHandlerOpts :=
  { sampleOpts with advancedOpts := some { Proxy.sampleAdvanced [] with proxies := some [threeUpstreamsRule] } }

def arrive (method : Method) : Arrival := ⟨sampleRequest method, none, sampleWorld⟩

/-- The second request is refused by the handler, and takes no turn. -/
def fourArrivals : List Arrival := [arrive .get, arrive .post, arrive .get, arrive .head]

def fourArrived : BalancedState :=
  Run.final (balancedStep sampleCrates threeUpstreamsOpts [threeUpstreamsRule]) (.new [threeUpstreamsRule]) fourArrivals

theorem balanced_run_four : Balanced sampleCrates threeUpstreamsOpts threeUpstreamsRule 0 fourArrivals fourArrived ∧
    fourArrived.upstreams 0 = [0, 1, 2] ∧ fourArrived.turns.map (fun turn => turn.outcome.sent.map (·.uri.authority)) =
      [[some "a".toList], [some "b".toList], [some "c".toList]] :=
  ⟨balanced_run rfl rfl ⟨absoluteUris_parseHttpUri, rfl, threeUpstreamsDef, rfl⟩ fourArrivals,
    by decide +kernel, by decide +kernel⟩

end WeaveGate.Handler
