import WeaveGate.Proxy.Theorems

/-!
# Requests without a readable host, and upgrades

Which requests fall through a rule that applies to them, and which upgrade requests are forwarded as plain ones.
-/

namespace WeaveGate.Proxy

open Http Settings

variable {β : Type} {globs : GlobSet} {parseUri : Str → Option Uri}

/-! ## The first rule that applies -/

/-- The rule has no host or that of the request, and its glob matches the path. -/
def ruleApplies (globs : GlobSet) (req : Request β) (rule : ProxyRule) : Bool :=
  rule.host.all (requestHost req = some ·) && globs.isMatch rule.source req.uri.path

/-- The URI names an authority, or the first `Host` field is readable as text. -/
def namesHost (req : Request β) : Bool :=
  req.uri.authority.isSome || (req.headers.get? .host).any (·.all HeaderValue.isVisibleAscii)

theorem requestHost_isSome (req : Request β) : (requestHost req).isSome = namesHost req := by
  unfold requestHost namesHost
  cases req.uri.authority with
  | some authority => rfl
  | none =>
      cases req.headers.get? .host with
      | none => rfl
      | some value =>
          simp only [Option.bind_eq_bind, Option.bind_some, Option.isSome_none, Bool.false_or, Option.any_some]
          unfold HeaderValue.toStr
          split
          · rename_i hvisible
            rw [hvisible, Option.bind_some]
            split
            · split <;> rfl
            · rfl
          · rename_i hvisible
            rw [Option.bind_none]
            exact (Bool.eq_false_iff.mpr hvisible).symm

theorem ruleMatches_eq_ruleApplies {req : Request β} {host : Str} (h : requestHost req = some host)
    (rule : ProxyRule) : ruleMatches globs host req.uri.path rule = ruleApplies globs req rule := by
  unfold ruleMatches ruleApplies
  simp only [h, Option.some.injEq]
  cases rule.host with
  | none => rfl
  | some expected => simp [eq_comm]

/-- Without a host, a rule applies when it asks for none. -/
theorem ruleApplies_of_no_host {req : Request β} (h : requestHost req = none) (rule : ProxyRule) :
    ruleApplies globs req rule = true ↔ rule.host = none ∧ globs.isMatch rule.source req.uri.path = true := by
  unfold ruleApplies
  cases rule.host with
  | none => simp
  | some expected => simp [h]

/-- The rule found is the first that applies, unless the request names no host and a rule for all hosts matches. -/
theorem findRule_first_iff (rules : List ProxyRule) (req : Request β) :
    findRule globs (some rules) req = rules.find? (ruleApplies globs req) ↔
      (namesHost req = false → ∀ rule ∈ rules, rule.host = none → globs.isMatch rule.source req.uri.path = false) := by
  rw [← requestHost_isSome]
  simp only [findRule, Option.bind_eq_bind, Option.bind_some]
  cases hhost : requestHost req with
  | some host =>
      simp only [Option.bind_some, Option.isSome_some, Bool.true_eq_false, false_implies, iff_true]
      congr 1
      exact funext (ruleMatches_eq_ruleApplies hhost)
  | none =>
      simp only [Option.bind_none, Option.isSome_none, true_implies]
      rw [eq_comm, List.find?_eq_none]
      refine forall₂_congr fun rule _ => ?_
      rw [ruleApplies_of_no_host hhost, not_and, Bool.not_eq_true]

def hostless : Request Posix.Octets where
  method := .get
  uri := ⟨none, none, some ⟨"/api/users".toList, none, by decide, PathAndQuery.legal_none⟩⟩
  headers := []
  body := []

/-- An HTTP/1.0 request without `Host`, and a rule for all hosts that matches every path. -/
theorem misses_hostless : findRule ⟨fun _ => true, fun _ _ => true⟩ (some [sampleRule]) hostless ≠
    [sampleRule].find? (ruleApplies ⟨fun _ => true, fun _ _ => true⟩ hostless) := by
  intro h
  have hfound := congrArg Option.isSome h
  exact absurd hfound (by decide)

/-! ## Lists over several field lines -/

/-- A field line, each byte as the character of its number. -/
def fieldText (value : HeaderValue) : Str := value.map fun b => Char.ofNat b.toNat

def isOws (c : Char) : Bool := c = ' ' || c = '\t'

def trimOws (s : Str) : Str := (s.dropWhile isOws).rdropWhile isOws

def lineElements (value : HeaderValue) : List Str := ((fieldText value).splitOn ',').map trimOws

/-- The elements of all lines of a field, in the order of the lines. -/
def combinedElements (headers : HeaderMap) (name : HeaderName) : List Str :=
  (headers.getAll name).flatMap lineElements

def listsToken (token : Str) (elements : List Str) : Bool := elements.any (Text.eqIgnoreAsciiCase · token)

/-- An `Upgrade` field, and the token `upgrade` in some line of `Connection`. -/
def asksForUpgrade (headers : HeaderMap) : Bool :=
  headers.contains .upgrade && listsToken "upgrade".toList (combinedElements headers .connection)

theorem listsToken_combined (token : Str) (headers : HeaderMap) (name : HeaderName) :
    listsToken token (combinedElements headers name) =
      (headers.getAll name).any fun line => listsToken token (lineElements line) := by
  unfold listsToken combinedElements
  exact List.any_flatMap

theorem fieldText_of_toStr {value : HeaderValue} {text : Str} (h : HeaderValue.toStr value = some text) :
    fieldText value = text := by
  unfold HeaderValue.toStr at h
  split at h
  · exact Option.some.inj h
  · cases h

/-- Among printable characters, blanks and tabs are the only white space. -/
theorem isWhitespace_eq_isOws {c : Char} (h : HeaderValue.isPrintable c = true) : Text.isWhitespace c = isOws c := by
  have hc : 32 ≤ c.toNat ∧ c.toNat < 127 ∨ c.toNat = 9 := by simpa [HeaderValue.isPrintable] using h
  have hblank : c = ' ' ↔ c.toNat = 32 := by rw [← Char.toNat_inj]; rfl
  have htab : c = '\t' ↔ c.toNat = 9 := by rw [← Char.toNat_inj]; rfl
  rw [Bool.eq_iff_iff]
  simp only [Text.isWhitespace, isOws, Bool.or_eq_true, Bool.and_eq_true, decide_eq_true_eq, hblank, htab]
  omega

theorem dropWhile_congr {p q : Char → Bool} {s : Str} (h : ∀ c ∈ s, p c = q c) : s.dropWhile p = s.dropWhile q := by
  induction s with
  | nil => rfl
  | cons c s ih =>
      obtain ⟨hc, hs⟩ := List.forall_mem_cons.mp h
      rw [List.dropWhile_cons, List.dropWhile_cons, hc, ih hs]

theorem trim_eq_trimOws {s : Str} (h : ∀ c ∈ s, Text.isWhitespace c = isOws c) : Text.trim s = trimOws s := by
  have hstart : s.dropWhile Text.isWhitespace = s.dropWhile isOws := dropWhile_congr h
  unfold Text.trim Text.trimStart Text.trimEnd trimOws List.rdropWhile
  rw [hstart]
  congr 1
  refine dropWhile_congr fun c hc => h c ?_
  exact List.dropWhile_sublist isOws |>.mem (List.mem_reverse.mp hc)

theorem mem_intercalate {sep part : Str} {parts : List Str} {c : Char} (hpart : part ∈ parts) (hc : c ∈ part) :
    c ∈ sep.intercalate parts := by
  induction parts with
  | nil => cases hpart
  | cons head rest ih =>
      cases rest with
      | nil =>
          rw [List.mem_singleton] at hpart
          rwa [List.intercalate_singleton, ← hpart]
      | cons next rest =>
          rw [List.intercalate_cons_cons, List.mem_append, List.mem_append]
          rcases List.mem_cons.mp hpart with rfl | hrest
          · exact .inl (.inl hc)
          · exact .inr (ih hrest)

theorem mem_of_mem_splitOn {sep c : Char} {part s : Str} (hpart : part ∈ s.splitOn sep) (hc : c ∈ part) : c ∈ s := by
  have hjoin : [sep].intercalate (s.splitOn sep) = s := List.intercalate_splitOn sep
  exact hjoin ▸ mem_intercalate hpart hc

/-! ## The first line of `Connection` -/

theorem any_part_eq_listsToken {value : HeaderValue} {text : Str} (h : HeaderValue.toStr value = some text)
    (token : Str) : ((text.splitOn ',').any fun part => Text.eqIgnoreAsciiCase (Text.trim part) token) =
      listsToken token (lineElements value) := by
  have hprint := (HeaderValue.toStr_printable h).1
  unfold listsToken lineElements
  rw [fieldText_of_toStr h, List.any_map, Bool.eq_iff_iff, List.any_eq_true, List.any_eq_true]
  refine exists_congr fun part => and_congr_right fun hpart => ?_
  have htrim : Text.trim part = trimOws part := trim_eq_trimOws fun c hc =>
    isWhitespace_eq_isOws (List.all_eq_true.mp hprint c (mem_of_mem_splitOn hpart hc))
  rw [Function.comp_apply, htrim]

theorem connectionHeaderHasToken_eq (headers : HeaderMap) (token : Str) :
    connectionHeaderHasToken headers token = (headers.get? .connection).any fun line =>
      line.all HeaderValue.isVisibleAscii && listsToken token (lineElements line) := by
  unfold connectionHeaderHasToken
  cases headers.get? .connection with
  | none => rfl
  | some line =>
      rw [Option.bind_some, Option.any_some]
      cases htext : HeaderValue.toStr line with
      | none =>
          have hvisible : line.all HeaderValue.isVisibleAscii = false := by
            unfold HeaderValue.toStr at htext
            simpa using htext
          rw [hvisible, Bool.false_and, Option.any_none]
      | some text =>
          have hvisible : line.all HeaderValue.isVisibleAscii = true := by
            unfold HeaderValue.toStr at htext
            split at htext
            · assumption
            · cases htext
          rw [hvisible, Bool.true_and, Option.any_some]
          exact any_part_eq_listsToken htext token

/-- A line of `Connection` that lists `upgrade` stands behind a first line that lists it too, and is readable. -/
def FirstLineLists (headers : HeaderMap) : Prop :=
  ∀ line ∈ headers.getAll .connection, listsToken "upgrade".toList (lineElements line) = true →
    ∃ first, headers.get? .connection = some first ∧ first.all HeaderValue.isVisibleAscii = true ∧
      listsToken "upgrade".toList (lineElements first) = true

theorem connectionHeaderHasToken_eq_combined_iff (headers : HeaderMap) :
    connectionHeaderHasToken headers "upgrade".toList =
      listsToken "upgrade".toList (combinedElements headers .connection) ↔ FirstLineLists headers := by
  rw [connectionHeaderHasToken_eq, listsToken_combined, Bool.eq_iff_iff, Option.any_eq_true, List.any_eq_true]
  simp only [Bool.and_eq_true]
  constructor
  · intro h line hline hlists
    exact h.mpr ⟨line, hline, hlists⟩
  · intro h
    constructor
    · rintro ⟨first, hfirst, _, hlists⟩
      exact ⟨first, List.mem_of_mem_head? hfirst, hlists⟩
    · rintro ⟨line, hline, hlists⟩
      exact h line hline hlists

theorem isProtocolUpgrade_iff (req : Request β) :
    isProtocolUpgrade req = asksForUpgrade req.headers ↔
      (req.headers.contains .upgrade = true → FirstLineLists req.headers) := by
  rw [← connectionHeaderHasToken_eq_combined_iff]
  unfold isProtocolUpgrade asksForUpgrade
  cases req.headers.contains .upgrade with
  | false => simp
  | true => simp

/-- What `pre_process` does when it takes the upgrade path for the requests that ask for an upgrade. -/
def upgradeOrHttp (parseUri : Str → Option Uri) (globs : GlobSet) (empty : β) (proxies : Option (List ProxyRule))
    (proxyClient : Option (HttpClient β)) (permits : Option Nat) (ticket : Nat) (req : Request β)
    (remoteIp : Option Str) : Option (Exchange β) := do
  let rule ← findRule globs proxies req
  let client ← proxyClient
  return if asksForUpgrade req.headers then forwardUpgrade parseUri empty permits client rule ticket req remoteIp
    else forwardHttp parseUri client rule ticket req remoteIp

theorem preProcess_of_isProtocolUpgrade {req : Request β} (h : isProtocolUpgrade req = asksForUpgrade req.headers)
    (empty : β) (proxies : Option (List ProxyRule)) (proxyClient : Option (HttpClient β)) (permits : Option Nat)
    (ticket : Nat) (remoteIp : Option Str) :
    preProcess parseUri globs empty proxies proxyClient permits ticket req remoteIp =
      upgradeOrHttp parseUri globs empty proxies proxyClient permits ticket req remoteIp := by
  unfold preProcess upgradeOrHttp
  rw [h]
  cases asksForUpgrade req.headers <;> rfl

theorem takes_upgrade_path_iff (req : Request β) :
    (isProtocolUpgrade req = asksForUpgrade req.headers ↔
      (req.headers.contains .upgrade = true → FirstLineLists req.headers)) ∧
    ((req.headers.contains .upgrade = true → FirstLineLists req.headers) →
      ∀ empty proxies proxyClient permits ticket remoteIp,
        preProcess parseUri globs empty proxies proxyClient permits ticket req remoteIp =
          upgradeOrHttp parseUri globs empty proxies proxyClient permits ticket req remoteIp) :=
  ⟨isProtocolUpgrade_iff req, fun h => preProcess_of_isProtocolUpgrade ((isProtocolUpgrade_iff req).mpr h)⟩

def joinedConnection : Request Posix.Octets :=
  getRequest [(.connection, HeaderValue.fromStatic "keep-alive, Upgrade"),
    (.upgrade, HeaderValue.fromStatic "websocket")] "/ws".toList none (by decide) PathAndQuery.legal_none

def splitConnection : Request Posix.Octets :=
  getRequest [(.connection, HeaderValue.fromStatic "keep-alive"), (.connection, HeaderValue.fromStatic "Upgrade"),
    (.upgrade, HeaderValue.fromStatic "websocket")] "/ws".toList none (by decide) PathAndQuery.legal_none

/-- One handshake with its `Connection` field on one line and on two. -/
theorem misses_second_line :
    combinedElements joinedConnection.headers .connection = combinedElements splitConnection.headers .connection ∧
    isProtocolUpgrade joinedConnection = true ∧ asksForUpgrade splitConnection.headers = true ∧
    isProtocolUpgrade splitConnection = false := by
  decide +kernel

end WeaveGate.Proxy
