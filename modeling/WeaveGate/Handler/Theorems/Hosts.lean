import WeaveGate.Handler.Handle

/-!
# The host of a request

`request_host` and `get_real_root` derive the host with code of their own, and redirects put the port behind it.
They agree on every request, however it names its host.
-/

namespace WeaveGate.Handler

open Http Settings
open Posix (utf8)
open Static (Body)

variable {crates : Crates}

/-! ## Host syntax -/

/-- Unreserved characters, delimiters and the sign of an escape. An IPv4 address has no others. -/
def isRegNameChar (c : Char) : Bool := c.isAlphanum || c ∈ "-._~%!$&'()*+,;=".toList

/-- The text of a host: a registered name or an IPv4 address, or an IPv6 address in brackets. -/
inductive IsHost : Str → Prop
  | regName {name : Str} : name.all isRegNameChar = true → IsHost name
  | ipv6 {address : Str} : (address.all fun c => isRegNameChar c || c = ':') = true → IsHost ('[' :: address ++ [']'])

theorem not_mem_of_all {p : Char → Bool} {s : Str} (h : s.all p = true) {c : Char} (hc : p c = false) : c ∉ s := by
  intro hmem
  rw [List.all_eq_true.mp h c hmem] at hc
  cases hc

/-- A registered name has no colon, a bracketed address none after its bracket. -/
inductive HostShape (h : Str) : Prop
  | plain (colon : ':' ∉ h) (bracket : h.head? ≠ some '[')
  | bracketed (address : Str) (closing : ']' ∉ address) (eq : h = '[' :: address ++ [']'])

theorem IsHost.shape {h : Str} (hh : IsHost h) : HostShape h := by
  cases hh with
  | regName hname =>
      refine .plain (not_mem_of_all hname (by decide)) fun hbracket => ?_
      exact not_mem_of_all hname (by decide) (List.mem_of_mem_head? hbracket)
  | ipv6 haddress => exact .bracketed _ (not_mem_of_all haddress (by decide)) rfl

theorem IsHost.not_mem {h : Str} (hh : IsHost h) {c : Char} (hc : isRegNameChar c = false)
    (hmark : c ∉ [':', '[', ']']) : c ∉ h := by
  cases hh with
  | regName hname => exact not_mem_of_all hname hc
  | @ipv6 address haddress =>
      simp only [List.mem_cons, List.not_mem_nil, or_false, not_or] at hmark
      have hmem : c ∉ address := not_mem_of_all haddress (by simp [hc, hmark.1])
      simp [hmark, hmem]

theorem IsHost.at_not_mem {h : Str} (hh : IsHost h) : '@' ∉ h := hh.not_mem (by decide) (by decide)

theorem isRegNameChar_printable {c : Char} (h : isRegNameChar c = true) : HeaderValue.isPrintable c = true := by
  unfold isRegNameChar at h
  rw [Bool.or_eq_true, decide_eq_true_eq] at h
  rcases h with h | h
  · exact HeaderValue.isPrintable_of_isAlphanum h
  · have hall : "-._~%!$&'()*+,;=".toList.all HeaderValue.isPrintable = true := by decide
    exact List.all_eq_true.mp hall c h

theorem IsHost.printable {h : Str} (hh : IsHost h) : h.all HeaderValue.isPrintable = true := by
  cases hh with
  | regName hname =>
      exact List.all_eq_true.mpr fun c hc => isRegNameChar_printable (List.all_eq_true.mp hname c hc)
  | @ipv6 address haddress =>
      have hinner : address.all HeaderValue.isPrintable = true := List.all_eq_true.mpr fun c hc => by
        have hchar := List.all_eq_true.mp haddress c hc
        rw [Bool.or_eq_true, decide_eq_true_eq] at hchar
        rcases hchar with hchar | rfl
        · exact isRegNameChar_printable hchar
        · rfl
      rw [List.all_append, List.all_cons, hinner]
      rfl

/-! ## Hosts with a port -/

def withPort (h : Str) (port : Nat) : Str := h ++ ':' :: Nat.toDigits 10 port

theorem not_mem_toDigits {c : Char} (hc : c.isDigit = false) (port : Nat) : c ∉ Nat.toDigits 10 port := by
  intro hmem
  rw [Nat.isDigit_of_mem_toDigits (by decide) (by decide) hmem] at hc
  cases hc

theorem withPort_printable {h : Str} (hh : IsHost h) (port : Nat) :
    (withPort h port).all HeaderValue.isPrintable = true := by
  rw [withPort, List.all_append, List.all_cons, hh.printable, HeaderValue.toDigits_printable]
  rfl

/-- The split at the last colon takes a port off. Without a port it fails or leaves no number behind the colon. -/
theorem rsplitOnce_host {h : Str} (hh : IsHost h) : (Text.rsplitOnce ':' h).all fun s =>
    (Text.parseUnsigned 65535 s.2).isNone := by
  cases hh.shape with
  | plain hcolon _ => rw [Text.rsplitOnce_eq_none hcolon]; rfl
  | bracketed address _ heq =>
      subst heq
      by_cases hmem : ':' ∈ address
      · obtain ⟨before, after, rfl, hafter⟩ : ∃ before after, address = before ++ ':' :: after ∧ ':' ∉ after := by
          obtain ⟨after, before, hrev, hnot⟩ := List.eq_append_cons_of_mem (List.mem_reverse.mpr hmem)
          refine ⟨before.reverse, after.reverse, ?_, by simpa using hnot⟩
          rw [← List.reverse_reverse address, hrev]
          simp
        have hsplit : '[' :: (before ++ ':' :: after) ++ [']'] = ('[' :: before) ++ ':' :: (after ++ [']']) := by simp
        rw [hsplit, Text.rsplitOnce_append (by simpa using hafter), Option.all_some]
        rw [Text.parseUnsigned_eq_none_of_mem (c := ']') (by simp) (by decide) (by decide)]
        rfl
      · rw [Text.rsplitOnce_eq_none (by simpa using hmem)]
        rfl

theorem rsplitOnce_withPort (h : Str) (port : Nat) :
    Text.rsplitOnce ':' (withPort h port) = some (h, Nat.toDigits 10 port) :=
  Text.rsplitOnce_append (not_mem_toDigits (by decide) port) h

/-! ## Authorities -/

theorem hostPort_eq_self {authority : Authority} (h : '@' ∉ authority) : Authority.hostPort authority = authority := by
  rw [Authority.hostPort, Text.rsplitOnce_eq_none h]
  rfl

/-- What follows the host starts with a colon or is empty. -/
theorem authority_host {h rest : Str} (hh : IsHost h) (hat : '@' ∉ rest) (hrest : rest = [] ∨ rest.head? = some ':') :
    Authority.host (h ++ rest) = h := by
  have hself : Authority.hostPort (h ++ rest) = h ++ rest :=
    hostPort_eq_self fun hmem => (List.mem_append.mp hmem).elim hh.at_not_mem hat
  rw [Authority.host, hself]
  cases hh.shape with
  | plain hcolon hbracket =>
      have hstart : Text.startsWith (h ++ rest) '[' = false := by
        unfold Text.startsWith
        rw [decide_eq_false_iff_not, List.head?_append]
        cases h with
        | nil => rcases hrest with rfl | hrest <;> simp [*]
        | cons c h => simpa using hbracket
      rw [if_neg (by rw [hstart]; decide)]
      have hne : ∀ c ∈ h, decide (c ≠ ':') = true := fun c hc => decide_eq_true fun heq => hcolon (heq ▸ hc)
      rw [List.takeWhile_append_of_pos hne]
      rcases hrest with rfl | hrest
      · simp
      · cases rest with
        | nil => cases hrest
        | cons c rest =>
            cases hrest
            simp
  | bracketed address hclosing heq =>
      subst heq
      have hne : ∀ c ∈ '[' :: address, decide (c ≠ ']') = true := fun c hc => decide_eq_true fun heq => by
        subst heq
        rcases List.mem_cons.mp hc with h | h
        · cases h
        · exact hclosing h
      have hstart : Text.startsWith ('[' :: address ++ [']'] ++ rest) '[' = true := rfl
      rw [if_pos hstart, List.append_assoc, List.takeWhile_append_of_pos hne]
      simp

theorem host_withPort {h : Str} (hh : IsHost h) (port : Nat) : Authority.host (withPort h port) = h :=
  authority_host hh (by simp [not_mem_toDigits]) (.inr rfl)

theorem host_self {h : Str} (hh : IsHost h) : Authority.host h = h := by
  have hhost : Authority.host (h ++ []) = h := authority_host hh (by simp) (.inl rfl)
  rwa [List.append_nil] at hhost

theorem portU16_withPort (h : Str) {port : Nat} (hport : port ≤ 65535) :
    Authority.portU16 (withPort h port) = some port := by
  rw [Authority.portU16, rsplitOnce_withPort]
  exact Text.parseUnsigned_toDigits hport

/-! ## The host of a request -/

theorem requestHostStr_eq (req : Request Body) : requestHostStr req = Proxy.requestHost req := by
  unfold requestHostStr Proxy.requestHost
  cases req.uri.authority with
  | some authority => rfl
  | none =>
      cases req.headers.get? .host with
      | none => rfl
      | some value =>
          simp only [Option.bind_eq_bind, Option.bind_some]
          cases HeaderValue.toStr value with
          | none => rfl
          | some header =>
              simp only [Option.bind_some]
              cases Text.rsplitOnce ':' header with
              | none => rfl
              | some s =>
                  simp only [Option.bind_some]
                  split <;> rfl

/-- The ways a request names a host: in its first `Host` field or in its URI, with a port or without. -/
inductive NamesHost (h : Str) (req : Request Body) : Prop
  | hostField (authority : req.uri.authority = none) (field : req.headers.get? .host = some (utf8 h))
  | hostFieldPort (port : Nat) (le : port ≤ 65535) (authority : req.uri.authority = none)
      (field : req.headers.get? .host = some (utf8 (withPort h port)))
  | authority (eq : req.uri.authority = some h)
  | authorityPort (port : Nat) (le : port ≤ 65535) (eq : req.uri.authority = some (withPort h port))

theorem requestHost_of_field {req : Request Body} (hauthority : req.uri.authority = none) {text : Str}
    (hprint : text.all HeaderValue.isPrintable = true) (hfield : req.headers.get? .host = some (utf8 text)) :
    Proxy.requestHost req = match Text.rsplitOnce ':' text with
      | some (host, port) => if (Text.parseUnsigned 65535 port).isSome then some host else some text
      | none => some text := by
  unfold Proxy.requestHost
  rw [hauthority]
  simp only [hfield, Option.bind_eq_bind, Option.bind_some, (HeaderValue.fromStr_printable hprint).2]
  cases Text.rsplitOnce ':' text <;> rfl

theorem NamesHost.requestHost {h : Str} (hh : IsHost h) {req : Request Body} (hreq : NamesHost h req) :
    Proxy.requestHost req = some h := by
  cases hreq with
  | hostField hauthority hfield =>
      have hsplit := rsplitOnce_host hh
      rw [requestHost_of_field hauthority hh.printable hfield]
      cases hs : Text.rsplitOnce ':' h with
      | none => rfl
      | some s =>
          rw [hs, Option.all_some, Option.isNone_iff_eq_none] at hsplit
          simp [hsplit]
  | hostFieldPort port hport hauthority hfield =>
      rw [requestHost_of_field hauthority (withPort_printable hh port) hfield, rsplitOnce_withPort]
      simp [Text.parseUnsigned_toDigits hport]
  | authority heq =>
      unfold Proxy.requestHost
      rw [heq]
      exact congrArg some (host_self hh)
  | authorityPort port _ heq =>
      unfold Proxy.requestHost
      rw [heq]
      exact congrArg some (host_withPort hh port)

theorem redirectHost_of_field {req : Request Body} (hauthority : req.uri.authority = none) {text : Str}
    (hprint : text.all HeaderValue.isPrintable = true) (hfield : req.headers.get? .host = some (utf8 text)) :
    redirectHost req = text := by
  unfold redirectHost
  simp [hauthority, hfield, (HeaderValue.fromStr_printable hprint).2]

theorem redirectHost_of_authority {h : Str} (hh : IsHost h) {port : Nat} (hport : port ≤ 65535) {req : Request Body}
    (hauthority : req.uri.authority = some (withPort h port)) : redirectHost req = withPort h port := by
  unfold redirectHost
  rw [hauthority, Option.bind_some, portU16_withPort h hport, Option.elim_some, Option.map_some, Option.getD_some,
    host_withPort hh]
  rfl

/-! ## What the host selects -/

theorem findRule_congr {globs : GlobSet} {req req' : Request Body}
    (hhost : Proxy.requestHost req = Proxy.requestHost req') (hpath : req.uri.path = req'.uri.path)
    (proxies : Option (List ProxyRule)) : Proxy.findRule globs proxies req = Proxy.findRule globs proxies req' := by
  unfold Proxy.findRule
  rw [hhost, hpath]

theorem getRealRoot_congr {req req' : Request Body} (hhost : Proxy.requestHost req = Proxy.requestHost req')
    (vhosts : Option (List VirtualHosts)) : getRealRoot req vhosts = getRealRoot req' vhosts := by
  unfold getRealRoot
  rw [requestHostStr_eq, requestHostStr_eq, hhost]

theorem hosts_agree {h : Str} (hh : IsHost h) {port : Nat} (hport : port ≤ 65535) :
    (∀ req, requestHostStr req = Proxy.requestHost req) ∧
    (∀ req req', NamesHost h req → NamesHost h req' → req.uri.path = req'.uri.path → ∀ globs proxies vhosts,
      Proxy.findRule globs proxies req = Proxy.findRule globs proxies req' ∧
        getRealRoot req vhosts = getRealRoot req' vhosts) ∧
    ∀ req req' : Request Body, req.uri.authority = none →
      req.headers.get? .host = some (utf8 (withPort h port)) → req'.uri.authority = some (withPort h port) →
      req.uri.path = req'.uri.path → ∀ crates redirects,
        getRedirection crates (redirectHost req) req.uri.path redirects =
          getRedirection crates (redirectHost req') req'.uri.path redirects := by
  refine ⟨requestHostStr_eq, ?_, ?_⟩
  · intro req req' hreq hreq' hpath globs proxies vhosts
    have hhost : Proxy.requestHost req = Proxy.requestHost req' :=
      (hreq.requestHost hh).trans (hreq'.requestHost hh).symm
    exact ⟨findRule_congr hhost hpath proxies, getRealRoot_congr hhost vhosts⟩
  · intro req req' hauthority hfield hauthority' hpath crates redirects
    rw [redirectHost_of_field hauthority (withPort_printable hh port) hfield,
      redirectHost_of_authority hh hport hauthority', hpath]

def loopbackField : Request Body :=
  ⟨.get, ⟨none, none, none⟩, [(.host, HeaderValue.fromStatic "[::1]:8080")], .empty⟩

def loopbackUri : Request Body := ⟨.get, ⟨none, some "[::1]".toList, none⟩, [], .empty⟩

/-- An IPv6 address, with a port in the `Host` field and without one in the URI. -/
theorem hosts_agree_loopback : requestHostStr loopbackField = Proxy.requestHost loopbackField ∧
    ∀ globs proxies, Proxy.findRule globs proxies loopbackField = Proxy.findRule globs proxies loopbackUri := by
  have hhost : IsHost ('[' :: "::1".toList ++ [']']) := .ipv6 (by decide)
  have hagree := hosts_agree hhost (show 8080 ≤ 65535 by decide)
  refine ⟨hagree.1 loopbackField, fun globs proxies => ?_⟩
  have hfield : NamesHost ('[' :: "::1".toList ++ [']']) loopbackField :=
    .hostFieldPort 8080 (by decide) rfl (by decide +kernel)
  exact (hagree.2.1 loopbackField loopbackUri hfield (.authority rfl) rfl globs proxies none).1

end WeaveGate.Handler
