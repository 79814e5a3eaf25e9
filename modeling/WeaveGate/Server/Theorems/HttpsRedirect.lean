import WeaveGate.Handler.Theorems.Hosts
import WeaveGate.Http.RequestTarget
import WeaveGate.Lib.UriReference
import WeaveGate.Server.HttpsRedirect
import WeaveGate.Static.Theorems.Access

/-!
# Where the redirect server sends its clients

The location has the path and the query of the request behind the HTTPS host exactly for requests in origin form.
-/

namespace WeaveGate.Server

open Http
open Handler (IsHost withPort withPort_printable)
open Posix (Path FileTree)
open Static (Body Failure)

variable {β : Type} {t : FileTree} {page404 page50x : Path} {parseAuthority : HeaderValue → Option Authority}
  {opts : RedirectOpts} {req : Request β} {target : RequestTarget}

def HostAllowed (parseAuthority : HeaderValue → Option Authority) (opts : RedirectOpts) (req : Request β) : Prop :=
  ∃ host, typedHost parseAuthority req = some host ∧ Authority.host host ∈ opts.allowedHosts

/-- A location on the HTTPS server with the path and the query of the request. -/
structure LeadsToHttps (opts : RedirectOpts) (uri : Uri) (location : Str) : Prop where
  scheme : (UriReference.parse location).scheme = some "https".toList
  authority : (UriReference.parse location).authority = some (withPort opts.httpsHostname opts.httpsPort.toNat)
  path : (UriReference.parse location).path = uri.path
  query : (UriReference.parse location).query = uri.query
  fragment : (UriReference.parse location).fragment = none

/-- The answer to one request, of the function and of the service. -/
structure RedirectsToHttps (t : FileTree) (page404 page50x : Path) (parseAuthority : HeaderValue → Option Authority)
    (opts : RedirectOpts) (req : Request β) : Prop where
  allowed : HostAllowed parseAuthority opts req → ∃ resp location,
    redirectToHttps parseAuthority req opts = .ok resp ∧
      redirectService t page404 page50x parseAuthority opts req = .ok resp ∧ resp.status = .movedPermanently ∧
      resp.headers.getAll .location = [Posix.utf8 location] ∧ LeadsToHttps opts req.uri location
  refused : ¬ HostAllowed parseAuthority opts req → redirectToHttps parseAuthority req opts =
      .error (.status .badRequest) ∧ ∃ resp, redirectService t page404 page50x parseAuthority opts req = .ok resp ∧
      resp.status = .badRequest ∧ resp.headers.getAll .location = []

/-! ## The two answers -/

theorem redirectUrl_eq (opts : RedirectOpts) (uri : Uri) : redirectUrl opts uri = "https".toList ++
    ':' :: '/' :: '/' :: (withPort opts.httpsHostname opts.httpsPort.toNat ++ uri.toStr) := by
  have hscheme : "https://".toList = "https".toList ++ [':', '/', '/'] := by decide
  unfold redirectUrl withPort
  rw [hscheme]
  simp only [List.append_assoc, List.cons_append, List.nil_append]

theorem redirectUrl_printable (hhost : IsHost opts.httpsHostname) (target : RequestTarget) :
    (redirectUrl opts target.uri).all HeaderValue.isPrintable = true := by
  have hport := withPort_printable hhost opts.httpsPort.toNat
  have htext : redirectUrl opts target.uri =
      "https://".toList ++ (withPort opts.httpsHostname opts.httpsPort.toNat ++ target.uri.toStr) := redirectUrl_eq _ _
  rw [htext, List.all_append, List.all_append, hport, target.uri_printable]
  decide

theorem redirectToHttps_allowed (hhost : IsHost opts.httpsHostname) (htarget : req.uri = target.uri)
    (h : HostAllowed parseAuthority opts req) : redirectToHttps parseAuthority req opts =
      .ok (((Response.new Body.empty).withStatus .movedPermanently).insertHeader .location
        (Posix.utf8 (redirectUrl opts req.uri))) := by
  obtain ⟨host, hfield, hmem⟩ := h
  have hany : opts.allowedHosts.any (· = Authority.host host) = true :=
    List.any_eq_true.mpr ⟨_, hmem, decide_eq_true rfl⟩
  have hurl : HeaderValue.fromStr (redirectUrl opts req.uri) = some (Posix.utf8 (redirectUrl opts req.uri)) := by
    rw [htarget]
    exact (HeaderValue.fromStr_printable (redirectUrl_printable hhost target)).1
  rw [redirectToHttps, hfield]
  simp only [hany, hurl]
  rfl

theorem redirectToHttps_refused (h : ¬ HostAllowed parseAuthority opts req) :
    redirectToHttps parseAuthority req opts = .error (.status .badRequest) := by
  rw [redirectToHttps]
  cases hfield : typedHost parseAuthority req with
  | none => rfl
  | some host =>
      have hany : opts.allowedHosts.any (· = Authority.host host) = false := by
        rw [← Bool.not_eq_true, List.any_eq_true]
        rintro ⟨allowed, hmem, heq⟩
        exact h ⟨host, hfield, of_decide_eq_true heq ▸ hmem⟩
      simp only [hany]
      rfl

theorem errorResponse_badRequest (t : FileTree) (method : Method) (page404 page50x : Path) :
    (Handler.errorResponse t method .badRequest page404 page50x).status = .badRequest ∧
      (Handler.errorResponse t method .badRequest page404 page50x).headers.getAll .location = [] := by
  unfold Handler.errorResponse Handler.htmlResponse
  refine ⟨rfl, ?_⟩
  rw [Response.insertHeader_getAll, if_neg (by decide), Response.insertHeader_getAll, if_neg (by decide),
    Response.insertHeader_getAll, if_neg (by decide)]
  rfl

/-! ## The location -/

theorem isSchemeText_https : UriReference.IsSchemeText "https".toList := by
  have hall : "https".toList.all (fun c => c ≠ ':' ∧ c ≠ '/' ∧ c ≠ '?' ∧ c ≠ '#') = true := by decide
  exact ⟨by decide, fun c hc => of_decide_eq_true (List.all_eq_true.mp hall c hc)⟩

theorem isAuthorityChar_withPort {h : Str} (hh : IsHost h) (port : Nat) :
    ∀ c ∈ withPort h port, UriReference.isAuthorityChar c = true := by
  have hnot : ∀ d ∈ ['/', '?', '#'], d ∉ withPort h port := by
    intro d hd hmem
    have hclass : Handler.isRegNameChar d = false ∧ d ∉ [':', '[', ']'] ∧ d.isDigit = false := by
      simp only [List.mem_cons, List.not_mem_nil, or_false] at hd
      rcases hd with rfl | rfl | rfl <;> decide
    obtain ⟨hname, hmark, hdigit⟩ := hclass
    rcases List.mem_append.mp hmem with hmem | hmem
    · exact hh.not_mem hname hmark hmem
    · rcases List.mem_cons.mp hmem with rfl | hmem
      · exact hmark List.mem_cons_self
      · exact Handler.not_mem_toDigits hdigit port hmem
  intro c hc
  have hne : ∀ d ∈ ['/', '?', '#'], c ≠ d := fun d hd => ne_of_mem_of_not_mem hc (hnot d hd)
  simp [UriReference.isAuthorityChar, hne]

/-- Behind the port the text of the target goes on, up to a character that ends the authority. -/
theorem leadsToHttps_iff (target : RequestTarget) (hhost : IsHost opts.httpsHostname) :
    LeadsToHttps opts target.uri (redirectUrl opts target.uri) ↔ target.isOrigin = true := by
  have hport := isAuthorityChar_withPort hhost opts.httpsPort.toNat
  constructor
  · intro h
    obtain ⟨c, rest, htext, hquestion, hhash, hslash⟩ := target.exists_uri_head
    by_contra horigin
    have hc : UriReference.isAuthorityChar c = true := by
      simp [UriReference.isAuthorityChar, hquestion, hhash, mt hslash.mp horigin]
    have hauthority := h.authority
    rw [redirectUrl_eq, (UriReference.parse_origin isSchemeText_https _).2, htext, List.takeWhile_append_of_pos hport,
      List.takeWhile_cons_of_pos hc, Option.some_inj, List.append_right_eq_self] at hauthority
    exact List.cons_ne_nil _ _ hauthority
  · intro horigin
    cases target with
    | absolute scheme host pq _ _ _ => cases horigin
    | asterisk => cases horigin
    | authority host _ _ => cases horigin
    | origin pq hrooted =>
        have hpath : ∀ c ∈ pq.path, c ≠ '?' ∧ c ≠ '#' := fun c hc =>
          have hchar := PathAndQuery.isPathChar_of_mem_path c hc
          ⟨PathAndQuery.isPathChar_ne_question hchar, PathAndQuery.isPathChar_ne_hash hchar⟩
        have hquery : ∀ q, pq.query = some q → ∀ c ∈ q, c ≠ '#' := fun q hq c hc =>
          PathAndQuery.isQueryChar_ne_hash (PathAndQuery.isQueryChar_of_mem_query hq c hc)
        have hhead : pq.path.head? = some '/' := by
          have hraw : pq.rawPath ≠ [] := by
            intro hraw
            rw [hraw] at hrooted
            cases hrooted
          rw [PathAndQuery.path, if_neg hraw]
          exact of_decide_eq_true hrooted
        have hparse := UriReference.parse_absolute isSchemeText_https hport hpath hquery (.inr hhead)
        have hurl : redirectUrl opts (RequestTarget.origin pq hrooted).uri = "https".toList ++ ':' :: '/' :: '/' ::
            (withPort opts.httpsHostname opts.httpsPort.toNat ++ (pq.path ++ pq.query.elim [] ('?' :: ·))) :=
          redirectUrl_eq _ _
        rw [hurl]
        refine ⟨?_, ?_, ?_, ?_, ?_⟩ <;> rw [hparse] <;> rfl

theorem RedirectsToHttps.leads (h : RedirectsToHttps t page404 page50x parseAuthority opts req)
    (hhost : IsHost opts.httpsHostname) (htarget : req.uri = target.uri)
    (hallowed : HostAllowed parseAuthority opts req) : LeadsToHttps opts req.uri (redirectUrl opts req.uri) := by
  obtain ⟨resp, location, hresp, _, _, hlocation, hleads⟩ := h.allowed hallowed
  rw [redirectToHttps_allowed hhost htarget hallowed, Except.ok.injEq] at hresp
  rw [← hresp, Response.insertHeader_getAll, if_pos rfl, List.singleton_inj] at hlocation
  have htext := congrArg Utf8.decode hlocation
  rw [Utf8.decode_utf8, Utf8.decode_utf8, Option.some_inj] at htext
  rwa [← htext] at hleads

/-! ## Which requests are redirected -/

theorem redirects_to_https_iff (hhost : IsHost opts.httpsHostname) (htarget : req.uri = target.uri) :
    RedirectsToHttps t page404 page50x parseAuthority opts req ↔
      (HostAllowed parseAuthority opts req → target.isOrigin = true) := by
  constructor
  · intro h hallowed
    have hleads := h.leads hhost htarget hallowed
    rw [htarget] at hleads
    exact (leadsToHttps_iff target hhost).mp hleads
  · intro h
    refine ⟨fun hallowed => ?_, fun hrefused => ⟨redirectToHttps_refused hrefused, ?_⟩⟩
    · have hresp := redirectToHttps_allowed hhost htarget hallowed
      refine ⟨_, redirectUrl opts req.uri, hresp, ?_, rfl, ?_, ?_⟩
      · rw [redirectService, hresp]
      · rw [Response.insertHeader_getAll, if_pos rfl]
      · rw [htarget]
        exact (leadsToHttps_iff target hhost).mpr (h hallowed)
    · refine ⟨_, ?_, errorResponse_badRequest t req.method page404 page50x⟩
      rw [redirectService, redirectToHttps_refused hrefused]

/-- An authority is taken as it is written. -/
def sampleAuthority (value : HeaderValue) : Option Authority := value.toStr

def sampleRedirect : RedirectOpts :=
  { httpsHostname := "localhost".toList, httpsPort := 4433, allowedHosts := ["example.com".toList] }

theorem isHost_sampleRedirect : IsHost sampleRedirect.httpsHostname := .regName (by decide)

def sampleRequest (target : RequestTarget) : Request Unit :=
  { method := .get, uri := target.uri, headers := [(.host, HeaderValue.fromStatic "example.com:80")], body := () }

theorem sampleRequest_allowed (target : RequestTarget) :
    HostAllowed sampleAuthority sampleRedirect (sampleRequest target) := by
  have htext : HeaderValue.toStr (HeaderValue.fromStatic "example.com:80") = some "example.com:80".toList :=
    (@HeaderValue.fromStr_printable "example.com:80".toList (by decide)).2
  exact ⟨"example.com:80".toList, htext, by decide⟩

def ordersPath : PathAndQuery := ⟨"/orders".toList, some "page=2".toList, by decide, by decide⟩

def originTarget : RequestTarget := .origin ordersPath (by decide)

/-- `http://example.com/orders?page=2`, as for a proxy. -/
def absoluteTarget : RequestTarget :=
  .absolute "http".toList "example.com".toList ordersPath (by decide) (by decide) (by decide)

theorem redirects_to_https_origin : IsHost sampleRedirect.httpsHostname ∧
    HostAllowed sampleAuthority sampleRedirect (sampleRequest originTarget) ∧
    RedirectsToHttps Static.linkedIndex [] [] sampleAuthority sampleRedirect (sampleRequest originTarget) :=
  ⟨isHost_sampleRedirect, sampleRequest_allowed _,
    (redirects_to_https_iff isHost_sampleRedirect rfl).mpr fun _ => (rfl : originTarget.isOrigin = true)⟩

/-- The port of the location goes on with the scheme of the request. -/
theorem absolute_form_misdirected : HostAllowed sampleAuthority sampleRedirect (sampleRequest absoluteTarget) ∧
    redirectUrl sampleRedirect (sampleRequest absoluteTarget).uri =
      "https://localhost:4433http://example.com/orders?page=2".toList ∧
    ¬ RedirectsToHttps Static.linkedIndex [] [] sampleAuthority sampleRedirect (sampleRequest absoluteTarget) := by
  have hurl : redirectUrl sampleRedirect (sampleRequest absoluteTarget).uri =
      "https://localhost:4433http://example.com/orders?page=2".toList := by decide
  refine ⟨sampleRequest_allowed _, hurl, fun h => ?_⟩
  have htarget : (sampleRequest absoluteTarget).uri = absoluteTarget.uri := rfl
  have hauthority := (h.leads isHost_sampleRedirect htarget (sampleRequest_allowed _)).authority
  rw [hurl] at hauthority
  exact absurd hauthority (by decide)

end WeaveGate.Server
