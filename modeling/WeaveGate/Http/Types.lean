import WeaveGate.Lib.Multimap
import WeaveGate.Lib.Text
import WeaveGate.Lib.Utf8

/-!
# Methods, status codes, header maps, URIs and messages

The vocabulary of the `http` crate as far as the gateway reads it.
-/

namespace WeaveGate.Http

open Posix (Octets utf8)

def isTokenChar (c : Char) : Bool := c.isAlphanum || c ∈ "!#$%&'*+-.^_\x60|~".toList

inductive Method where
  | options
  | get
  | post
  | put
  | delete
  | head
  | trace
  | connect
  | patch
  | extension (token : Str)
deriving DecidableEq

namespace Method

def asStr : Method → Str
  | options => "OPTIONS".toList
  | get => "GET".toList
  | post => "POST".toList
  | put => "PUT".toList
  | delete => "DELETE".toList
  | head => "HEAD".toList
  | trace => "TRACE".toList
  | connect => "CONNECT".toList
  | patch => "PATCH".toList
  | extension token => token

/-- Method names are case-sensitive. -/
def fromStr (s : Str) : Option Method :=
  match [options, get, post, put, delete, head, trace, connect, patch].find? (·.asStr = s) with
  | some method => some method
  | none => if s ≠ [] ∧ s.all isTokenChar = true then some (extension s) else none

end Method

/-! ## Status codes -/

structure StatusCode where
  code : Nat
  valid : 100 ≤ code ∧ code < 1000
deriving DecidableEq

namespace StatusCode

def switchingProtocols : StatusCode := ⟨101, by decide⟩
def ok : StatusCode := ⟨200, by decide⟩
def noContent : StatusCode := ⟨204, by decide⟩
def partialContent : StatusCode := ⟨206, by decide⟩
def movedPermanently : StatusCode := ⟨301, by decide⟩
def found : StatusCode := ⟨302, by decide⟩
def notModified : StatusCode := ⟨304, by decide⟩
def permanentRedirect : StatusCode := ⟨308, by decide⟩
def badRequest : StatusCode := ⟨400, by decide⟩
def unauthorized : StatusCode := ⟨401, by decide⟩
def forbidden : StatusCode := ⟨403, by decide⟩
def notFound : StatusCode := ⟨404, by decide⟩
def methodNotAllowed : StatusCode := ⟨405, by decide⟩
def preconditionFailed : StatusCode := ⟨412, by decide⟩
def rangeNotSatisfiable : StatusCode := ⟨416, by decide⟩
def internalServerError : StatusCode := ⟨500, by decide⟩
def badGateway : StatusCode := ⟨502, by decide⟩
def serviceUnavailable : StatusCode := ⟨503, by decide⟩

end StatusCode

/-! ## Headers -/

/-- A field name, in lower case as the `http` crate keeps it. -/
abbrev HeaderName := Str

abbrev HeaderValue := Octets

abbrev HeaderMap := Multimap HeaderName HeaderValue

namespace HeaderValue

def isVisibleAscii (b : UInt8) : Bool := (32 ≤ b && b < 127) || b = 9

def toStr (v : HeaderValue) : Option Str :=
  if v.all isVisibleAscii then some (v.map fun b => Char.ofNat b.toNat) else none

/-- A value may hold every byte except control characters. -/
def fromOctets (v : Octets) : Option HeaderValue :=
  if v.all fun b => (32 ≤ b && b ≠ 127) || b = 9 then some v else none

def fromStr (s : Str) : Option HeaderValue := fromOctets (utf8 s)

def fromStatic (s : String) : HeaderValue := utf8 s.toList

/-- Printable ASCII characters, blanks and tabs. -/
def isPrintable (c : Char) : Bool := (32 ≤ c.toNat && c.toNat < 127) || c.toNat = 9

theorem isPrintable_of_isAlphanum {c : Char} (h : c.isAlphanum = true) : isPrintable c = true := by
  have hrange := Text.toNat_of_isAlphanum h
  simp only [isPrintable, Bool.or_eq_true, Bool.and_eq_true, decide_eq_true_eq]
  omega

theorem toDigits_printable (n : Nat) : (Nat.toDigits 10 n).all isPrintable = true :=
  List.all_eq_true.mpr fun c hc => isPrintable_of_isAlphanum <| by
    rw [Char.isAlphanum, Nat.isDigit_of_mem_toDigits (by decide) (by decide) hc, Bool.or_true]

theorem utf8_printable {s : Str} (h : s.all isPrintable = true) : utf8 s = s.map fun c => UInt8.ofNat c.toNat :=
  Utf8.utf8_ascii fun c hc => by
    have hc := List.all_eq_true.mp h c hc
    simp only [isPrintable, Bool.or_eq_true, Bool.and_eq_true, decide_eq_true_eq] at hc
    omega

theorem isVisibleAscii_printable {c : Char} (h : isPrintable c = true) :
    isVisibleAscii (UInt8.ofNat c.toNat) = true ∧ (UInt8.ofNat c.toNat).toNat = c.toNat := by
  have hc : 32 ≤ c.toNat ∧ c.toNat < 127 ∨ c.toNat = 9 := by simpa [isPrintable] using h
  have hnat : (UInt8.ofNat c.toNat).toNat = c.toNat := by rw [UInt8.toNat_ofNat']; omega
  refine ⟨?_, hnat⟩
  simp only [isVisibleAscii, Bool.or_eq_true, Bool.and_eq_true, decide_eq_true_eq]
  rcases hc with ⟨hlo, hhi⟩ | htab
  · refine .inl ⟨UInt8.le_iff_toNat_le.mpr ?_, UInt8.lt_iff_toNat_lt.mpr ?_⟩
    · rw [hnat]; exact hlo
    · rw [hnat]; exact hhi
  · exact .inr (by rw [htab]; rfl)

/-- Printable text is a legal value, and is read back as it was written. -/
theorem fromStr_printable {s : Str} (h : s.all isPrintable = true) : fromStr s = some (utf8 s) ∧
    toStr (utf8 s) = some s := by
  have hmem : ∀ b ∈ utf8 s, ∃ c ∈ s, b = UInt8.ofNat c.toNat := fun b hb => by
    rw [utf8_printable h] at hb
    obtain ⟨c, hc, rfl⟩ := List.mem_map.mp hb
    exact ⟨c, hc, rfl⟩
  have hvisible : (utf8 s).all isVisibleAscii = true := List.all_eq_true.mpr fun b hb => by
    obtain ⟨c, hc, rfl⟩ := hmem b hb
    exact (isVisibleAscii_printable (List.all_eq_true.mp h c hc)).1
  constructor
  · unfold fromStr fromOctets
    refine if_pos (List.all_eq_true.mpr fun b hb => ?_)
    have hb := List.all_eq_true.mp hvisible b hb
    simp only [isVisibleAscii, Bool.or_eq_true, Bool.and_eq_true, decide_eq_true_eq] at hb ⊢
    rcases hb with ⟨hlo, hhi⟩ | rfl
    · exact .inl ⟨hlo, fun h => absurd (h ▸ hhi) (by decide)⟩
    · exact .inr rfl
  · unfold toStr
    rw [if_pos hvisible, utf8_printable h, List.map_map]
    congr 1
    refine (List.map_congr_left fun c hc => ?_).trans (List.map_id s)
    change Char.ofNat (UInt8.ofNat c.toNat).toNat = c
    rw [(isVisibleAscii_printable (List.all_eq_true.mp h c hc)).2, Char.ofNat_toNat]

theorem toStr_printable {v : HeaderValue} {s : Str} (h : toStr v = some s) :
    s.all isPrintable = true ∧ utf8 s = v := by
  unfold toStr at h
  split at h
  · rename_i hvisible
    cases h
    have hbyte : ∀ b ∈ v, (Char.ofNat b.toNat).toNat = b.toNat ∧
        isPrintable (Char.ofNat b.toNat) = true := by
      intro b hb
      have hb := List.all_eq_true.mp hvisible b hb
      simp only [isVisibleAscii, Bool.or_eq_true, Bool.and_eq_true, decide_eq_true_eq,
        UInt8.le_iff_toNat_le, UInt8.lt_iff_toNat_lt, ← UInt8.toNat_inj] at hb
      have hb : 32 ≤ b.toNat ∧ b.toNat < 127 ∨ b.toNat = 9 := hb
      have hchar : (Char.ofNat b.toNat).toNat = b.toNat := by
        have hvalid : b.toNat.isValidChar := by
          unfold Nat.isValidChar
          omega
        rw [Char.ofNat, dif_pos hvalid]
        rfl
      refine ⟨hchar, ?_⟩
      simp only [isPrintable, hchar, Bool.or_eq_true, Bool.and_eq_true, decide_eq_true_eq]
      exact hb
    have hall : (v.map fun b => Char.ofNat b.toNat).all isPrintable = true := by
      simp only [List.all_map, List.all_eq_true]
      exact fun b hb => (hbyte b hb).2
    refine ⟨hall, ?_⟩
    rw [utf8_printable hall, List.map_map]
    refine (List.map_congr_left fun b hb => ?_).trans (List.map_id v)
    simp [(hbyte b hb).1]
  · cases h

end HeaderValue

namespace HeaderName

def accept : HeaderName := "accept".toList
def accessControlAllowHeaders : HeaderName := "access-control-allow-headers".toList
def accessControlAllowMethods : HeaderName := "access-control-allow-methods".toList
def accessControlAllowOrigin : HeaderName := "access-control-allow-origin".toList
def accessControlExposeHeaders : HeaderName := "access-control-expose-headers".toList
def accessControlMaxAge : HeaderName := "access-control-max-age".toList
def accessControlRequestHeaders : HeaderName := "access-control-request-headers".toList
def accessControlRequestMethod : HeaderName := "access-control-request-method".toList
def acceptEncoding : HeaderName := "accept-encoding".toList
def acceptRanges : HeaderName := "accept-ranges".toList
def allow : HeaderName := "allow".toList
def authorization : HeaderName := "authorization".toList
def cacheControl : HeaderName := "cache-control".toList
def connection : HeaderName := "connection".toList
def contentDisposition : HeaderName := "content-disposition".toList
def contentEncoding : HeaderName := "content-encoding".toList
def contentLength : HeaderName := "content-length".toList
def contentRange : HeaderName := "content-range".toList
def contentSecurityPolicy : HeaderName := "content-security-policy".toList
def contentType : HeaderName := "content-type".toList
def host : HeaderName := "host".toList
def ifModifiedSince : HeaderName := "if-modified-since".toList
def ifRange : HeaderName := "if-range".toList
def ifUnmodifiedSince : HeaderName := "if-unmodified-since".toList
def keepAlive : HeaderName := "keep-alive".toList
def lastModified : HeaderName := "last-modified".toList
def location : HeaderName := "location".toList
def origin : HeaderName := "origin".toList
def proxyAuthenticate : HeaderName := "proxy-authenticate".toList
def proxyAuthorization : HeaderName := "proxy-authorization".toList
def proxyConnection : HeaderName := "proxy-connection".toList
def range : HeaderName := "range".toList
def strictTransportSecurity : HeaderName := "strict-transport-security".toList
def te : HeaderName := "te".toList
def trailer : HeaderName := "trailer".toList
def trailers : HeaderName := "trailers".toList
def transferEncoding : HeaderName := "transfer-encoding".toList
def upgrade : HeaderName := "upgrade".toList
def vary : HeaderName := "vary".toList
def wwwAuthenticate : HeaderName := "www-authenticate".toList
def xContentTypeOptions : HeaderName := "x-content-type-options".toList
def xForwardedFor : HeaderName := "x-forwarded-for".toList
def xForwardedHost : HeaderName := "x-forwarded-host".toList
def xForwardedProto : HeaderName := "x-forwarded-proto".toList
def xFrameOptions : HeaderName := "x-frame-options".toList

/-- A name in any case, of at most 65535 characters. -/
def fromStr (s : Str) : Option HeaderName :=
  if s ≠ [] ∧ s.length ≤ 65535 ∧ s.all isTokenChar = true then some (Text.toAsciiLowercase s) else none

end HeaderName

/-! ## URIs -/

/-- `[userinfo@]host[:port]`. -/
abbrev Authority := Str

namespace Authority

def hostPort (a : Authority) : Str := ((Text.rsplitOnce '@' a).map Prod.snd).getD a

/-- The host without user information and port. An IPv6 literal keeps its brackets. -/
def host (a : Authority) : Str :=
  if Text.startsWith (hostPort a) '[' then (hostPort a).takeWhile (· ≠ ']') ++ [']']
  else (hostPort a).takeWhile (· ≠ ':')

def portU16 (a : Authority) : Option Nat :=
  (Text.rsplitOnce ':' a).bind fun s => Text.parseUnsigned 65535 s.2

end Authority

/-- The characters of a path that need no escape, and the three that are let through for embedded JSON. -/
def isPathChar (c : Char) : Bool :=
  let n := c.toNat
  n = 0x21 || n = 0x22 || (0x24 ≤ n && n ≤ 0x3B) || n = 0x3D || (0x40 ≤ n && n ≤ 0x5F) || (0x61 ≤ n && n ≤ 0x7E)

def isQueryChar (c : Char) : Bool :=
  let n := c.toNat
  n = 0x21 || (0x24 ≤ n && n ≤ 0x3B) || n = 0x3D || (0x3F ≤ n && n ≤ 0x7E)

/-- The path is empty when the URI names only an origin. -/
structure PathAndQuery where
  rawPath : Str
  query : Option Str
  path_legal : rawPath.all isPathChar = true
  query_legal : query.all (·.all isQueryChar) = true
deriving DecidableEq

namespace PathAndQuery

theorem legal_root : "/".toList.all isPathChar = true := by decide

theorem legal_none : (none : Option Str).all (·.all isQueryChar) = true := rfl

def queryText (query : Option Str) : Str := query.elim [] ('?' :: ·)

/-- An empty text counts as `/`. A query without a path does not. -/
def asStr (pq : PathAndQuery) : Str :=
  let data := pq.rawPath ++ queryText pq.query
  if data = [] then ['/'] else data

def path (pq : PathAndQuery) : Str := if pq.rawPath = [] then ['/'] else pq.rawPath

def build? (rawPath : Str) (query : Option Str) : Option PathAndQuery :=
  if h : rawPath.all isPathChar = true ∧ query.all (·.all isQueryChar) = true then
    some ⟨rawPath, query, h.1, h.2⟩
  else none

def parse (s : Str) : Option PathAndQuery :=
  match Text.splitOnce '?' s with
  | none => build? s none
  | some (rawPath, query) => build? rawPath (some query)

end PathAndQuery

structure Uri where
  scheme : Option Str
  authority : Option Authority
  pathAndQuery : Option PathAndQuery
deriving DecidableEq

namespace Uri

def path (u : Uri) : Str := u.pathAndQuery.elim [] PathAndQuery.path
def query (u : Uri) : Option Str := u.pathAndQuery.bind PathAndQuery.query

def toStr (u : Uri) : Str :=
  u.scheme.elim [] (· ++ "://".toList) ++ u.authority.getD [] ++ u.path ++ PathAndQuery.queryText u.query

end Uri

/-! ## Messages -/

structure Request (β : Type) where
  method : Method
  uri : Uri
  headers : HeaderMap
  body : β
deriving DecidableEq

structure Response (β : Type) where
  status : StatusCode
  headers : HeaderMap
  body : β
deriving DecidableEq

namespace Response

variable {β : Type}

def new (body : β) : Response β := ⟨.ok, [], body⟩

def insertHeader (r : Response β) (n : HeaderName) (v : HeaderValue) : Response β :=
  { r with headers := r.headers.insert n v }

def removeHeader (r : Response β) (n : HeaderName) : Response β :=
  { r with headers := r.headers.remove n }

def withStatus (r : Response β) (s : StatusCode) : Response β := { r with status := s }

@[simp] theorem insertHeader_status (r : Response β) (n : HeaderName) (v : HeaderValue) :
    (r.insertHeader n v).status = r.status := rfl

@[simp] theorem insertHeader_body (r : Response β) (n : HeaderName) (v : HeaderValue) :
    (r.insertHeader n v).body = r.body := rfl

@[simp] theorem removeHeader_status (r : Response β) (n : HeaderName) :
    (r.removeHeader n).status = r.status := rfl

@[simp] theorem removeHeader_body (r : Response β) (n : HeaderName) :
    (r.removeHeader n).body = r.body := rfl

theorem insertHeader_getAll (r : Response β) (n n' : HeaderName) (v : HeaderValue) :
    (r.insertHeader n v).headers.getAll n' = if n = n' then [v] else r.headers.getAll n' :=
  Multimap.getAll_insert r.headers n n' v

@[simp] theorem withStatus_status (r : Response β) (s : StatusCode) : (r.withStatus s).status = s := rfl

@[simp] theorem withStatus_headers (r : Response β) (s : StatusCode) : (r.withStatus s).headers = r.headers := rfl

@[simp] theorem withStatus_body (r : Response β) (s : StatusCode) : (r.withStatus s).body = r.body := rfl

end Response

end WeaveGate.Http
