import WeaveGate.Handler.LogAddr
import WeaveGate.Http.RequestTarget

/-!
# What the log says about a request

A reader of the log finds in each line the method, the URI and the addresses. Whatever the header fields hold, they
cannot write any of them in another's place.
-/

namespace WeaveGate.Handler

open Http

variable {β : Type}

/-! ## Words of a line -/

theorem splitOn_words {w : Str} {ws : List Str} (hw : ' ' ∉ w) (hws : ∀ w ∈ ws, ' ' ∉ w) :
    (w ++ ws.flatMap (' ' :: ·)).splitOn ' ' = w :: ws := by
  induction ws generalizing w with
  | nil =>
      rw [List.flatMap_nil, List.append_nil]
      exact List.splitOn_eq_singleton hw
  | cons w' ws ih =>
      rw [List.flatMap_cons, List.cons_append, List.splitOn_append_cons_self_of_not_mem hw,
        ih (hws w' List.mem_cons_self) fun w hw => hws w (List.mem_cons_of_mem w' hw)]

/-- What a line says. -/
structure LoggedRequest where
  method : Str
  uri : Str
  remoteAddr : Option Str
  realIp : Option IpAddr
  forwardedFor : Option IpAddr
deriving DecidableEq

/-- What there is to say about a request. Only a trusted peer is believed about addresses. -/
def loggedRequest (opts : LogAddrOpts) (req : Request β) (remoteAddr : Option SocketAddr) : LoggedRequest :=
  { method := req.method.asStr
    uri := req.uri.toStr
    remoteAddr := (remoteAddr.filter fun _ => opts.logRemoteAddress).map SocketAddr.display
    realIp := (realIp req).filter fun _ => opts.logXRealIp && trustsPeer opts remoteAddr
    forwardedFor := (forwardedFor req).filter fun _ => opts.logForwardedFor && trustsPeer opts remoteAddr }

def fieldWord (key : Str) (value : Option Str) : List Str := value.toList.map (key ++ ·)

def LoggedRequest.addressWords (logged : LoggedRequest) : List Str :=
  fieldWord "remote_addr=".toList logged.remoteAddr ++
  (fieldWord "x_real_ip=".toList (logged.realIp.map IpAddr.display) ++
  fieldWord "real_remote_ip=".toList (logged.forwardedFor.map IpAddr.display))

theorem logAddrPreProcess_text (opts : LogAddrOpts) (req : Request β) (remoteAddr : Option SocketAddr) :
    (logAddrPreProcess opts req remoteAddr).text = "incoming".toList ++
      ("request:".toList :: ("method=".toList ++ req.method.asStr) :: ("uri=".toList ++ req.uri.toStr) ::
        (loggedRequest opts req remoteAddr).addressWords).flatMap (' ' :: ·) := by
  have hfield : ∀ {α : Type} (enabled : Bool) (addr : Option α) (key : Str) (display : α → Str),
      (if enabled then addr.elim [] fun a => ' ' :: (key ++ display a) else []) =
        (fieldWord key ((addr.filter fun _ => enabled).map display)).flatMap (' ' :: ·) := by
    intro α enabled addr key display
    cases enabled <;> cases addr <;> simp [fieldWord, Option.filter]
  have hhead : "incoming request: method=".toList = "incoming".toList ++ ' ' :: ("request:".toList ++ ' ' ::
    "method=".toList) := rfl
  have huri : " uri=".toList = ' ' :: "uri=".toList := rfl
  have h₁ : " remote_addr=".toList = ' ' :: "remote_addr=".toList := rfl
  have h₂ : " x_real_ip=".toList = ' ' :: "x_real_ip=".toList := rfl
  have h₃ : " real_remote_ip=".toList = ' ' :: "real_remote_ip=".toList := rfl
  unfold logAddrPreProcess LoggedRequest.addressWords loggedRequest
  simp only [hhead, huri, h₁, h₂, h₃, hfield, List.flatMap_append, List.flatMap_cons, List.append_assoc,
    List.cons_append]

/-! ## What is read off a line -/

def readField (key : Str) (words : List Str) : Option Str := words.findSome? fun word => Text.stripPrefix word key

/-- A reader that knows nothing but the words and the keys. -/
def readLine (line : Str) : Option LoggedRequest :=
  match line.splitOn ' ' with
  | _ :: _ :: method :: uri :: words => do
      let method ← Text.stripPrefix method "method=".toList
      let uri ← Text.stripPrefix uri "uri=".toList
      return { method, uri, remoteAddr := readField "remote_addr=".toList words
               realIp := (readField "x_real_ip=".toList words).bind IpAddr.parse
               forwardedFor := (readField "real_remote_ip=".toList words).bind IpAddr.parse }
  | _ => none

theorem readField_fieldWord (key : Str) (value : Option Str) (words : List Str) :
    readField key (fieldWord key value ++ words) = value.or (readField key words) := by
  cases value with
  | none => rfl
  | some v => simp [readField, fieldWord, Text.stripPrefix_append]

theorem readField_other {key key' : Str} (h : ∀ v, Text.stripPrefix (key' ++ v) key = none) (value : Option Str)
    (words : List Str) : readField key (fieldWord key' value ++ words) = readField key words := by
  cases value with
  | none => rfl
  | some v => simp [readField, fieldWord, h]

theorem bind_parse_display (addr : Option IpAddr) : (addr.map IpAddr.display).bind IpAddr.parse = addr := by
  cases addr with
  | none => rfl
  | some addr => exact IpAddr.parse_display addr

/-- The fields of a line are read back. -/
theorem readField_addressWords (logged : LoggedRequest) :
    readField "remote_addr=".toList logged.addressWords = logged.remoteAddr ∧
    (readField "x_real_ip=".toList logged.addressWords).bind IpAddr.parse = logged.realIp ∧
    (readField "real_remote_ip=".toList logged.addressWords).bind IpAddr.parse = logged.forwardedFor := by
  have hlast : ∀ key value, readField key (fieldWord key value) = value := fun key value => by
    have h := readField_fieldWord key value []
    rwa [List.append_nil, show readField key [] = none from rfl, Option.or_none] at h
  have hnone : ∀ {key key' : Str} (value : Option Str), (∀ v, Text.stripPrefix (key' ++ v) key = none) →
      readField key (fieldWord key' value) = none := fun {key key'} value h => by
    have h := readField_other h value []
    rwa [List.append_nil] at h
  unfold LoggedRequest.addressWords
  refine ⟨?_, ?_, ?_⟩
  · rw [readField_fieldWord, readField_other (fun _ => rfl), hnone _ (fun _ => rfl), Option.or_none]
  · rw [readField_other (fun _ => rfl), readField_fieldWord, hnone _ (fun _ => rfl), Option.or_none, bind_parse_display]
  · rw [readField_other (fun _ => rfl), readField_other (fun _ => rfl), hlast, bind_parse_display]

/-! ## Characters -/

/-- A character of a word of the log. -/
def isWordChar (c : Char) : Bool := HeaderValue.isPrintable c && c ≠ ' '

theorem space_not_mem {s : Str} (h : s.all isWordChar = true) : ' ' ∉ s := fun hmem => by
  have := List.all_eq_true.mp h ' ' hmem
  revert this
  decide

theorem isWordChar_of_isAlphanum {c : Char} (h : c.isAlphanum = true) : isWordChar c = true := by
  have hne : c ≠ ' ' := by
    rintro rfl
    revert h
    decide
  simp [isWordChar, HeaderValue.isPrintable_of_isAlphanum h, hne]

theorem wordChars_of_class {p : Char → Bool} {marks s : Str} (hp : ∀ c, p c = (c.isAlphanum || decide (c ∈ marks)))
    (hmarks : marks.all isWordChar = true) (h : s.all p = true) : s.all isWordChar = true := by
  refine List.all_eq_true.mpr fun c hc => ?_
  have hchar := List.all_eq_true.mp h c hc
  rw [hp, Bool.or_eq_true, decide_eq_true_eq] at hchar
  rcases hchar with hchar | hchar
  · exact isWordChar_of_isAlphanum hchar
  · exact List.all_eq_true.mp hmarks c hchar

theorem wordChar_of_range {c : Char} (h : 33 ≤ c.toNat ∧ c.toNat < 127) : isWordChar c = true := by
  have hne : c ≠ ' ' := by
    rintro rfl
    revert h
    decide
  simp [isWordChar, HeaderValue.isPrintable, hne]
  omega

theorem addrChar_wordChar {c : Char} (h : IpAddr.isAddrChar c = true) : isWordChar c = true := by
  unfold IpAddr.isAddrChar at h
  rw [Bool.or_eq_true, Bool.or_eq_true, decide_eq_true_eq, decide_eq_true_eq] at h
  rcases h with (h | rfl) | rfl
  · refine wordChar_of_range ?_
    have hvalue : (IpAddr.digitValue c).isSome = true := by
      unfold IpAddr.toDigit at h
      cases hvalue : IpAddr.digitValue c with
      | none => rw [hvalue] at h; cases h
      | some d => rfl
    unfold IpAddr.digitValue at hvalue
    dsimp only at hvalue
    split_ifs at hvalue
    all_goals first | omega | cases hvalue
  · decide
  · decide

theorem pathChar_wordChar {c : Char} (h : isPathChar c = true) : isWordChar c = true := by
  refine wordChar_of_range ?_
  simp only [isPathChar, Bool.or_eq_true, Bool.and_eq_true, decide_eq_true_eq] at h
  omega

theorem queryChar_wordChar {c : Char} (h : isQueryChar c = true) : isWordChar c = true := by
  refine wordChar_of_range ?_
  simp only [isQueryChar, Bool.or_eq_true, Bool.and_eq_true, decide_eq_true_eq] at h
  omega

theorem pathAndQuery_wordChars (pq : PathAndQuery) :
    (pq.path ++ PathAndQuery.queryText pq.query).all isWordChar = true := by
  have hpath : pq.path.all isWordChar = true :=
    List.all_eq_true.mpr fun c hc => pathChar_wordChar (PathAndQuery.isPathChar_of_mem_path c hc)
  have hquery : (PathAndQuery.queryText pq.query).all isWordChar = true := by
    cases hq : pq.query with
    | none => rfl
    | some q =>
        refine List.all_eq_true.mpr fun c hc => ?_
        rcases List.mem_cons.mp hc with rfl | hc
        · decide
        · exact queryChar_wordChar (PathAndQuery.isQueryChar_of_mem_query hq c hc)
  rw [List.all_append, hpath, hquery]
  rfl

theorem uri_wordChars (target : RequestTarget) : target.uri.toStr.all isWordChar = true := by
  have hscheme : ∀ {s : Str}, s.all isSchemeChar = true → s.all isWordChar = true :=
    wordChars_of_class (fun _ => rfl) (by decide)
  have hauthority : ∀ {s : Str}, s.all isAuthorityText = true → s.all isWordChar = true :=
    wordChars_of_class (fun _ => rfl) (by decide)
  cases target with
  | origin pq _ => exact pathAndQuery_wordChars pq
  | absolute scheme host pq hs hh _ =>
      show ((scheme ++ "://".toList ++ host ++ pq.path) ++ PathAndQuery.queryText pq.query).all _ = true
      rw [List.append_assoc, List.all_append, pathAndQuery_wordChars, List.all_append, List.all_append, hscheme hs,
        hauthority hh]
      decide
  | asterisk => decide
  | authority host _ hh =>
      show (host ++ [] ++ []).all _ = true
      rw [List.append_nil, List.append_nil, hauthority hh]

/-- The method of a request is a token. -/
theorem method_wordChars {name : Str} {method : Method} (h : Method.fromStr name = some method) :
    method.asStr.all isWordChar = true := by
  unfold Method.fromStr at h
  split at h
  · cases h
    rename_i hfind
    have hmem := List.mem_of_find?_eq_some hfind
    simp only [List.mem_cons, List.not_mem_nil, or_false] at hmem
    rcases hmem with rfl | rfl | rfl | rfl | rfl | rfl | rfl | rfl | rfl <;> decide
  · split at h
    · cases h
      rename_i htoken
      exact wordChars_of_class (fun _ => rfl) (by decide) htoken.2
    · cases h

theorem addrChars_wordChars {s : Str} (h : s.all IpAddr.isAddrChar = true) : s.all isWordChar = true :=
  List.all_eq_true.mpr fun c hc => addrChar_wordChar (List.all_eq_true.mp h c hc)

theorem socketAddr_wordChars (addr : SocketAddr) : addr.display.all isWordChar = true := by
  have hdigits : ∀ n, (Nat.toDigits 10 n).all isWordChar = true := fun n =>
    addrChars_wordChars (IpAddr.toDigits_addrChars (by decide) n)
  have hmarks : isWordChar '[' = true ∧ isWordChar ']' = true ∧ isWordChar ':' = true ∧ isWordChar '%' = true := by
    decide
  cases addr with
  | v4 ip port =>
      simp [SocketAddr.display, List.all_append, addrChars_wordChars (IpAddr.fmtIpv4_addrChars ip), hdigits, hmarks]
  | v6 ip port scopeId =>
      by_cases hscope : scopeId = 0 <;>
        simp [SocketAddr.display, List.all_append, addrChars_wordChars (IpAddr.fmtIpv6_addrChars ip), hdigits, hmarks,
          hscope]

theorem addressWords_wordChars (opts : LogAddrOpts) (req : Request β) (remoteAddr : Option SocketAddr) :
    ∀ w ∈ (loggedRequest opts req remoteAddr).addressWords, w.all isWordChar = true := by
  have hfield : ∀ {key : Str} {value : Option Str}, key.all isWordChar = true → (∀ v ∈ value, v.all isWordChar = true) →
      ∀ w ∈ fieldWord key value, w.all isWordChar = true := by
    intro key value hkey hvalue w hw
    obtain ⟨v, hv, rfl⟩ := List.mem_map.mp hw
    rw [List.all_append, hkey, hvalue v (Option.mem_toList.mp hv)]
    rfl
  have haddr : ∀ {addr : Option IpAddr}, ∀ v ∈ addr.map IpAddr.display, v.all isWordChar = true := by
    intro addr v hv
    obtain ⟨a, _, rfl⟩ := Option.map_eq_some_iff.mp hv
    exact addrChars_wordChars (IpAddr.display_addrChars a)
  intro w hw
  rcases List.mem_append.mp hw with hw | hw
  · refine hfield (by decide) (fun v hv => ?_) w hw
    obtain ⟨a, _, rfl⟩ := Option.map_eq_some_iff.mp hv
    exact socketAddr_wordChars a
  · rcases List.mem_append.mp hw with hw | hw
    · exact hfield (by decide) haddr w hw
    · exact hfield (by decide) haddr w hw

/-! ## Lines -/

/-- What a line gives away, and to whom. -/
structure LogsFaithfully (opts : LogAddrOpts) (req : Request β) (remoteAddr : Option SocketAddr) : Prop where
  /-- It stays one line. -/
  printable : (logAddrPreProcess opts req remoteAddr).text.all HeaderValue.isPrintable = true
  read : readLine (logAddrPreProcess opts req remoteAddr).text = some (loggedRequest opts req remoteAddr)
  /-- A peer that is not trusted writes nothing into it with its header fields. -/
  untrusted : trustsPeer opts remoteAddr = false → ∀ headers,
    logAddrPreProcess opts { req with headers := headers } remoteAddr = logAddrPreProcess opts req remoteAddr

/-- Of every request with a method and a URI that a client can send. -/
theorem logsFaithfully (opts : LogAddrOpts) {req : Request β} (hmethod : ∃ name, Method.fromStr name = some req.method)
    (huri : ∃ target : RequestTarget, target.uri = req.uri) (remoteAddr : Option SocketAddr) :
    LogsFaithfully opts req remoteAddr := by
  obtain ⟨name, hmethod⟩ := hmethod
  obtain ⟨target, huri⟩ := huri
  have hmethod : ("method=".toList ++ req.method.asStr).all isWordChar = true := by
    rw [List.all_append, method_wordChars hmethod]
    decide
  have huri : ("uri=".toList ++ req.uri.toStr).all isWordChar = true := by
    rw [List.all_append, ← huri, uri_wordChars]
    decide
  have hwords : ∀ w ∈ "request:".toList :: ("method=".toList ++ req.method.asStr) :: ("uri=".toList ++ req.uri.toStr) ::
      (loggedRequest opts req remoteAddr).addressWords, w.all isWordChar = true := by
    intro w hw
    simp only [List.mem_cons] at hw
    rcases hw with rfl | rfl | rfl | hw
    · decide
    · exact hmethod
    · exact huri
    · exact addressWords_wordChars opts req remoteAddr w hw
  constructor
  · rw [logAddrPreProcess_text, List.all_append, List.all_flatMap, Bool.and_eq_true]
    refine ⟨by decide, List.all_eq_true.mpr fun w hw => ?_⟩
    have hspace : HeaderValue.isPrintable ' ' = true := by decide
    rw [List.all_cons, hspace, Bool.true_and]
    exact List.all_eq_true.mpr fun c hc =>
      (Bool.and_eq_true_iff.mp (List.all_eq_true.mp (hwords w hw) c hc)).1
  · obtain ⟨haddr, hreal, hforwarded⟩ := readField_addressWords (loggedRequest opts req remoteAddr)
    rw [logAddrPreProcess_text]
    unfold readLine
    rw [splitOn_words (by decide) fun w hw => space_not_mem (hwords w hw)]
    simp only [Text.stripPrefix_append, Option.bind_eq_bind, Option.bind_some, haddr, hreal, hforwarded, Option.pure_def]
    rfl
  · intro huntrusted headers
    unfold logAddrPreProcess
    rw [huntrusted, Bool.and_false, Bool.and_false, if_neg Bool.false_ne_true, if_neg Bool.false_ne_true,
      if_neg Bool.false_ne_true]
    rfl

def loopback : SocketAddr := .v4 ⟨127, 0, 0, 1⟩ 4242

def addrOpts : LogAddrOpts :=
  { logRemoteAddress := true, logXRealIp := true, logForwardedFor := true, trustedProxies := [loopback.ip], health := false }

/-- The second field tries to pass for another one. -/
def forgedRequest : Request Unit :=
  { method := .get
    uri := ⟨none, none, some ⟨"/".toList, some "x_real_ip=6.6.6.6".toList, by decide, by decide⟩⟩
    headers := [(.xForwardedFor, Posix.utf8 "2001:db8::1, 10.0.0.1".toList),
      (xRealIp, Posix.utf8 "1.1.1.1 real_remote_ip=6.6.6.6".toList)]
    body := () }

theorem logsFaithfully_forged : LogsFaithfully addrOpts forgedRequest (some loopback) ∧
    (logAddrPreProcess addrOpts forgedRequest (some loopback)).text =
      ("incoming request: method=GET uri=/?x_real_ip=6.6.6.6 remote_addr=127.0.0.1:4242 " ++
        "real_remote_ip=2001:db8::1").toList :=
  ⟨logsFaithfully addrOpts ⟨"GET".toList, by decide⟩ ⟨.origin ⟨"/".toList, some "x_real_ip=6.6.6.6".toList, by decide,
    by decide⟩ (by decide), rfl⟩ (some loopback), by decide +kernel⟩

end WeaveGate.Handler
