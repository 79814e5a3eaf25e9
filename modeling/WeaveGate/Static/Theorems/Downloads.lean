import WeaveGate.Static.Lemmas.Head
import WeaveGate.Static.Theorems.Dates

/-!
# Interrupted downloads

What a client holds that fetches a file piece by piece, while the files change and other requests go on.
-/

namespace WeaveGate.Static

open Http
open Posix (Octets Path FileTree Inode)

variable {crates : Crates} {t : FileTree} {s : Server}

/-! ## Versions of a file -/

/-- A content that was sent, with its date in seconds. Sizes of files are `u64`. -/
structure Version where
  content : Octets
  modified : Option Nat
  fits : content.length < 2 ^ 64

/-- The request is for this version, an entry of the cache or else a file on the disk, in no other coding. -/
inductive Sends (crates : Crates) (t : FileTree) (store : Store) (opts : HandleOpts) (v : Version) : Prop
  | entry (entry : MemFile) : cachedFile store opts = some entry → entry.data = v.content →
      entry.lastModified = v.modified → Sends crates t store opts v
  | disk (m : FileMetadata) (file : FileTree.OpenFile) : cachedFile store opts = none →
      getComposedFileMetadata crates t opts.headers opts.compressionStatic (requestedPath opts) opts.indexFiles =
        .ok m →
      checkAccess t opts m.checkedPath = .ok () →
      (m.isDir && opts.redirectTrailingSlash && !Text.endsWith opts.uriPath '/') = false →
      (m.isDir && opts.dirListing && !t.exists m.filePath) = false →
      m.precompressedVariant = none → t.open m.filePath = .ok file → file.content = some v.content →
      m.metadata.size = v.content.length → lastModifiedOf m.metadata = .ok v.modified → Sends crates t store opts v

/-- A later version has the same content, or a date that is later by at least a second, or no date. -/
def Version.Precedes (earlier later : Version) : Prop :=
  later.content = earlier.content ∨ earlier.modified.all fun since => later.modified.all (since < ·)

/-! ## The client -/

/-- The bytes so far, and the date of the reply that they started with. -/
structure Holding where
  bytes : Octets
  date : Option HeaderValue

namespace Holding

def start : Holding := { bytes := [], date := none }

def openRange (first : Nat) : HeaderValue := Posix.utf8 ("bytes=".toList ++ (Nat.toDigits 10 first ++ ['-']))

/-- With a date, the client asks for the bytes it lacks of the file from that date. -/
def headers (d : Holding) : HeaderMap :=
  match d.date with
  | none => []
  | some date => if d.bytes = [] then [] else [(.range, openRange d.bytes.length), (.ifRange, date)]

def ask (d : Holding) (opts : HandleOpts) : HandleOpts := { opts with method := .get, headers := d.headers }

/-- The first `n` bytes of a reply arrive. A whole file replaces what was there, a part is appended. -/
def receive (d : Holding) (resp : Response Body) (n : Nat) : Holding :=
  if resp.status = .ok then
    { bytes := (resp.body.bytes.getD []).take n, date := (resp.headers.getAll .lastModified).head? }
  else if resp.status = .partialContent then { d with bytes := d.bytes ++ (resp.body.bytes.getD []).take n }
  else d

def fetch (crates : Crates) (t : FileTree) (store : Store) (d : Holding) (opts : HandleOpts) (n : Nat) : Holding :=
  (handle crates t store (d.ask opts)).toOption.elim d fun r => d.receive r.resp n

/-- The date that the client goes by is earlier than that of the version. -/
def Outdated (crates : Crates) (d : Holding) (v : Version) : Bool :=
  d.date.all fun date => (crates.httpDate [date]).all fun since => v.modified.all (since < ·)

end Holding

/-- What a server and a client come to, with the versions that the client was sent, the last one first. Between its
requests anything else happens on the server, and on the disk. -/
inductive Downloads (crates : Crates) : List Version → Server → Holding → Prop
  | start : Downloads crates [] Server.empty Holding.start
  | other {versions : List Version} {s : Server} {d : Holding} (t : FileTree) (e : Event) :
      Downloads crates versions s d → Downloads crates versions (serve crates t s e) d
  | fetch {versions : List Version} {s : Server} {d : Holding} (t : FileTree) (opts : HandleOpts) (n : Nat)
      {v : Version} : Downloads crates versions s d → Sends crates t s.store (d.ask opts) v →
      Downloads crates (v :: versions) (serve crates t s (.request (d.ask opts))) (d.fetch crates t s.store opts n)

/-- A range from some byte on is read as it was written. -/
def ReadsOpenRanges (crates : Crates) : Prop :=
  ∀ first, first < 2 ^ 64 → crates.range [Holding.openRange first] = some [(some first, none)]

/-! ## The reply -/

/-- What comes back, up to the type of the content. -/
theorem Sends.reply {opts : HandleOpts} {v : Version} (h : Sends crates t s.store opts v)
    (hmethod : opts.method = .get) : ∃ r contentType body, handle crates t s.store opts = .ok r ∧
      r.resp = afterCheck ((ConditionalHeaders.new crates opts.headers).check v.modified) (fun range =>
        rangedResponse crates range v.content.length contentType v.modified body) ∧
      ∀ first n, (body first n).bytes = some ((v.content.drop first).take n) := by
  have hallowed : isAllowed opts.method = true := by rw [hmethod]; rfl
  have hoptions : ¬ opts.method = .options := by rw [hmethod]; decide
  obtain ⟨content, modified, _⟩ := v
  cases h with
  | entry entry hcached hdata hdate =>
      dsimp only at hdata hdate ⊢
      subst hdata hdate
      refine ⟨_, _, _, by rw [handle_eq hallowed, hcached], MemFile.responseBody_eq crates entry opts.headers, ?_⟩
      intro first n
      exact FileStream.bytes_of_content rfl
  | disk m file huncached hcomposed hgranted hslash hunlisted huncoded hopened hcontent hsize hdate =>
      dsimp only at hcontent hsize hdate ⊢
      have hreply : handle crates t s.store opts = (responseBody crates file m.filePath m.metadata
          (ConditionalHeaders.new crates opts.headers) opts.memoryCache).map fun resp => ⟨resp, m.filePath⟩ := by
        rw [handle_eq hallowed, huncached]
        simp only [handleFile, hcomposed, hgranted, respond, hslash, Bool.false_eq_true, if_false, hoptions, hunlisted,
          huncoded, fileReply, Option.getD_none, hopened]
      rw [responseBody_eq crates file m.filePath opts.memoryCache hdate, hsize] at hreply
      refine ⟨_, _, _, hreply, rfl, ?_⟩
      intro first n
      exact FileStream.bytes_of_content hcontent

theorem Sends.dated {opts : HandleOpts} {v : Version} (h : Sends crates t s.store opts v) (hs : s.Dated) :
    Dated v.modified := by
  cases h with
  | entry entry hcached hdata hdate =>
      unfold cachedFile at hcached
      split at hcached
      · exact hdate ▸ hs.entries _ entry hcached
      · cases hcached
  | disk m file huncached hcomposed hgranted hslash hunlisted huncoded hopened hcontent hsize hdate =>
      exact lastModifiedOf_dated hdate

theorem bytesRange_open (first len : Nat) :
    bytesRange (some [(some first, none)]) len = if first < len then some (first, len) else none := by
  have hregular : RegularRange (some [(some first, none)]) len := fun specs spec h => by
    cases h
    exact trivial
  rw [bytesRange_eq_requestedPart hregular]
  rfl

/-! ## One request -/

namespace Holding

variable {d : Holding} {v : Version}

theorem headers_unconditional (h : d.date = none ∨ d.bytes = []) : Unconditional d.headers := by
  have hempty : d.headers = [] := by
    unfold headers
    split
    · rfl
    · rename_i date hdate
      exact if_pos (h.resolve_left (by rw [hdate]; exact Option.some_ne_none date))
  rw [hempty]
  exact fun name _ => rfl

theorem check_headers (laws : HttpDates crates) (hopen : ReadsOpenRanges crates) {since : Nat}
    (hdate : d.date = some (crates.fmtHttpDate since)) (hsince : since < dateLimit) (hbytes : d.bytes ≠ [])
    (hfits : d.bytes.length < 2 ^ 64) (modified : Option Nat) :
    (ConditionalHeaders.new crates d.headers).check modified =
      .withBody (if modified.all (since < ·) then none else some [(some d.bytes.length, none)]) := by
  have hread := laws.ifRange_date _ _ (laws.parse_fmt since hsince)
  have hnew : ConditionalHeaders.new crates d.headers =
      ⟨none, none, some (.date since), some [(some d.bytes.length, none)]⟩ := by
    simp +decide [headers, hdate, hbytes, ConditionalHeaders.new, typedGet, Multimap.getAll, hread, hopen _ hfits]
  rw [hnew]
  simp only [ConditionalHeaders.check, IfRange.isModified, Option.any_none, Option.any_some, Bool.false_eq_true,
    if_false]
  exact (apply_ite ConditionalBody.withBody _ _ _).symm

theorem receive_whole (contentType : HeaderValue) {body : Nat → Nat → Body}
    (hbody : ∀ first n, (body first n).bytes = some ((v.content.drop first).take n)) (n : Nat) :
    d.receive (rangedResponse crates none v.content.length contentType v.modified body) n =
      { bytes := v.content.take n, date := v.modified.map crates.fmtHttpDate } := by
  obtain ⟨resp, hresp⟩ : ∃ resp, rangedResponse crates none v.content.length contentType v.modified body = resp := ⟨_, rfl⟩
  have hstatus : resp.status = .ok := hresp ▸ (rangedResponse_none _ _ _ _).1
  have hstream : resp.body = body 0 v.content.length := hresp ▸ (rangedResponse_none _ _ _ _).2
  have hdate : resp.headers.getAll .lastModified = _ := hresp ▸ rangedResponse_lastModified _ _ _ _ _
  rw [hresp]
  unfold receive
  rw [if_pos hstatus, hstream, hbody, hdate]
  cases v.modified <;> simp [bytesRange]

theorem receive_part (hbytes : d.bytes ≠ []) (contentType : HeaderValue) {body : Nat → Nat → Body}
    (hbody : ∀ first n, (body first n).bytes = some ((v.content.drop first).take n)) (n : Nat) :
    d.receive (rangedResponse crates (some [(some d.bytes.length, none)]) v.content.length contentType v.modified
        body) n =
      { d with bytes := d.bytes ++ (v.content.drop d.bytes.length).take n } := by
  have hwindow := bytesRange_open d.bytes.length v.content.length
  have hpos := List.length_pos_of_ne_nil hbytes
  unfold receive
  split at hwindow
  · rename_i hlt
    have hstatus := (rangedResponse_part crates hwindow contentType v.modified body).1
    rw [if_neg (by omega)] at hstatus
    rw [hstatus, if_neg (by decide), if_pos rfl, rangedResponse_body, hwindow, Option.elim_some, hbody,
      List.take_of_length_le (List.length_drop ..).le]
    rfl
  · rename_i hge
    rw [rangedResponse_refused hwindow, if_neg (by decide), if_neg (by decide),
      List.drop_of_length_le (Nat.not_lt.mp hge), List.take_nil, List.append_nil]

theorem outdated_eq (laws : HttpDates crates) {base : Option Nat} (hbase : Dated base)
    (hdate : d.date = base.map crates.fmtHttpDate) (v : Version) :
    d.Outdated crates v = base.all fun since => v.modified.all (since < ·) := by
  unfold Outdated
  rw [hdate]
  cases base with
  | none => rfl
  | some since => simp [laws.parse_fmt since (hbase since rfl)]

/-- What the requests of a client keep: the range they ask for and the date they send are read as they were written. -/
structure Regular (crates : Crates) (d : Holding) : Prop where
  fits : d.bytes.length < 2 ^ 64
  dated : ∃ base, Dated base ∧ d.date = base.map crates.fmtHttpDate

/-- A client that goes by an earlier date gets the whole version. Otherwise it gets the bytes that it lacks, if any. -/
theorem fetch_eq (laws : HttpDates crates) (hopen : ReadsOpenRanges crates) (hd : d.Regular crates) {opts : HandleOpts}
    (h : Sends crates t s.store (d.ask opts) v) (n : Nat) : d.fetch crates t s.store opts n =
      if d.bytes = [] ∨ d.Outdated crates v = true then
        { bytes := v.content.take n, date := v.modified.map crates.fmtHttpDate }
      else { d with bytes := d.bytes ++ (v.content.drop d.bytes.length).take n } := by
  obtain ⟨r, contentType, body, hr, hresp, hbody⟩ := h.reply rfl
  obtain ⟨base, hbase, hdate⟩ := hd.dated
  have hfetch : d.fetch crates t s.store opts n = d.receive r.resp n := by
    simp [fetch, hr, Except.toOption]
  rw [hfetch, hresp, outdated_eq laws hbase hdate]
  change d.receive (afterCheck ((ConditionalHeaders.new crates d.headers).check v.modified) _) n = _
  cases base with
  | none =>
      rw [check_of_unconditional (headers_unconditional (.inl hdate)), if_pos (.inr rfl)]
      exact receive_whole contentType hbody n
  | some since =>
      by_cases hbytes : d.bytes = []
      · rw [check_of_unconditional (headers_unconditional (.inr hbytes)), if_pos (.inl hbytes)]
        exact receive_whole contentType hbody n
      · rw [check_headers laws hopen hdate (hbase since rfl) hbytes hd.fits]
        by_cases hnewer : v.modified.all (since < ·) = true
        · rw [if_pos hnewer, if_pos (.inr hnewer)]
          exact receive_whole contentType hbody n
        · rw [if_neg hnewer, if_neg fun h => hnewer (h.resolve_left hbytes)]
          exact receive_part hbytes contentType hbody n

/-! ## Versions and what is held of them -/

theorem prefix_append_iff {bytes content : Octets} (n : Nat) :
    bytes ++ (content.drop bytes.length).take n <+: content ↔ bytes <+: content := by
  constructor
  · exact (List.prefix_append bytes _).trans
  · rintro ⟨rest, rfl⟩
    rw [List.drop_left, List.prefix_append_right_inj]
    exact List.take_prefix n rest

theorem append_rest_iff {bytes content : Octets} {n : Nat} (h : content.length ≤ n) :
    bytes ++ (content.drop bytes.length).take n = content ↔ bytes <+: content := by
  constructor
  · intro heq
    exact (prefix_append_iff n).mp ⟨[], by rw [List.append_nil, heq]⟩
  · rintro ⟨rest, rfl⟩
    rw [List.drop_left, List.take_of_length_le (by rw [List.length_append] at h; omega)]

theorem Regular.start : start.Regular crates := ⟨by decide, none, fun _ h => (by cases h), rfl⟩

theorem Regular.fetch (laws : HttpDates crates) (hopen : ReadsOpenRanges crates) (hd : d.Regular crates) (hs : s.Dated)
    {opts : HandleOpts} (h : Sends crates t s.store (d.ask opts) v) (n : Nat) :
    (d.fetch crates t s.store opts n).Regular crates := by
  have hfits := v.fits
  rw [fetch_eq laws hopen hd h n]
  split
  · refine ⟨?_, v.modified, h.dated hs, rfl⟩
    rw [List.length_take]
    omega
  · refine ⟨?_, hd.dated⟩
    have hheld := hd.fits
    rw [List.length_append, List.length_take, List.length_drop]
    omega

/-- The bytes begin the version that came last, and so they do the version that the client goes by the date of. -/
def Current (crates : Crates) (d : Holding) : List Version → Prop
  | [] => d.bytes = []
  | last :: versions => d.bytes <+: last.content ∧ ∃ base ∈ last :: versions, Dated base.modified ∧
      d.date = base.modified.map crates.fmtHttpDate ∧ base.content = last.content

theorem Current.fetch (laws : HttpDates crates) (hopen : ReadsOpenRanges crates) (hd : d.Regular crates) (hs : s.Dated)
    {opts : HandleOpts} {versions : List Version} (h : d.Current crates versions)
    (hv : ∀ earlier ∈ versions, earlier.Precedes v) (hsends : Sends crates t s.store (d.ask opts) v) (n : Nat) :
    (d.fetch crates t s.store opts n).Current crates (v :: versions) := by
  rw [fetch_eq laws hopen hd hsends n]
  split
  · exact ⟨List.take_prefix n v.content, v, List.mem_cons_self, hsends.dated hs, rfl, rfl⟩
  · rename_i hresumed
    rw [not_or] at hresumed
    cases versions with
    | nil => exact absurd h hresumed.1
    | cons last versions =>
        obtain ⟨hbegins, base, hbase, hdated, hdate, hcontent⟩ := h
        rw [outdated_eq laws hdated hdate v] at hresumed
        have hsame : v.content = base.content := (hv base hbase).resolve_right hresumed.2
        refine ⟨?_, base, List.mem_cons_of_mem v hbase, hdated, hdate, hsame.symm⟩
        rw [hsame, hcontent]
        exact (prefix_append_iff n).mpr hbegins

end Holding

/-! ## Runs -/

theorem Downloads.regular (laws : HttpDates crates) (hopen : ReadsOpenRanges crates) {versions : List Version}
    {d : Holding} (h : Downloads crates versions s d) : s.Dated ∧ d.Regular crates := by
  induction h with
  | start => exact ⟨Server.All.empty, Holding.Regular.start⟩
  | other t e _ ih => exact ⟨ih.1.serve e, ih.2⟩
  | fetch t opts n _ hsends ih => exact ⟨ih.1.serve _, ih.2.fetch laws hopen ih.1 hsends n⟩

theorem Downloads.current (laws : HttpDates crates) (hopen : ReadsOpenRanges crates) {versions : List Version}
    {d : Holding} (h : Downloads crates versions s d)
    (hordered : versions.Pairwise fun later earlier => earlier.Precedes later) : d.Current crates versions := by
  induction h with
  | start => rfl
  | other t e _ ih => exact ih hordered
  | fetch t opts n hrun hsends ih =>
      obtain ⟨hv, hordered⟩ := List.pairwise_cons.mp hordered
      obtain ⟨hs, hd⟩ := hrun.regular laws hopen
      exact (ih hordered).fetch laws hopen hd hs hv hsends n

/-- A client that resumes never mixes two versions, as long as each version it is sent follows all earlier ones. In any
run, its next request leaves it with the beginning of what it is sent, or with the whole when all of it arrives,
if and only if its date is outdated or what it holds already begins the new version. -/
theorem resumed_downloads (laws : HttpDates crates) (hopen : ReadsOpenRanges crates) {versions : List Version}
    {s : Server} {d : Holding} (h : Downloads crates versions s d) :
    (versions.Pairwise (fun later earlier => earlier.Precedes later) →
      ∀ last ∈ versions.head?, d.bytes <+: last.content) ∧
    ∀ (t : FileTree) (opts : HandleOpts) (n : Nat) (v : Version), Sends crates t s.store (d.ask opts) v →
      ((d.fetch crates t s.store opts n).bytes <+: v.content ↔ d.Outdated crates v = true ∨ d.bytes <+: v.content) ∧
      (v.content.length ≤ n → ((d.fetch crates t s.store opts n).bytes = v.content ↔
        d.Outdated crates v = true ∨ d.bytes <+: v.content)) := by
  constructor
  · intro hordered last hlast
    have hcurrent := h.current laws hopen hordered
    cases versions with
    | nil => cases hlast
    | cons first versions =>
        cases hlast
        exact hcurrent.1
  · intro t opts n v hsends
    rw [Holding.fetch_eq laws hopen (h.regular laws hopen).2 hsends n]
    split
    · rename_i hwhole
      have hright : d.Outdated crates v = true ∨ d.bytes <+: v.content :=
        hwhole.symm.imp_right fun hempty => by rw [hempty]; exact List.nil_prefix
      exact ⟨iff_of_true (List.take_prefix n v.content) hright,
        fun hn => iff_of_true (List.take_of_length_le hn) hright⟩
    · rename_i hpart
      rw [not_or] at hpart
      rw [or_iff_right hpart.2]
      exact ⟨Holding.prefix_append_iff n, Holding.append_rest_iff⟩

def readOpenRange (value : HeaderValue) : Option (List RangeSpec) := do
  let text ← value.toStr
  let bounds ← Text.stripPrefix text "bytes=".toList
  let (first, last) ← Text.splitOnce '-' bounds
  if last = [] then (Text.parseUnsigned (2 ^ 64 - 1) first).map fun first => [(some first, none)] else none

def openRangeCrates : Crates := { dateCrates with range := fun values => readOpenRange (values.headD []) }

theorem openRangeCrates_httpDates : HttpDates openRangeCrates :=
  ⟨dateCrates_httpDates.parse_fmt, dateCrates_httpDates.ifRange_date⟩

theorem openRangeCrates_readsOpenRanges : ReadsOpenRanges openRangeCrates := fun first hfirst => by
  have hprintable : ("bytes=".toList ++ (Nat.toDigits 10 first ++ ['-'])).all HeaderValue.isPrintable = true := by
    rw [List.all_append, List.all_append, HeaderValue.toDigits_printable]
    decide
  have hdigits : ∀ c ∈ Nat.toDigits 10 first, c ≠ '-' := fun c hc heq => by
    have hdigit := Nat.isDigit_of_mem_toDigits (by decide) (by decide) (heq ▸ hc)
    exact absurd hdigit (by decide)
  change readOpenRange (Holding.openRange first) = _
  simp only [readOpenRange, Holding.openRange, (HeaderValue.fromStr_printable hprintable).2, Text.stripPrefix_append,
    Text.splitOnce_append hdigits, Text.parseUnsigned_toDigits (Nat.le_sub_one_of_lt hfirst), Option.bind_some, bind,
    if_true, Option.map_some]

theorem Holding.requestedPath_ask (d : Holding) (opts : HandleOpts) :
    requestedPath (d.ask opts) = requestedPath opts := rfl

theorem Holding.checkAccess_ask (t : FileTree) (d : Holding) (opts : HandleOpts) (checked : Path) :
    checkAccess t (d.ask opts) checked = checkAccess t opts checked := rfl

/-- A page, before and after an update one second later. -/
def pageVersion (updated : Bool) : Version :=
  { content := if updated then named "HELLO!" else named "hello"
    modified := some (if updated then 784111777 else 784111776)
    fits := by decide +revert }

def pageFile (updated : Bool) : Inode :=
  { sampleFile (pageVersion updated).content with mtime := if updated then 784111777000000000 else 784111776000000000 }

def pageTree (updated : Bool) : FileTree :=
  { nodes :=
      [ ([], sampleDir [named "srv"]), ([named "srv"], sampleDir [named "page.html"]),
        ([named "srv", named "page.html"], pageFile updated) ]
    cwd := [], symloopMax := 40, wf := by decide +revert }

def pageOpts : HandleOpts := sampleOpts "/page.html"

theorem sends_page (updated : Bool) (d : Holding) :
    Sends openRangeCrates (pageTree updated) [] (d.ask pageOpts) (pageVersion updated) := by
  have hmeta : tryMetadata (pageTree updated) (requestedPath pageOpts) = .ok (pageFile updated, false) := by
    cases updated <;> decide +kernel
  have hopened : (pageTree updated).open (requestedPath pageOpts) =
      .ok ⟨requestedPath pageOpts, [named "srv", named "page.html"], pageFile updated⟩ := by
    cases updated <;> decide +kernel
  have hgranted : checkAccess (pageTree updated) pageOpts (requestedPath pageOpts) = .ok () := by
    cases updated <;> decide +kernel
  have hcomposed : getComposedFileMetadata openRangeCrates (pageTree updated) d.headers false (requestedPath pageOpts)
      [] = .ok ⟨requestedPath pageOpts, pageFile updated, false, none⟩ := by
    simp [getComposedFileMetadata, hmeta, FileMetadata.ofFound, variantOf]
  have hdate : lastModifiedOf (pageFile updated) = .ok (pageVersion updated).modified := by
    cases updated <;> decide +kernel
  refine .disk ⟨requestedPath pageOpts, pageFile updated, false, none⟩
    ⟨requestedPath pageOpts, [named "srv", named "page.html"], pageFile updated⟩ rfl ?_
    ((Holding.checkAccess_ask _ d pageOpts _).trans hgranted) rfl rfl rfl hopened rfl rfl hdate
  rw [Holding.requestedPath_ask]
  exact hcomposed

/-- The first two bytes of the page, before or after its update. -/
def pageStart (updated : Bool) : Holding :=
  Holding.start.fetch openRangeCrates (pageTree updated) [] pageOpts 2

/-- The update is noticed. Where the older page is put back, its rest is appended to the start of the newer one. -/
theorem resumed_downloads_page :
    (pageStart false).bytes <+: named "hello" ∧
      ((pageStart false).fetch openRangeCrates (pageTree true) [] pageOpts 100).bytes = named "HELLO!" ∧
      ¬ ((pageStart true).fetch openRangeCrates (pageTree false) [] pageOpts 100).bytes <+: named "hello" := by
  have hrun : ∀ updated, Downloads openRangeCrates [pageVersion updated]
      (serve openRangeCrates (pageTree updated) Server.empty (.request (Holding.start.ask pageOpts)))
      (pageStart updated) := fun updated =>
    .fetch (pageTree updated) pageOpts 2 .start (sends_page updated Holding.start)
  have hresumed := fun updated =>
    resumed_downloads openRangeCrates_httpDates openRangeCrates_readsOpenRanges (hrun updated)
  have hnoticed : (pageStart false).Outdated openRangeCrates (pageVersion true) = true := by decide +kernel
  have hmissed : (pageStart true).Outdated openRangeCrates (pageVersion false) = false := by decide +kernel
  refine ⟨(hresumed false).1 (List.pairwise_singleton _ _) _ rfl, ?_, ?_⟩
  · exact (((hresumed false).2 (pageTree true) pageOpts 100 _ (sends_page true _)).2 (by decide)).mpr (.inl hnoticed)
  · intro hbegins
    refine absurd (((hresumed true).2 (pageTree false) pageOpts 100 _ (sends_page false _)).1.mp hbegins) ?_
    rw [hmissed]
    decide +kernel

end WeaveGate.Static
