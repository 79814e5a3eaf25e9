import WeaveGate.Static.Theorems.MemCache
import WeaveGate.Static.Theorems.Ranges

/-!
# Dates of files

Which files have a time that can be sent as a date, and what requests that echo such a date get.
-/

namespace WeaveGate.Static

open Http
open Posix (Octets Path Name FileTree Inode Errno Canon)

variable {crates : Crates} {t : FileTree}

/-! ## From times to dates -/

/-- From the epoch to the end of the year 9999. -/
def HasHttpDate (metadata : Inode) : Prop := 0 ≤ metadata.mtime ∧ metadata.mtime < dateLimit * 1000000000

instance (metadata : Inode) : Decidable (HasHttpDate metadata) := inferInstanceAs (Decidable (_ ∧ _))

def Dated (lastModified : Option Nat) : Prop := ∀ secs, lastModified = some secs → secs < dateLimit

theorem lastModifiedOf_eq (metadata : Inode) : lastModifiedOf metadata =
    if metadata.mtime = 0 then .ok none else (httpDateFrom metadata.mtime).map some := by
  unfold lastModifiedOf httpDateFrom
  split
  · rfl
  · split
    · rfl
    · dsimp only
      split <;> rfl

theorem httpDateFrom_panic_iff (time : Int) :
    httpDateFrom time = .error .panic ↔ time < 0 ∨ dateLimit * 1000000000 ≤ time := by
  unfold httpDateFrom dateLimit
  split
  · simp [*]
  · split
    · rename_i hnonneg hlimit
      simp only [true_iff]
      omega
    · rename_i hnonneg hlimit
      simp only [reduceCtorEq, false_iff]
      omega

theorem httpDateFrom_secs {secs : Nat} (h : secs < dateLimit) : httpDateFrom (secs * 1000000000) = .ok secs := by
  unfold httpDateFrom
  have hnonneg : ¬ ((secs : Int) * 1000000000 < 0) := by omega
  have hsecs : ((secs : Int) * 1000000000).toNat / 1000000000 = secs := by omega
  rw [if_neg hnonneg, hsecs, if_neg (by omega)]

theorem lastModifiedOf_panic_iff (metadata : Inode) :
    lastModifiedOf metadata = .error .panic ↔ ¬ HasHttpDate metadata := by
  rw [lastModifiedOf_eq, HasHttpDate]
  split
  · rename_i hepoch
    simp [hepoch, dateLimit]
  · have hmap : (httpDateFrom metadata.mtime).map some = .error .panic ↔
        httpDateFrom metadata.mtime = .error .panic := by
      cases httpDateFrom metadata.mtime <;> simp [Except.map]
    rw [hmap, httpDateFrom_panic_iff]
    omega

theorem lastModifiedOf_dated {metadata : Inode} {modified : Option Nat} (h : lastModifiedOf metadata = .ok modified) :
    Dated modified := by
  unfold lastModifiedOf at h
  split at h
  · cases h
    exact fun _ hsecs => by cases hsecs
  · split at h
    · cases h
    · dsimp only at h
      split at h
      · cases h
      · cases h
        rename_i hlimit
        exact fun _ hsecs => by cases hsecs; omega

theorem responseBody_panic_iff (file : FileTree.OpenFile) (path : Path) (metadata : Inode)
    (conditionals : ConditionalHeaders) (memoryCache : Option MemCacheOpts) :
    responseBody crates file path metadata conditionals memoryCache = .error .panic ↔
      lastModifiedOf metadata = .error .panic := by
  unfold responseBody
  cases lastModifiedOf metadata with
  | error e => simp [bind, Except.bind]
  | ok modified =>
      simp only [bind, Except.bind]
      cases conditionals.check modified <;> simp [pure, Except.pure]

/-! ## Dates that are compared -/

/-- A date that a time was converted to is converted back and forth without a panic. -/
theorem tryCheck_eq {modified : Option Nat} (h : Dated modified) (c : ConditionalHeaders) :
    c.tryCheck modified = .ok (c.check modified) := by
  have hcompared : (modified.mapM fun secs : Nat => httpDateFrom (secs * 1000000000)) = .ok modified := by
    cases modified with
    | none => rfl
    | some secs =>
        rw [Option.mapM_some, httpDateFrom_secs (h secs rfl)]
        rfl
  unfold ConditionalHeaders.tryCheck ConditionalHeaders.check
  simp only [hcompared]
  obtain ⟨ifModifiedSince, ifUnmodifiedSince, ifRange, range⟩ := c
  cases ifUnmodifiedSince <;> cases ifModifiedSince <;>
    simp [bind, Except.bind, pure, Except.pure] <;> grind

/-! ## Dates of cache entries -/

def Server.Dated (s : Server) : Prop :=
  s.All (fun _ entry => Static.Dated entry.lastModified)
    fun r => ∀ memOpts capacity, r.stream.mem = some (memOpts, capacity) → Static.Dated memOpts.lastModified

theorem handle_stream_dated {store : Store} {opts : HandleOpts} {r : StaticFileResponse} {s : FileStream}
    (h : handle crates t store opts = .ok r) (hs : r.resp.body = .stream s) {memOpts : MemFileTempOpts}
    {capacity : Nat} (hmem : s.mem = some (memOpts, capacity)) : Dated memOpts.lastModified := by
  rcases handle_ok h with ⟨entry, _, hresp⟩ | ⟨_, hfile⟩
  · rw [hresp] at hs
    rcases entry.responseBody_body opts.headers with hempty | ⟨s', hs', _, hmem'⟩
    · cases hempty.symm.trans hs
    · cases hs'.symm.trans hs
      cases hmem'.symm.trans hmem
  · obtain ⟨m, _, _, hresp, _⟩ := handleFile_ok hfile
    obtain ⟨file, modified, range, first, last, _, hstreamed, rfl⟩ := respond_stream hresp hs
    simp only [fileStream] at hmem
    split at hmem
    · cases hmem
      exact lastModifiedOf_dated hstreamed.date
    · cases hmem

theorem entry_lastModified {r : Reading} {n : Nat} {p : Path} {entry : MemFile} (h : r.entry n = some (p, entry)) :
    ∃ memOpts capacity, r.stream.mem = some (memOpts, capacity) ∧ entry.lastModified = memOpts.lastModified := by
  unfold Reading.entry at h
  split at h
  · rename_i memOpts capacity buf hmem _
    dsimp only at h
    split at h
    · cases h
      exact ⟨memOpts, capacity, hmem, rfl⟩
    · cases h
  · cases h

theorem Server.Dated.serve {s : Server} (h : s.Dated) (e : Event) : (serve crates t s e).Dated :=
  Server.All.serve h
    (fun _ _ _ hr hbody _ _ hmem => handle_stream_dated hr hbody hmem)
    (fun _ _ hr => hr)
    (fun _ n r _ entry _ _ hr hentry => by
      obtain ⟨memOpts, capacity, hmem, hdate⟩ := entry_lastModified hentry
      rw [hdate]
      exact hr memOpts capacity hmem)

theorem entries_dated {events : List Event} {p : Path} {entry : MemFile}
    (h : (Run.final (serve crates t) Server.empty events).store.get? p = some entry) : Dated entry.lastModified :=
  have hkeep : ∀ (s : Server) (e : Event), s.Dated → True → (serve crates t s e).Dated := fun _ e hs _ => hs.serve e
  have hrun := Run.invariant (C := fun _ _ => True) hkeep Server.All.empty fun _ _ => trivial
  hrun.2.entries p entry h

/-! ## No panic -/

/-- A file on disk is answered without a panic when its time can be sent as a date. The comparisons of that date,
and all that is done with the date of an entry that was cached in any run, never panic. -/
theorem reply_without_panic_iff (crates : Crates) :
    (∀ (file : FileTree.OpenFile) (path : Path) (metadata : Inode) (headers : HeaderMap)
        (memoryCache : Option MemCacheOpts),
      responseBody crates file path metadata (ConditionalHeaders.new crates headers) memoryCache ≠ .error .panic ↔
        HasHttpDate metadata) ∧
    (∀ (metadata : Inode) (modified : Option Nat) (headers : HeaderMap), lastModifiedOf metadata = .ok modified →
      (ConditionalHeaders.new crates headers).tryCheck modified =
        .ok ((ConditionalHeaders.new crates headers).check modified)) ∧
    ∀ (t : FileTree) (events : List Event) (p : Path) (entry : MemFile),
      (Run.final (serve crates t) Server.empty events).store.get? p = some entry →
      (∀ secs, entry.lastModified = some secs → secs < dateLimit) ∧
        ∀ headers : HeaderMap, (ConditionalHeaders.new crates headers).tryCheck entry.lastModified =
          .ok ((ConditionalHeaders.new crates headers).check entry.lastModified) := by
  refine ⟨fun file path metadata headers memoryCache => ?_, fun metadata modified headers hdate => ?_,
    fun t events p entry hentry => ⟨entries_dated hentry, fun headers => tryCheck_eq (entries_dated hentry) _⟩⟩
  · rw [ne_eq, responseBody_panic_iff, lastModifiedOf_panic_iff, not_not]
  · exact tryCheck_eq (lastModifiedOf_dated hdate) _

/-- Files from just before the epoch, from the epoch, from 1994 and from the year 10000. -/
def datedTree : FileTree :=
  { nodes :=
      [ ([], sampleDir [named "srv"]),
        ([named "srv"], sampleDir [named "early.html", named "epoch.html", named "dated.html", named "late.html"]),
        ([named "srv", named "early.html"], { sampleFile (named "early") with mtime := -1 }),
        ([named "srv", named "epoch.html"], sampleFile (named "epoch")),
        ([named "srv", named "dated.html"], { sampleFile (named "dated") with mtime := 784111777500000000 }),
        ([named "srv", named "late.html"], { sampleFile (named "late") with mtime := 253402300800000000000 }) ]
    cwd := [], symloopMax := 40, wf := by decide }

theorem panics_on_early_and_late_files :
    handle sampleCrates datedTree [] (sampleOpts "/early.html") = .error .panic ∧
      handle sampleCrates datedTree [] (sampleOpts "/late.html") = .error .panic := by
  decide +kernel

theorem reply_without_panic_iff_dated :
    (∀ headers, responseBody sampleCrates ⟨[], [], { sampleFile (named "dated") with mtime := 784111777500000000 }⟩ []
        { sampleFile (named "dated") with mtime := 784111777500000000 } (ConditionalHeaders.new sampleCrates headers)
        none ≠ .error .panic) ∧
      ∀ p entry, (Run.final (serve sampleCrates variantTree) Server.empty plainReads).store.get? p = some entry →
        ∀ secs, entry.lastModified = some secs → secs < dateLimit :=
  ⟨fun headers => ((reply_without_panic_iff sampleCrates).1 _ _ _ headers none).mpr (by decide),
    fun p entry hentry => ((reply_without_panic_iff sampleCrates).2.2 variantTree plainReads p entry hentry).1⟩

/-! ## Requests that echo a date -/

/-- A date is read as it was written, and `If-Range` reads every date that the other fields read. -/
structure HttpDates (crates : Crates) : Prop where
  parse_fmt : ∀ secs, secs < dateLimit → crates.httpDate [crates.fmtHttpDate secs] = some secs
  ifRange_date : ∀ value secs, crates.httpDate [value] = some secs → crates.ifRange [value] = some (.date secs)

/-- The replies to all requests for a file with the given date, from the disk or from an entry of some run. -/
inductive AnswersFile (crates : Crates) (modified : Option Nat) : (HeaderMap → Except Failure (Response Body)) → Prop
  | disk (file : FileTree.OpenFile) (path : Path) (metadata : Inode) (memoryCache : Option MemCacheOpts) :
      lastModifiedOf metadata = .ok modified →
      AnswersFile crates modified fun headers =>
        responseBody crates file path metadata (ConditionalHeaders.new crates headers) memoryCache
  | cached (t : FileTree) (events : List Event) (p : Path) (entry : MemFile) :
      (Run.final (serve crates t) Server.empty events).store.get? p = some entry → entry.lastModified = modified →
      AnswersFile crates modified fun headers => .ok (entry.responseBody crates headers)

theorem AnswersFile.dated {modified : Option Nat} {answer : HeaderMap → Except Failure (Response Body)}
    (h : AnswersFile crates modified answer) : Dated modified := by
  cases h with
  | disk file path metadata memoryCache hdate => exact lastModifiedOf_dated hdate
  | cached t events p entry hentry hdate => exact hdate ▸ entries_dated hentry

/-- Both kinds of replies depend on the header fields through the check alone. -/
theorem AnswersFile.eq {modified : Option Nat} {answer : HeaderMap → Except Failure (Response Body)}
    (h : AnswersFile crates modified answer) : ∃ len contentType body, ∀ headers, answer headers =
      .ok (afterCheck ((ConditionalHeaders.new crates headers).check modified) fun range =>
        rangedResponse crates range len contentType modified body) := by
  cases h with
  | disk file path metadata memoryCache hdate =>
      exact ⟨_, _, _, fun headers => responseBody_eq crates file path memoryCache hdate _⟩
  | cached t events p entry hentry hdate =>
      subst hdate
      exact ⟨_, _, _, fun headers => congrArg Except.ok (MemFile.responseBody_eq crates entry headers)⟩

theorem rangedResponse_lastModified (range : Option (List RangeSpec)) (len : Nat) (contentType : HeaderValue)
    (modified : Option Nat) (body : Nat → Nat → Body) :
    (rangedResponse crates range len contentType modified body).headers.getAll .lastModified =
      if (bytesRange range len).isSome then (modified.map crates.fmtHttpDate).toList else [] := by
  unfold rangedResponse
  cases hwindow : bytesRange range len with
  | none => simp +decide [Response.insertHeader_getAll, Response.new]
  | some window =>
      cases modified <;> dsimp only [Option.elim] <;> split <;>
        simp +decide [Response.insertHeader_getAll, Response.new]

/-- A date that a reply shows is that of the file. -/
theorem AnswersFile.emitted {modified : Option Nat} {answer : HeaderMap → Except Failure (Response Body)}
    (h : AnswersFile crates modified answer) {headers : HeaderMap} {resp : Response Body} {date : HeaderValue}
    (hresp : answer headers = .ok resp) (hdate : date ∈ resp.headers.getAll .lastModified) :
    ∃ secs, modified = some secs ∧ date = crates.fmtHttpDate secs := by
  obtain ⟨len, contentType, body, heq⟩ := h.eq
  rw [heq, Except.ok.injEq] at hresp
  subst hresp
  cases hcheck : (ConditionalHeaders.new crates headers).check modified with
  | noBody resp =>
      rw [hcheck, afterCheck, check_noBody_headers hcheck] at hdate
      cases hdate
  | withBody range =>
      rw [hcheck, afterCheck, rangedResponse_lastModified] at hdate
      split at hdate
      · cases modified with
        | none => cases hdate
        | some secs => exact ⟨secs, rfl, List.mem_singleton.mp hdate⟩
      · cases hdate

/-! ## One field at a time -/

theorem new_insert_ifModifiedSince (headers : HeaderMap) (value : HeaderValue) :
    ConditionalHeaders.new crates (headers.insert .ifModifiedSince value) =
      { ConditionalHeaders.new crates headers with ifModifiedSince := crates.httpDate [value] } := by
  simp +decide [ConditionalHeaders.new, typedGet, Multimap.getAll_insert]

theorem new_insert_ifUnmodifiedSince (headers : HeaderMap) (value : HeaderValue) :
    ConditionalHeaders.new crates (headers.insert .ifUnmodifiedSince value) =
      { ConditionalHeaders.new crates headers with ifUnmodifiedSince := crates.httpDate [value] } := by
  simp +decide [ConditionalHeaders.new, typedGet, Multimap.getAll_insert]

theorem new_insert_ifRange (headers : HeaderMap) (value : HeaderValue) :
    ConditionalHeaders.new crates (headers.insert .ifRange value) =
      { ConditionalHeaders.new crates headers with ifRange := crates.ifRange [value] } := by
  simp +decide [ConditionalHeaders.new, typedGet, Multimap.getAll_insert]

theorem new_remove_ifModifiedSince (headers : HeaderMap) :
    ConditionalHeaders.new crates (headers.remove .ifModifiedSince) =
      { ConditionalHeaders.new crates headers with ifModifiedSince := none } := by
  simp +decide [ConditionalHeaders.new, typedGet, Multimap.getAll_remove]

theorem new_remove_ifUnmodifiedSince (headers : HeaderMap) :
    ConditionalHeaders.new crates (headers.remove .ifUnmodifiedSince) =
      { ConditionalHeaders.new crates headers with ifUnmodifiedSince := none } := by
  simp +decide [ConditionalHeaders.new, typedGet, Multimap.getAll_remove]

theorem new_remove_ifRange (headers : HeaderMap) :
    ConditionalHeaders.new crates (headers.remove .ifRange) =
      { ConditionalHeaders.new crates headers with ifRange := none } := by
  simp +decide [ConditionalHeaders.new, typedGet, Multimap.getAll_remove]

theorem new_remove_range (headers : HeaderMap) :
    ConditionalHeaders.new crates (headers.remove .range) =
      { ConditionalHeaders.new crates headers with range := none } := by
  simp +decide [ConditionalHeaders.new, typedGet, Multimap.getAll_remove]

theorem new_ifModifiedSince_none {headers : HeaderMap} (h : headers.getAll .ifModifiedSince = []) :
    (ConditionalHeaders.new crates headers).ifModifiedSince = none := by
  simp [ConditionalHeaders.new, typedGet, h]

theorem new_ifUnmodifiedSince_none {headers : HeaderMap} (h : headers.getAll .ifUnmodifiedSince = []) :
    (ConditionalHeaders.new crates headers).ifUnmodifiedSince = none := by
  simp [ConditionalHeaders.new, typedGet, h]

namespace ConditionalHeaders

variable (c : ConditionalHeaders) {modified : Option Nat} {since secs : Nat}

theorem check_notModified (hunmodified : c.ifUnmodifiedSince = none) (h : secs ≤ since) :
    { c with ifModifiedSince := some since }.check (some secs) =
      .noBody ((Response.new Body.empty).withStatus .notModified) := by
  simp [check, hunmodified, h]

theorem check_ifModifiedSince_lt (h : since < secs) : { c with ifModifiedSince := some since }.check (some secs) =
    { c with ifModifiedSince := none }.check (some secs) := by
  simp [check, h.not_ge]

theorem check_ifModifiedSince_undated (read : Option Nat) : { c with ifModifiedSince := read }.check none =
    { c with ifModifiedSince := none }.check none := by
  simp [check]

theorem check_ifUnmodifiedSince_le (h : secs ≤ since) :
    { c with ifUnmodifiedSince := some since }.check (some secs) =
      { c with ifUnmodifiedSince := none }.check (some secs) := by
  simp [check, h]

/-- Later files, and all files without a date, fail the precondition. -/
theorem check_preconditionFailed (h : ∀ secs, modified = some secs → since < secs) :
    { c with ifUnmodifiedSince := some since }.check modified =
      .noBody ((Response.new Body.empty).withStatus .preconditionFailed) := by
  cases modified with
  | none => simp [check]
  | some secs => simp [check, h secs rfl]

theorem check_ifRange_le (h : secs ≤ since) : { c with ifRange := some (.date since) }.check (some secs) =
    { c with ifRange := none }.check (some secs) := by
  simp [check, IfRange.isModified, h.not_gt]

theorem check_ifRange_lt (h : since < secs) : { c with ifRange := some (.date since) }.check (some secs) =
    { c with ifRange := none, range := none }.check (some secs) := by
  simp [check, IfRange.isModified, h]

theorem check_unconditional (hmodified : c.ifModifiedSince = none) (hunmodified : c.ifUnmodifiedSince = none) :
    { c with ifRange := none, range := none }.check modified = .withBody none := by
  simp [check, hmodified, hunmodified]

end ConditionalHeaders

/-- Without `If-Unmodified-Since` no precondition fails. -/
theorem afterCheck_status_ne {c : ConditionalHeaders} (h : c.ifUnmodifiedSince = none) (modified : Option Nat)
    (len : Nat) (contentType : HeaderValue) (body : Nat → Nat → Body) :
    (afterCheck (c.check modified) fun range => rangedResponse crates range len contentType modified body).status ≠
      .preconditionFailed := by
  have hranged : ∀ range, (rangedResponse crates range len contentType modified body).status ≠ .preconditionFailed :=
    fun range heq => by
      have hmem := rangedResponse_status crates range len contentType modified body
      rw [heq] at hmem
      exact absurd hmem (by decide)
  unfold ConditionalHeaders.check
  rw [h]
  simp only [Option.any_none, Bool.false_eq_true, if_false]
  split
  · change StatusCode.notModified ≠ StatusCode.preconditionFailed
    decide
  · split
    · exact hranged none
    · exact hranged c.range

/-! ## The answers -/

/-- What a request that echoes the date of a file gets. -/
structure HonoursEcho (answer : HeaderMap → Except Failure (Response Body)) (date : HeaderValue) : Prop where
  notModified : ∀ headers : HeaderMap, headers.getAll .ifUnmodifiedSince = [] →
    ∃ resp, answer (headers.insert .ifModifiedSince date) = .ok resp ∧ resp.status = .notModified
  precondition : ∀ headers : HeaderMap, answer (headers.insert .ifUnmodifiedSince date) =
    answer (headers.remove .ifUnmodifiedSince)
  neverFailed : ∀ (headers : HeaderMap) (resp : Response Body),
    answer (headers.insert .ifUnmodifiedSince date) = .ok resp → resp.status ≠ .preconditionFailed
  range : ∀ headers : HeaderMap, answer (headers.insert .ifRange date) = answer (headers.remove .ifRange)

/-- What a request with an earlier date gets. -/
structure RefusesEarlier (answer : HeaderMap → Except Failure (Response Body)) (date : HeaderValue) : Prop where
  modified : ∀ headers : HeaderMap, answer (headers.insert .ifModifiedSince date) =
    answer (headers.remove .ifModifiedSince)
  failed : ∀ headers : HeaderMap, ∃ resp, answer (headers.insert .ifUnmodifiedSince date) = .ok resp ∧
    resp.status = .preconditionFailed
  range : ∀ headers : HeaderMap, answer (headers.insert .ifRange date) =
    answer ((headers.remove .ifRange).remove .range)
  whole : ∀ headers : HeaderMap, headers.getAll .ifModifiedSince = [] → headers.getAll .ifUnmodifiedSince = [] →
    ∃ resp, answer (headers.insert .ifRange date) = .ok resp ∧ resp.status = .ok

theorem AnswersFile.honoursEcho (laws : HttpDates crates) {secs : Nat}
    {answer : HeaderMap → Except Failure (Response Body)} (h : AnswersFile crates (some secs) answer) :
    HonoursEcho answer (crates.fmtHttpDate secs) := by
  have hdate := laws.parse_fmt secs (h.dated secs rfl)
  have hrange := laws.ifRange_date _ _ hdate
  obtain ⟨len, contentType, body, heq⟩ := h.eq
  have hprecondition : ∀ headers : HeaderMap, answer (headers.insert .ifUnmodifiedSince (crates.fmtHttpDate secs)) =
      answer (headers.remove .ifUnmodifiedSince) := fun headers => by
    rw [heq, heq, new_insert_ifUnmodifiedSince, new_remove_ifUnmodifiedSince, hdate,
      ConditionalHeaders.check_ifUnmodifiedSince_le _ (Nat.le_refl secs)]
  refine ⟨fun headers habsent => ?_, hprecondition, fun headers resp hresp => ?_, fun headers => ?_⟩
  · refine ⟨_, heq _, ?_⟩
    rw [new_insert_ifModifiedSince, hdate,
      ConditionalHeaders.check_notModified _ (new_ifUnmodifiedSince_none habsent) (Nat.le_refl secs)]
    rfl
  · rw [hprecondition, heq, Except.ok.injEq] at hresp
    subst hresp
    exact afterCheck_status_ne (by rw [new_remove_ifUnmodifiedSince]) _ _ _ _
  · rw [heq, heq, new_insert_ifRange, new_remove_ifRange, hrange,
      ConditionalHeaders.check_ifRange_le _ (Nat.le_refl secs)]

theorem AnswersFile.refusesEarlier (laws : HttpDates crates) {secs since : Nat}
    {answer : HeaderMap → Except Failure (Response Body)} (h : AnswersFile crates (some secs) answer)
    {date : HeaderValue} (hdate : crates.httpDate [date] = some since) (hearlier : since < secs) :
    RefusesEarlier answer date := by
  obtain ⟨len, contentType, body, heq⟩ := h.eq
  have hrange := laws.ifRange_date _ _ hdate
  have hlater : ∀ secs', some secs = some secs' → since < secs' := fun secs' h => by cases h; exact hearlier
  refine ⟨fun headers => ?_, fun headers => ⟨_, heq _, ?_⟩, fun headers => ?_, fun headers hmodified hunmodified => ?_⟩
  · rw [heq, heq, new_insert_ifModifiedSince, new_remove_ifModifiedSince, hdate,
      ConditionalHeaders.check_ifModifiedSince_lt _ hearlier]
  · rw [new_insert_ifUnmodifiedSince, hdate, ConditionalHeaders.check_preconditionFailed _ hlater]
    rfl
  · rw [heq, heq, new_insert_ifRange, new_remove_range, new_remove_ifRange, hrange,
      ConditionalHeaders.check_ifRange_lt _ hearlier]
  · refine ⟨_, heq _, ?_⟩
    rw [new_insert_ifRange, hrange, ConditionalHeaders.check_ifRange_lt _ hearlier,
      ConditionalHeaders.check_unconditional _ (new_ifModifiedSince_none hmodified)
        (new_ifUnmodifiedSince_none hunmodified)]
    exact (rangedResponse_none len contentType (some secs) body).1

/-- A date that a reply for a file has shown is honoured by all later replies, and an earlier date is refused.
Where the file has no date, `If-Modified-Since` is ignored and `If-Unmodified-Since` fails. -/
theorem echoed_dates (laws : HttpDates crates) :
    (∀ (modified : Option Nat) (first later : HeaderMap → Except Failure (Response Body)),
      AnswersFile crates modified first → AnswersFile crates modified later →
      ∀ (headers : HeaderMap) (resp : Response Body) (date : HeaderValue), first headers = .ok resp →
        date ∈ resp.headers.getAll .lastModified →
        HonoursEcho later date ∧ ∃ secs, crates.httpDate [date] = some secs ∧
          ∀ earlier since, crates.httpDate [earlier] = some since → since < secs → RefusesEarlier later earlier) ∧
    ∀ answer : HeaderMap → Except Failure (Response Body), AnswersFile crates none answer →
      ∀ (headers : HeaderMap) (date : HeaderValue),
        answer (headers.insert .ifModifiedSince date) = answer (headers.remove .ifModifiedSince) ∧
        ∀ since, crates.httpDate [date] = some since → ∃ resp,
          answer (headers.insert .ifUnmodifiedSince date) = .ok resp ∧ resp.status = .preconditionFailed := by
  constructor
  · intro modified first later hfirst hlater headers resp date hresp hdate
    obtain ⟨secs, rfl, rfl⟩ := hfirst.emitted hresp hdate
    exact ⟨hlater.honoursEcho laws, secs, laws.parse_fmt secs (hfirst.dated secs rfl),
      fun earlier since hsince hearlier => hlater.refusesEarlier laws hsince hearlier⟩
  · intro answer h headers date
    obtain ⟨len, contentType, body, heq⟩ := h.eq
    constructor
    · rw [heq, heq, new_insert_ifModifiedSince, new_remove_ifModifiedSince,
        ConditionalHeaders.check_ifModifiedSince_undated]
    · intro since hsince
      refine ⟨_, heq _, ?_⟩
      rw [new_insert_ifUnmodifiedSince, hsince, ConditionalHeaders.check_preconditionFailed _ (by simp)]
      rfl

def sampleDate : HeaderValue := HeaderValue.fromStatic "Sun, 06 Nov 1994 08:49:37 GMT"

def earlierDate : HeaderValue := HeaderValue.fromStatic "Sun, 06 Nov 1994 08:49:36 GMT"

def readSampleDate (value : HeaderValue) : Option Nat :=
  if value = sampleDate then some 784111777
  else if value = earlierDate then some 784111776
  else if value.all (· = 48) then some value.length else none

/-- Two dates are written as they are, the others as that many zeros. -/
def dateCrates : Crates :=
  { sampleCrates with
    httpDate := fun values => readSampleDate (values.headD [])
    fmtHttpDate := fun secs =>
      if secs = 784111777 then sampleDate else if secs = 784111776 then earlierDate else List.replicate secs 48
    ifRange := fun values => (readSampleDate (values.headD [])).map .date }

theorem replicate_ne_date {date : HeaderValue} (h : (83 : UInt8) ∈ date) (n : Nat) : List.replicate n 48 ≠ date := by
  rintro rfl
  exact absurd (List.eq_of_mem_replicate h) (by decide)

theorem dateCrates_httpDates : HttpDates dateCrates where
  parse_fmt := fun secs _ => by
    have hsample := replicate_ne_date (show 83 ∈ sampleDate by decide) secs
    have hearlier := replicate_ne_date (show 83 ∈ earlierDate by decide) secs
    have hne : earlierDate ≠ sampleDate := by decide
    simp only [dateCrates, List.headD_cons, readSampleDate]
    split
    · simp [*]
    · split <;> simp [*]
  ifRange_date := fun value secs h => by
    change (dateCrates.httpDate [value]).map IfRange.date = _
    rw [h]
    rfl

def datedFile (mtime : Int) : Inode := { sampleFile (named "dated") with mtime }

def datedReply (mtime : Int) (headers : HeaderMap) : Except Failure (Response Body) :=
  responseBody dateCrates ⟨[], [], datedFile mtime⟩ [] (datedFile mtime) (ConditionalHeaders.new dateCrates headers)
    none

/-- A file without a date fails `If-Unmodified-Since`, where the field should be ignored. -/
theorem undated_file_fails_precondition : AnswersFile dateCrates none (datedReply 0) ∧
    dateCrates.httpDate [sampleDate] = some 784111777 ∧
    datedReply 0 (Multimap.insert [] .ifUnmodifiedSince sampleDate) ≠
      datedReply 0 (Multimap.remove [] .ifUnmodifiedSince) ∧
    (datedReply 0 (Multimap.insert [] .ifUnmodifiedSince sampleDate)).toOption.map (·.status) =
      some .preconditionFailed :=
  ⟨.disk _ _ _ none rfl, by decide, by decide +kernel, by decide +kernel⟩

theorem echoed_dates_half_second :
    HonoursEcho (datedReply 784111777500000000) sampleDate ∧
      RefusesEarlier (datedReply 784111777500000000) earlierDate ∧
      ∀ headers : HeaderMap, datedReply 0 (headers.insert .ifModifiedSince sampleDate) =
        datedReply 0 (headers.remove .ifModifiedSince) := by
  have hreply : AnswersFile dateCrates (some 784111777) (datedReply 784111777500000000) := .disk _ _ _ none rfl
  have hemits : ((datedReply 784111777500000000 []).toOption.any fun resp =>
      resp.headers.getAll .lastModified = [sampleDate]) = true := by
    decide +kernel
  obtain ⟨resp, hresp, hdate⟩ := (Option.any_eq_true _ _).mp hemits
  obtain ⟨hechoed, secs, hsecs, hearlier⟩ := (echoed_dates dateCrates_httpDates).1 _ _ _ hreply hreply [] resp _
    (Checked.toOption_eq_some.mp hresp) (by rw [of_decide_eq_true hdate]; exact List.mem_singleton_self _)
  have hread : dateCrates.httpDate [sampleDate] = some 784111777 := by decide
  cases hread.symm.trans hsecs
  exact ⟨hechoed, hearlier _ 784111776 (by decide) (by decide), fun headers =>
    ((echoed_dates dateCrates_httpDates).2 (datedReply 0) (.disk _ _ _ none rfl) headers _).1⟩

end WeaveGate.Static
