import WeaveGate.Static.Types

/-!
# From a file to a response

`conditional_headers.rs`, `response.rs` and the replies of `static_files.rs` and `mem_cache/cache.rs`:
conditional headers, byte ranges and the responses that stream a file or a cache entry.
-/

namespace WeaveGate.Static

open Http
open Posix (Octets Path FileTree Inode Errno)

/-! ## Conditional headers -/

structure ConditionalHeaders where
  ifModifiedSince : Option Nat
  ifUnmodifiedSince : Option Nat
  ifRange : Option IfRange
  range : Option (List RangeSpec)
deriving DecidableEq

/-- `typed_get`: absent fields are not decoded. -/
def typedGet {α : Type} (headers : HeaderMap) (name : HeaderName) (decode : List HeaderValue → Option α) :
    Option α :=
  match headers.getAll name with
  | [] => none
  | values => decode values

inductive ConditionalBody where
  | noBody (resp : Response Body)
  | withBody (range : Option (List RangeSpec))
deriving DecidableEq

/-- Without an entity tag of its own, the server takes every tag for outdated. -/
def IfRange.isModified (ifRange : IfRange) (lastModified : Option Nat) : Bool :=
  match ifRange with
  | .date since => lastModified.all (since < ·)
  | .entityTag _ => true

namespace ConditionalHeaders

def new (crates : Crates) (headers : HeaderMap) : ConditionalHeaders :=
  { ifModifiedSince := typedGet headers .ifModifiedSince crates.httpDate
    ifUnmodifiedSince := typedGet headers .ifUnmodifiedSince crates.httpDate
    ifRange := typedGet headers .ifRange crates.ifRange
    range := typedGet headers .range crates.range }

/-- A file without a date fails `If-Unmodified-Since` and always counts as modified. -/
def check (self : ConditionalHeaders) (lastModified : Option Nat) : ConditionalBody :=
  if self.ifUnmodifiedSince.any fun since => !lastModified.any (· ≤ since) then
    .noBody ((Response.new Body.empty).withStatus .preconditionFailed)
  else if self.ifModifiedSince.any fun since => lastModified.any (· ≤ since) then
    .noBody ((Response.new Body.empty).withStatus .notModified)
  else if self.ifRange.any (·.isModified lastModified) then .withBody none
  else .withBody self.range

end ConditionalHeaders

/-! ## Byte ranges -/

/-- The first and the first excluded byte that a range names. The end of a closed range is a `u64` sum. -/
def rangeBounds (maxLen : Nat) : RangeSpec → Option (Nat × Nat)
  | (none, none) => some (0, maxLen)
  | (some a, some b) => if b < a then none else some (a, if b = maxLen then b else (b + 1) % 2 ^ 64)
  | (some a, none) => some (a, maxLen)
  | (none, some b) => some (if maxLen < b then (0, maxLen) else (maxLen - b, maxLen))

def bytesRange (range : Option (List RangeSpec)) (maxLen : Nat) : Option (Nat × Nat) :=
  match range with
  | none => some (0, maxLen)
  | some specs =>
      match specs.head?.bind (rangeBounds maxLen) with
      | none => none
      | some (first, last) =>
          if first < last ∧ last ≤ maxLen then some (first, last)
          else if first < last ∧ first ≤ maxLen then some (first, maxLen)
          else none

/-! ## Responses -/

def decimal (n : Nat) : HeaderValue := Posix.utf8 (Nat.toDigits 10 n)

def contentRangeBytes (first last len : Nat) : HeaderValue :=
  HeaderValue.fromStatic "bytes " ++ decimal first ++ HeaderValue.fromStatic "-" ++ decimal (last - 1) ++
    HeaderValue.fromStatic "/" ++ decimal len

def unsatisfiedBytes (len : Nat) : HeaderValue := HeaderValue.fromStatic "bytes */" ++ decimal len

/-- The part that `response_body` and `MemFile::response_body` share: `body` streams `subLen` bytes from a
start on. `ContentRange::bytes` fails for ranges without an end only. -/
def rangedResponse (crates : Crates) (range : Option (List RangeSpec)) (len : Nat) (contentType : HeaderValue)
    (modified : Option Nat) (body : Nat → Nat → Body) : Response Body :=
  match bytesRange range len with
  | none =>
      ((Response.new Body.empty).withStatus .rangeNotSatisfiable).insertHeader .contentRange (unsatisfiedBytes len)
  | some (first, last) =>
      let subLen := last - first
      let resp := Response.new (body first subLen)
      let resp := if subLen ≠ len then
          (resp.withStatus .partialContent).insertHeader .contentRange (contentRangeBytes first last len)
        else resp
      let resp := resp.insertHeader .contentLength (decimal subLen)
      let resp := resp.insertHeader .contentType contentType
      let resp := resp.insertHeader .acceptRanges (HeaderValue.fromStatic "bytes")
      modified.elim resp fun secs => resp.insertHeader .lastModified (crates.fmtHttpDate secs)

/-- The first second of the year 10000. -/
def dateLimit : Nat := 253402300800

/-- The date of a file in seconds. The epoch itself counts as no date. A time before it, or one too late for an
HTTP date, makes the conversion panic. -/
def lastModifiedOf (metadata : Inode) : Except Failure (Option Nat) :=
  if metadata.mtime = 0 then .ok none
  else if metadata.mtime < 0 then .error .panic
  else
    let secs := metadata.mtime.toNat / 1000000000
    if dateLimit ≤ secs then .error .panic else .ok (some secs)

/-- `HttpDate::from` of a time in nanoseconds from the epoch. -/
def httpDateFrom (time : Int) : Except Failure Nat :=
  if time < 0 then .error .panic
  else if dateLimit ≤ time.toNat / 1000000000 then .error .panic
  else .ok (time.toNat / 1000000000)

/-- `check` with its conversions: both comparisons make the date a time and the time a date again. -/
def ConditionalHeaders.tryCheck (self : ConditionalHeaders) (lastModified : Option Nat) :
    Except Failure ConditionalBody := do
  let comparedDate := lastModified.mapM fun secs : Nat => httpDateFrom (secs * 1000000000)
  let precondition ← self.ifUnmodifiedSince.mapM fun since => return (← comparedDate).any (· ≤ since)
  if precondition = some false then
    return .noBody ((Response.new Body.empty).withStatus .preconditionFailed)
  let unmodified ← self.ifModifiedSince.mapM fun since => return (← comparedDate).any (· ≤ since)
  if unmodified = some true then
    return .noBody ((Response.new Body.empty).withStatus .notModified)
  if self.ifRange.any (·.isModified lastModified) then
    return .withBody none
  return .withBody self.range

def defaultReadBufSize : Nat := 4096

def optimalBufSize (metadata : Inode) : Nat := min (max metadata.blksize defaultReadBufSize) metadata.size

/-- Paths that are not UTF-8 stay out of the cache. -/
def isUtf8 (path : Path) : Bool :=
  path.all fun c => match c with
    | .normal name => Utf8.valid name
    | _ => true

/-- `path` names the file for its media type and for the cache, whatever file is streamed. -/
def responseBody (crates : Crates) (file : FileTree.OpenFile) (path : Path) (metadata : Inode)
    (conditionals : ConditionalHeaders) (memoryCache : Option MemCacheOpts) : Except Failure (Response Body) := do
  let len := metadata.size
  let modified ← lastModifiedOf metadata
  match conditionals.check modified with
  | .noBody resp => return resp
  | .withBody range =>
      let contentType := crates.mime path
      let mem := if memoryCache.any (len ≤ ·.maxFileSize) && isUtf8 path then
          some ({ filePath := path, contentType, lastModified := modified : MemFileTempOpts }, len)
        else none
      return rangedResponse crates range len contentType modified fun start subLen =>
        .stream { source := .file file, start, subLen, bufSize := optimalBufSize metadata, mem }

def fileReply (crates : Crates) (t : FileTree) (headers : HeaderMap) (path : Path) (metadata : Inode)
    (pathPrecompressed : Option Path) (memoryCache : Option MemCacheOpts) : Except Failure (Response Body) :=
  match t.open (pathPrecompressed.getD path) with
  | .ok file => responseBody crates file path metadata (ConditionalHeaders.new crates headers) memoryCache
  | .error .notFound => .error (.status .notFound)
  | .error .permissionDenied => .error (.status .forbidden)
  | .error _ => .error (.status .internalServerError)

def MemFile.responseBody (crates : Crates) (self : MemFile) (headers : HeaderMap) : Response Body :=
  match (ConditionalHeaders.new crates headers).check self.lastModified with
  | .noBody resp => resp
  | .withBody range =>
      rangedResponse crates range self.data.length self.contentType self.lastModified fun start subLen =>
        .stream { source := .cursor self.data, start, subLen, bufSize := self.bufSize, mem := none }

end WeaveGate.Static
