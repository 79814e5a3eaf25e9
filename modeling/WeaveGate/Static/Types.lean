import WeaveGate.Http.Types
import WeaveGate.Lib.Posix.FileTree
import WeaveGate.Lib.Utf8

/-!
# Bodies, options and results of the static-file handler

The data of `static_files.rs`, `fs/meta.rs`, `fs/stream.rs` and `mem_cache`, and the functions of other crates
that the handler calls.
-/

namespace WeaveGate.Static

open Http
open Posix (Octets Path FileTree Inode)

/-! ## Functions of other crates -/

inductive IfRange where
  | entityTag (tag : Octets)
  | date (secs : Nat)
deriving DecidableEq

/-- The first and the last byte of a range, none where the bound is open. -/
abbrev RangeSpec := Option Nat × Option Nat

inductive DirListFmt where
  | html
  | json
deriving DecidableEq

inductive DirDownloadFmt where
  | targz
deriving DecidableEq

inductive FileType where
  | directory
  | file
deriving DecidableEq

structure FileEntry where
  name : Octets
  mtime : Int
  size : Option Nat
  type : FileType
  uri : Str
deriving DecidableEq

/-- Decoders of header fields take the values of the field, of which there is at least one. Dates are in
seconds from the Unix epoch. -/
structure Crates where
  httpDate : List HeaderValue → Option Nat
  fmtHttpDate : Nat → HeaderValue
  ifRange : List HeaderValue → Option IfRange
  range : List HeaderValue → Option (List RangeSpec)
  /-- `str::parse::<f32>` -/
  parseF32 : Str → Option Float32.Model
  /-- The media type of a file name, `application/octet-stream` when it has none. -/
  mime : Path → HeaderValue
  formPairs : Str → List (Str × Str)
  /-- The pages of a directory: current path, number of directories and of files, entries, order, downloads. -/
  htmlAutoIndex : Str → Nat → Nat → List FileEntry → Nat → List DirDownloadFmt → Octets
  jsonAutoIndex : List FileEntry → Nat → Octets

/-! ## Bodies -/

inductive Source where
  | file (f : FileTree.OpenFile)
  | cursor (data : Octets)
deriving DecidableEq

/-- The bytes that can be read. Reading a directory fails. -/
def Source.content : Source → Option Octets
  | .file f => f.content
  | .cursor data => some data

structure MemFileTempOpts where
  filePath : Path
  contentType : HeaderValue
  lastModified : Option Nat
deriving DecidableEq

/-- `subLen` bytes of a source from `start` on. With `mem`, what is read is also collected for the cache, in a
buffer of the given capacity. -/
structure FileStream where
  source : Source
  start : Nat
  subLen : Nat
  bufSize : Nat
  mem : Option (MemFileTempOpts × Nat)
deriving DecidableEq

structure ArchiveJob where
  path : Path
  srcPath : Path
  followSymlinks : Bool
  ignoreHidden : Bool
deriving DecidableEq

inductive Body where
  | empty
  | full (content : Octets)
  | stream (s : FileStream)
  | archive (job : ArchiveJob)
deriving DecidableEq

/-- The window of the source. A window of no bytes is never read. -/
def FileStream.bytes (s : FileStream) : Option Octets :=
  if s.subLen = 0 then some []
  else s.source.content.map fun content => (content.drop s.start).take s.subLen

/-- The bytes of a body, when they can be read. An archive is written by a task of its own. -/
def Body.bytes : Body → Option Octets
  | .empty => some []
  | .full content => some content
  | .stream s => s.bytes
  | .archive _ => none

/-! ## The cache -/

structure MemFile where
  data : Octets
  bufSize : Nat
  contentType : HeaderValue
  lastModified : Option Nat
deriving DecidableEq

abbrev Store := Multimap Path MemFile

structure MemCacheOpts where
  maxFileSize : Nat
deriving DecidableEq

/-! ## The handler -/

structure HandleOpts where
  method : Method
  memoryCache : Option MemCacheOpts
  headers : HeaderMap
  basePath : Path
  uriPath : Str
  indexFiles : List Path
  uriQuery : Option Str
  dirListing : Bool
  dirListingOrder : Nat
  dirListingFormat : DirListFmt
  dirListingDownload : List DirDownloadFmt
  redirectTrailingSlash : Bool
  compressionStatic : Bool
  ignoreHiddenFiles : Bool
  disableSymlinks : Bool

structure StaticFileResponse where
  resp : Response Body
  filePath : Path
deriving DecidableEq

/-- How the handler fails: with a status, or in a panic. -/
inductive Failure where
  | status (s : StatusCode)
  | panic
deriving DecidableEq

end WeaveGate.Static
