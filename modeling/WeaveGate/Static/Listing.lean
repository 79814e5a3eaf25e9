import WeaveGate.Lib.Percent
import WeaveGate.Lib.Worklist
import WeaveGate.Static.Types

/-!
# Directory listings and archives

`directory_listing` and `directory_listing_download.rs`. The pages themselves are rendered by the functions of
`Crates`. An archive is written by a task that works off a stack of paths.
-/

namespace WeaveGate.Static

open Http
open Posix (Octets Path Name FileTree Inode Errno Canon)

def isDotfile (name : Name) : Bool := name.head? = some Posix.dot

def methodIsHead (method : Method) : Bool := method = .head

/-! ## Directory listings -/

def unreserved (b : UInt8) : Bool :=
  (0x30 ≤ b && b ≤ 0x39) || (0x41 ≤ b && b ≤ 0x5A) || (0x61 ≤ b && b ≤ 0x7A) ||
  b ∈ [0x5F, 0x2D, 0x2E, 0x7E]

/-- The type and the size of an entry, none when it is left out. A link counts as what it leads to, when that
lies under the root. -/
def entryType (t : FileTree) (rootPathAbs : Canon) (disableSymlinks : Bool) (entryPath : Path) (metadata : Inode) :
    Option (FileType × Option Nat) :=
  if metadata.isDir then some (.directory, none)
  else if metadata.isFile then some (.file, some metadata.size)
  else if !disableSymlinks && metadata.isSymlink then
    match t.canonicalize entryPath with
    | .error _ => none
    | .ok symlinkPath =>
        if ¬ rootPathAbs <+: symlinkPath then none
        else match t.symlinkMetadata (Posix.canonPath symlinkPath) with
          | .error _ => none
          | .ok symlinkMeta =>
              if symlinkMeta.isDir then some (.directory, none) else some (.file, some symlinkMeta.size)
  else none

def entryUri (basePath : Str) (name : Name) (type : FileType) : Str :=
  let nameEncoded := Percent.encode unreserved name
  let uri := if !Text.endsWith basePath '/' && basePath ≠ [] then
      ((Text.rsplitOnce '/' basePath).elim basePath Prod.snd) ++ '/' :: nameEncoded
    else nameEncoded
  if type = .directory then uri ++ ['/'] else uri

/-- What the loop of `read_dir_entries` takes of a name, none when it goes on to the next one. The time is not
converted yet. -/
def fileEntry (t : FileTree) (opts : HandleOpts) (rootPathAbs : Canon) (parent : Path) (name : Name) :
    Option FileEntry :=
  let entryPath := parent.push [.normal name]
  match t.symlinkMetadata entryPath with
  | .error _ => none
  | .ok metadata =>
      if opts.ignoreHiddenFiles && isDotfile name then none
      else (entryType t rootPathAbs opts.disableSymlinks entryPath metadata).map fun (type, size) =>
        { name, mtime := metadata.mtime, size, type, uri := entryUri opts.uriPath name type }

/-- `DateTime::<Local>::from` of a time in nanoseconds from the epoch. It panics for a time before the year -262143 or
after the year 262142. -/
def dateTimeFrom (time : Int) : Except Failure Int :=
  if -8334601228800 * 1000000000 ≤ time ∧ time < 8210266876800 * 1000000000 then .ok time else .error .panic

/-- One turn of the loop. -/
def readDirEntry (t : FileTree) (opts : HandleOpts) (rootPathAbs : Canon) (parent : Path) (name : Name) :
    Except Failure (Option FileEntry) :=
  match fileEntry t opts rootPathAbs parent name with
  | none => .ok none
  | some entry => (dateTimeFrom entry.mtime).map fun mtime => some { entry with mtime }

def orderCode (crates : Crates) (opts : HandleOpts) : Nat :=
  ((opts.uriQuery.bind fun q => (crates.formPairs q).find? fun p => p.1 = "sort".toList).bind fun p =>
    Text.parseUnsigned 255 (Text.trim p.2)).getD opts.dirListingOrder

/-- `read_dir_entries` from the end of the loop on. -/
def entriesReply (crates : Crates) (opts : HandleOpts) (entries : List FileEntry) : Response Body :=
  let dirsCount := entries.countP (·.type = .directory)
  let filesCount := entries.countP (·.type = .file)
  let code := orderCode crates opts
  let (contentType, content) := match opts.dirListingFormat with
    | .json => ("application/json", crates.jsonAutoIndex entries code)
    | .html => ("text/html; charset=utf-8",
        crates.htmlAutoIndex opts.uriPath dirsCount filesCount entries code opts.dirListingDownload)
  let resp := (Response.new Body.empty).insertHeader .contentType (HeaderValue.fromStatic contentType)
  let resp := resp.insertHeader .contentLength (Posix.utf8 (Nat.toDigits 10 content.length))
  if methodIsHead opts.method then resp else { resp with body := .full content }

/-- An error that is no panic is one that `auto_index` answers. -/
def readDirEntries (crates : Crates) (t : FileTree) (opts : HandleOpts) (parent : Path) (names : List Name) :
    Except Failure (Response Body) := do
  let rootPathAbs ← (t.canonicalize opts.basePath).mapError fun _ => .status .internalServerError
  let entries ← names.mapM (readDirEntry t opts rootPathAbs parent)
  return entriesReply crates opts (entries.filterMap id)

/-- `filepath` is the index file that the directory does not have. -/
def autoIndex (crates : Crates) (t : FileTree) (opts : HandleOpts) (filepath : Path) :
    Except Failure (Response Body) :=
  let parent := (Posix.Path.parent filepath).getD filepath
  match t.readDir parent with
  | .ok names => readDirEntries crates t opts parent names
  | .error .notFound => .error (.status .notFound)
  | .error .permissionDenied => .error (.status .forbidden)
  | .error _ => .error (.status .internalServerError)

/-! ## Archives -/

def archiveReply (name : Name) (srcPath : Path) (opts : HandleOpts) : Response Body :=
  let archiveName := Posix.Path.nameWithExtension name (Posix.utf8 "tar.gz".toList)
  let resp := (Response.new Body.empty).insertHeader .contentType (HeaderValue.fromStatic "application/gzip")
  let hvals := HeaderValue.fromStatic "attachment; filename=\"" ++ Utf8.lossy archiveName ++
    HeaderValue.fromStatic "\""
  let resp := (HeaderValue.fromOctets hvals).elim resp fun hval => resp.insertHeader .contentDisposition hval
  if methodIsHead opts.method then resp
  else { resp with body := .archive { path := [.normal name], srcPath, followSymlinks := !opts.disableSymlinks
                                      ignoreHidden := opts.ignoreHiddenFiles } }

/-- A path on the stack with the type its directory entry has. -/
structure Pending where
  src : Path
  isDir : Bool
  isSymlink : Bool
deriving DecidableEq

/-- An entry of the tarball. `file` holds the content of what its source path leads to. -/
inductive TarEntry where
  | dir (name : Path)
  | file (name : Path) (source : Canon) (content : Octets)
  | link (name : Path) (target : Path)
deriving DecidableEq

def ArchiveJob.root (job : ArchiveJob) : Pending := ⟨job.srcPath, true, false⟩

def storeFile (t : FileTree) (src dest : Path) : Except Errno TarEntry := do
  let file ← t.open src
  match file.inode.kind with
  | .file content => return .file dest file.canon content
  | .special => .error .other
  | _ => return .dir dest

/-- `Builder::append_path_with_name`: links are followed or stored as links. -/
def appendPathWithName (t : FileTree) (followSymlinks : Bool) (src dest : Path) : Except Errno TarEntry :=
  if followSymlinks then storeFile t src dest
  else match t.symlinkMetadata src with
    | .error e => .error e
    | .ok ⟨.symlink target, _, _⟩ => .ok (.link dest target)
    | .ok _ => storeFile t src dest

def pendingEntries (t : FileTree) (job : ArchiveJob) (src : Path) : Except Errno (List Pending) := do
  let names ← t.readDir src
  (names.filter fun name => !(job.ignoreHidden && isDotfile name)).mapM fun name => do
    let path := src.push [.normal name]
    let metadata ← t.symlinkMetadata path
    return { src := path, isDir := metadata.isDir, isSymlink := metadata.isSymlink }

/-- One turn of the loop, for the path on top of the stack: what goes onto the stack and what is written. -/
def archiveVisit (t : FileTree) (job : ArchiveJob) (p : Pending) : Except Errno (List Pending × List TarEntry) := do
  let rel ← (Posix.Path.stripPrefix p.src job.srcPath).elim (.error .notFound) .ok
  let dest := job.path.push rel
  if p.isDir || (p.isSymlink && job.followSymlinks && t.isDir p.src) then
    let pending ← pendingEntries t job p.src
    return (pending.reverse, if dest ≠ [] then [.dir dest] else [])
  else
    let entry ← appendPathWithName t job.followSymlinks p.src dest
    return ([], [entry])

def archive (t : FileTree) (job : ArchiveJob) (n : Nat) : Worklist.State Pending TarEntry :=
  Worklist.run (archiveVisit t job) n (Worklist.start job.root)

end WeaveGate.Static
