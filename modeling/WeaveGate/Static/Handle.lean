import WeaveGate.Lib.Percent
import WeaveGate.Static.Encoding
import WeaveGate.Static.Listing
import WeaveGate.Static.Reply

/-!
# The static-file handler

`static_files.rs`, `fs/path.rs`, `fs/meta.rs` and the lookup of `mem_cache/cache.rs`: from a request to the
file it names, through the access checks, to a response.
-/

namespace WeaveGate.Static

open Http
open Posix (Octets Path Name FileTree Inode Errno Canon)

/-! ## Paths -/

/-- Whether some component is a dotfile. Names that are not UTF-8 are passed over. -/
def isHidden (p : Path) : Bool :=
  p.any fun c => match c with
    | .normal name => Utf8.valid name && isDotfile name
    | _ => false

/-- Whether a component of `rel` below `current` is a link. Only ordinary names are looked at. -/
def containsSymlink (t : FileTree) (current : Path) : Path → Except Errno Bool
  | [] => .ok false
  | .normal name :: rel =>
      match t.symlinkMetadata (current.push [.normal name]) with
      | .error e => .error e
      | .ok metadata => if metadata.isSymlink then .ok true else containsSymlink t (current.push [.normal name]) rel
  | _ :: rel => containsSymlink t current rel

def decodeTailPath (tail : Str) : Path :=
  Posix.Path.parse (Percent.decode (Posix.utf8 (Text.trimStartMatches '/' tail)))

def sanitizePath (base : Path) (tail : Str) : Path :=
  (decodeTailPath tail).foldl (fun fullPath c => match c with
    | .normal name => fullPath.push [.normal name]
    | _ => fullPath) base

/-! ## Metadata -/

structure FileMetadata where
  filePath : Path
  metadata : Inode
  isDir : Bool
  precompressedVariant : Option (Path × ContentCoding)
deriving DecidableEq

def htmlSuffix : Octets := Posix.utf8 ".html".toList

def tryMetadataWithHtmlSuffix (t : FileTree) (filePath : Path) : Path × Option Inode :=
  match Posix.Path.fileName filePath with
  | none => (filePath, none)
  | some name =>
      let suffixed := Posix.Path.setFileName filePath (name ++ htmlSuffix)
      match tryMetadata t suffixed with
      | .ok (metadata, _) => (suffixed, some metadata)
      | .error _ => (Posix.Path.setFileName suffixed name, none)

def defaultIndexFiles : List Path := [[.normal (Posix.utf8 "index.html".toList)]]

/-- How the search for an index file ends: the loop returns with a variant, it breaks with a file, or it runs
through. -/
inductive IndexSearch where
  | variant (result : FileMetadata)
  | found (filePath : Path) (metadata : Inode)
  | notFound (filePath : Path)

section

variable (crates : Crates) (t : FileTree) (headers : HeaderMap) (compressionStatic : Bool)

def variantOf (filePath : Path) : Option CompressedFileVariant :=
  if compressionStatic then precompressedVariant crates t filePath headers else none

def FileMetadata.ofVariant (filePath : Path) (p : CompressedFileVariant) : FileMetadata :=
  { filePath, metadata := p.metadata, isDir := false, precompressedVariant := some (p.filePath, p.encoding) }

def findIndex (filePath : Path) : List Path → IndexSearch
  | [] => .notFound filePath
  | index :: rest =>
      let indexPath := filePath.push index
      match variantOf crates t headers compressionStatic indexPath with
      | some p => .variant (FileMetadata.ofVariant indexPath p)
      | none =>
          match tryMetadata t indexPath with
          | .ok (metadata, _) => .found indexPath metadata
          | .error _ =>
              match tryMetadataWithHtmlSuffix t indexPath.pop with
              | (suffixed, some metadata) => .found suffixed metadata
              | (filePath, none) => findIndex filePath rest

/-- The return after the index files: the variant goes with the metadata found so far. -/
def FileMetadata.ofFound (filePath : Path) (metadata : Inode) (isDir : Bool) : FileMetadata :=
  { filePath, metadata, isDir
    precompressedVariant := (variantOf crates t headers compressionStatic filePath).map fun p =>
      (p.filePath, p.encoding) }

def getComposedFileMetadata (filePath : Path) (indexFiles : List Path) : Except StatusCode FileMetadata :=
  let ofFound := FileMetadata.ofFound crates t headers compressionStatic
  match tryMetadata t filePath with
  | .ok (metadata, false) => .ok (ofFound filePath metadata false)
  | .ok (metadata, true) =>
      let indexFiles := if indexFiles = [] then defaultIndexFiles else indexFiles
      match findIndex crates t headers compressionStatic filePath indexFiles with
      | .variant result => .ok result
      | .found filePath metadata => .ok (ofFound filePath metadata true)
      -- without an index file the last one is appended
      | .notFound filePath => .ok (ofFound (filePath.push (indexFiles.getLast?.getD [])) metadata true)
  | .error err =>
      match variantOf crates t headers compressionStatic filePath with
      | some p => .ok (FileMetadata.ofVariant filePath p)
      | none =>
          match tryMetadataWithHtmlSuffix t filePath with
          | (suffixed, some metadata) =>
              .ok { filePath := suffixed, metadata, isDir := false, precompressedVariant := none }
          | (filePath, none) =>
              match variantOf crates t headers compressionStatic filePath with
              | some p => .ok (FileMetadata.ofVariant filePath p)
              | none => .error err

end

/-- The path that the access checks are made on: for a directory, without the index file. -/
def FileMetadata.checkedPath (m : FileMetadata) : Path := if m.isDir then m.filePath.pop else m.filePath

def FileMetadata.openedPath (m : FileMetadata) : Path :=
  (m.precompressedVariant.map Prod.fst).getD m.filePath

/-! ## Access -/

/-- The path lies below the base, resolves under it and, as the options ask, has no link and no dotfile. -/
def checkAccess (t : FileTree) (opts : HandleOpts) (checked : Path) : Except StatusCode Unit :=
  match Posix.Path.stripPrefix checked opts.basePath with
  | none => .error .notFound
  | some rel =>
      match t.canonicalize checked, t.canonicalize opts.basePath with
      | .error _, _ => .error .notFound
      | .ok _, .error _ => .error .notFound
      | .ok resolved, .ok base =>
          if ¬ base <+: resolved then .error .notFound
          else
            match if opts.disableSymlinks then containsSymlink t opts.basePath rel else .ok false with
            | .error _ => .error .notFound
            | .ok true => .error .forbidden
            | .ok false => if opts.ignoreHiddenFiles && isHidden rel then .error .notFound else .ok ()

/-! ## Responses -/

def isAllowed (method : Method) : Bool := method ∈ [Method.options, .head, .get]

def downloadParamKey : Str := "download".toList

def redirectReply (opts : HandleOpts) : Except Failure (Response Body) :=
  let query := opts.uriQuery.elim [] ('?' :: ·)
  match HeaderValue.fromStr (opts.uriPath ++ '/' :: query) with
  | some loc => .ok (((Response.new Body.empty).insertHeader .location loc).withStatus .permanentRedirect)
  | none => .error (.status .internalServerError)

def optionsReply : Response Body :=
  (((Response.new Body.empty).withStatus .noContent).insertHeader .allow
    (HeaderValue.fromStatic "OPTIONS, HEAD, GET")).insertHeader .acceptRanges (HeaderValue.fromStatic "bytes")

def listingReply (crates : Crates) (t : FileTree) (opts : HandleOpts) (filePath : Path) :
    Except Failure (Response Body) :=
  if opts.dirListingDownload ≠ [] ∧
      (crates.formPairs (opts.uriQuery.getD [])).any (fun p => p.1 = downloadParamKey) = true then
    match Posix.Path.fileName filePath.pop with
    | some name => .ok (archiveReply name filePath.pop opts)
    | none => .error (.status .internalServerError)
  else autoIndex crates t opts filePath

def variantReply (crates : Crates) (t : FileTree) (opts : HandleOpts) (m : FileMetadata) (variantPath : Path)
    (encoding : ContentCoding) : Except Failure (Response Body) := do
  let resp ← fileReply crates t opts.headers m.filePath m.metadata (some variantPath) opts.memoryCache
  let resp := resp.removeHeader .contentLength
  match HeaderValue.fromStr encoding.asStr with
  | none => .error (.status .internalServerError)
  | some value => .ok (resp.insertHeader .contentEncoding value)

/-- What `handle` does once access is granted. -/
def respond (crates : Crates) (t : FileTree) (opts : HandleOpts) (m : FileMetadata) :
    Except Failure (Response Body) :=
  if m.isDir && opts.redirectTrailingSlash && !Text.endsWith opts.uriPath '/' then redirectReply opts
  else if opts.method = .options then .ok optionsReply
  else if m.isDir && opts.dirListing && !t.exists m.filePath then listingReply crates t opts m.filePath
  else match m.precompressedVariant with
    | some (variantPath, encoding) => variantReply crates t opts m variantPath encoding
    | none => fileReply crates t opts.headers m.filePath m.metadata none opts.memoryCache

/-! ## The handler -/

/-- The path a request names. With a cache, a directory stands for its `index.html`. -/
def requestedPath (opts : HandleOpts) : Path :=
  let filePath := sanitizePath opts.basePath opts.uriPath
  if opts.memoryCache.isSome && opts.redirectTrailingSlash && Text.endsWith opts.uriPath '/' then
    filePath.push [.normal (Posix.utf8 "index.html".toList)]
  else filePath

/-- The entry for a path, and the answer made from it. -/
def getOrAcquire (crates : Crates) (store : Store) (filePath : Path) (headers : HeaderMap) :
    Option (Response Body) :=
  if isUtf8 filePath then (store.get? filePath).map (·.responseBody crates headers) else none

def handleFile (crates : Crates) (t : FileTree) (opts : HandleOpts) : Except Failure StaticFileResponse :=
  match getComposedFileMetadata crates t opts.headers opts.compressionStatic (requestedPath opts) opts.indexFiles with
  | .error s => .error (.status s)
  | .ok m =>
      match checkAccess t opts m.checkedPath with
      | .error s => .error (.status s)
      | .ok () => (respond crates t opts m).map fun resp => { resp, filePath := m.filePath }

def handle (crates : Crates) (t : FileTree) (store : Store) (opts : HandleOpts) :
    Except Failure StaticFileResponse :=
  if !isAllowed opts.method then .error (.status .methodNotAllowed)
  else
    match if opts.memoryCache.isSome then getOrAcquire crates store (requestedPath opts) opts.headers else none with
    | some resp => .ok { resp, filePath := requestedPath opts }
    | none => handleFile crates t opts

end WeaveGate.Static
