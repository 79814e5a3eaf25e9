import WeaveGate.Handler.PreProcess

/-!
# Stages after the files

The `post_process` functions, and the markdown variant of a path. CORS fields are added by `corsPostProcess`.
-/

namespace WeaveGate.Handler

open Http Settings
open Posix (Octets Path FileTree Name)
open Static (Body ContentCoding)

variable {β : Type}

/-! ## Markdown -/

/-- `Accept::accepts` -/
def accepts (crates : Crates) (headers : HeaderMap) (mediaType : Str) : Bool :=
  match headers.getAll .accept with
  | [] => false
  | values => (Static.qualityValues crates.static (Static.joinValues values)).any (Text.eqIgnoreAsciiCase · mediaType)

def tryPath (t : FileTree) (path : Path) : Option Path :=
  match Static.tryMetadata t path with
  | .ok (_, false) => some path
  | _ => none

def tryMarkdownVariant (t : FileTree) (filePath : Path) : Option Path :=
  let suffixed (suffix : String) := (Posix.Path.fileName filePath).bind fun name =>
    tryPath t (Posix.Path.setFileName filePath (name ++ Posix.utf8 suffix.toList))
  (suffixed ".md").orElse fun _ => (suffixed ".html.md").orElse fun _ =>
    tryPath t (filePath.push [.normal (Posix.utf8 "index.html.md".toList)])

def componentText : Posix.Component → Octets
  | .rootDir => [Posix.slash]
  | .curDir => [Posix.dot]
  | .parentDir => [Posix.dot, Posix.dot]
  | .normal name => name

def relativeText (p : Path) : Option Str := Utf8.decode ([Posix.slash].intercalate (p.map componentText))

/-- The path of the markdown file to be served instead. -/
def markdownPreProcess (crates : Crates) (t : FileTree) (headers : HeaderMap) (basePath : Path) (uriPath : Str) :
    Option Str :=
  if !accepts crates headers "text/markdown".toList then none
  else do
    let sanitized := Text.trimStartMatches '/' uriPath
    let filePath := if sanitized = [] then basePath
      else basePath.push (Posix.Path.parse (Posix.utf8 sanitized))
    let mdPath ← tryMarkdownVariant t filePath
    let rel ← Posix.Path.stripPrefix mdPath basePath
    let text ← relativeText rel
    return '/' :: text

def markdownPostProcess (isMarkdownVariant : Bool) (opts : RequestHandlerOpts) (resp : Response Body) :
    Response Body :=
  if !isMarkdownVariant || !opts.acceptMarkdown then resp
  else resp.insertHeader .contentType (HeaderValue.fromStatic "text/markdown; charset=utf-8")

/-! ## Fallback page -/

def fallbackResponse (pageFallback : Octets) : Response Body :=
  (((Response.new (Body.full pageFallback)).insertHeader .contentLength (Static.decimal pageFallback.length)).insertHeader
    .contentType (HeaderValue.fromStatic "text/html; charset=utf-8")).insertHeader .acceptRanges
      (HeaderValue.fromStatic "bytes")

def fallbackPostProcess (opts : RequestHandlerOpts) (req : Request β) (resp : Response Body) : Response Body :=
  if req.method = .get ∧ resp.status = .notFound ∧ opts.pageFallback ≠ [] then fallbackResponse opts.pageFallback
  else resp

/-! ## Character sets -/

def textOnlyTypes : List Str :=
  ["application/atom+xml", "application/rss+xml", "text/calendar", "text/csv", "text/html", "text/markdown",
    "text/plain", "text/xml"].map String.toList

namespace Mime

def isTextOnly (m : Mime) : Bool := m.type = "text".toList

def textMimeTypes : List Str :=
  ["application/csv", "application/graphql", "application/javascript", "application/json", "application/rtf",
    "application/sql", "application/x-yaml", "application/xml", "application/yaml"].map String.toList

def additionalCompressibleTypes : List Str :=
  ["application/wasm", "application/font-sfnt", "application/vnd.ms-fontobject", "image/x-icon",
    "image/vnd.microsoft.icon"].map String.toList

def isText (m : Mime) : Bool :=
  m.isTextOnly || m.suffix.any (· ∈ ["json", "xml", "yaml", "svg"].map String.toList) || m.essence ∈ textMimeTypes

def containsTextOnly (m : Mime) (list : List Str) : Bool := m.isTextOnly && m.essence ∈ list

def isCompressible (m : Mime) : Bool :=
  if m.isText then true
  else if m.type = "font".toList then m.essence ≠ "font/woff2".toList
  else m.essence ∈ additionalCompressibleTypes

end Mime

def textCharsetPostProcess (crates : Crates) (opts : RequestHandlerOpts) (resp : Response Body) : Response Body :=
  if !opts.textCharset then resp
  else
    let newHeader : Option HeaderValue := do
      let value ← resp.headers.get? .contentType
      let text ← HeaderValue.toStr value
      let mime ← crates.parseMime text
      if mime.containsTextOnly textOnlyTypes && mime.charset.isNone then
        HeaderValue.fromStr (Text.trimEndMatches ';' (Text.trimEnd text) ++ "; charset=utf-8".toList)
      else none
    newHeader.elim resp fun value => resp.insertHeader .contentType value

/-! ## Compression -/

/-- Adds `accept-encoding` to the first `Vary` field. With `once`, only when its text does not contain it yet. -/
def varyAcceptEncoding (once : Bool) (resp : Response Body) : Response Body :=
  let value := match resp.headers.get? .vary with
    | none => HeaderName.acceptEncoding
    | some vary =>
        let text := (HeaderValue.toStr vary).getD []
        if once && Text.contains text HeaderName.acceptEncoding then text
        else if once && text = [] then HeaderName.acceptEncoding
        else text ++ ',' :: HeaderName.acceptEncoding
  resp.insertHeader .vary (Posix.utf8 value)

def compressionStaticPostProcess (opts : RequestHandlerOpts) (resp : Response Body) : Response Body :=
  if !opts.compressionStatic then resp else varyAcceptEncoding false resp

def availableEncodings : List ContentCoding := [.deflate, .gzip, .brotli, .zstd]

def getPreferredEncoding (crates : Crates) (headers : HeaderMap) : Option ContentCoding :=
  (Static.sortedEncodings crates.static headers).bind fun encodings => encodings.find? (· ∈ availableEncodings)

def CompressionLevel.intoAlgorithmLevel (default : Nat) : CompressionLevel → Level
  | .fastest => .fastest
  | .best => .best
  | .default => .precise default

def defaultLevel (encoding : ContentCoding) : Nat := if encoding = .zstd then 3 else 4

def createEncodingHeader (existing : Option HeaderValue) (coding : ContentCoding) : HeaderValue :=
  match existing.bind HeaderValue.toStr with
  | some text => (HeaderValue.fromStr (text ++ ", ".toList ++ coding.asStr)).getD (Posix.utf8 coding.asStr)
  | none => Posix.utf8 coding.asStr

/-- `gzip`, `deflate`, `brotli` and `zstd` -/
def compress (crates : Crates) (level : CompressionLevel) (coding : ContentCoding) (resp : Response Body) :
    Response Body :=
  let header := createEncodingHeader (resp.headers.get? .contentEncoding) coding
  let resp := (resp.removeHeader .contentEncoding).removeHeader .contentLength
  { resp.insertHeader .contentEncoding header with
    body := crates.encode coding (level.intoAlgorithmLevel (defaultLevel coding)) resp.body }

def auto (crates : Crates) (method : Method) (headers : HeaderMap) (level : CompressionLevel) (resp : Response Body) :
    Response Body :=
  if method = .head ∨ method = .options then resp
  else match getPreferredEncoding crates headers with
    | none => resp
    | some encoding =>
        let contentType := ((resp.headers.get? .contentType).bind HeaderValue.toStr).bind crates.parseMime
        if contentType.any fun m => !m.isCompressible then resp else compress crates level encoding resp

def compressionPostProcess (crates : Crates) (opts : RequestHandlerOpts) (req : Request β) (resp : Response Body) :
    Response Body :=
  if !opts.compression then resp
  else if (resp.headers.get? .contentEncoding).isSome then resp
  else auto crates req.method req.headers opts.compressionLevel (varyAcceptEncoding true resp)

/-! ## Further header fields -/

def cacheExtOneHour : List Str := ["atom", "json", "rss", "xml"].map String.toList

def cacheExtOneYear : List Str :=
  ["avif", "bmp", "bz2", "css", "doc", "gif", "gz", "htc", "ico", "jpeg", "jpg", "js", "jxl", "map", "mjs", "mp3",
    "mp4", "ogg", "ogv", "pdf", "png", "rar", "rtf", "tar", "tgz", "wav", "weba", "webm", "webp", "woff", "woff2",
    "zip"].map String.toList

def getMaxAge (uri : Str) : Nat :=
  match Text.rsplitOnce '.' uri with
  | none => 60 * 60 * 24
  | some (_, extension) =>
      if extension ∈ cacheExtOneHour then 60 * 60
      else if extension ∈ cacheExtOneYear then 60 * 60 * 24 * 365
      else 60 * 60 * 24

def controlHeadersPostProcess (opts : RequestHandlerOpts) (req : Request β) (resp : Response Body) : Response Body :=
  if !opts.cacheControlHeaders then resp
  else resp.insertHeader .cacheControl
    (HeaderValue.fromStatic "max-age=" ++ Static.decimal (min (getMaxAge req.uri.path) (2 ^ 32 - 1)))

def securityHeaders : List (HeaderName × String) :=
  [ (.strictTransportSecurity, "max-age=63072000; includeSubDomains; preload"), (.xFrameOptions, "DENY"),
    (.xContentTypeOptions, "nosniff"), (.contentSecurityPolicy, "frame-ancestors 'self'") ]

def securityHeadersPostProcess (opts : RequestHandlerOpts) (resp : Response Body) : Response Body :=
  if !opts.securityHeaders then resp
  else securityHeaders.foldl (fun resp (name, value) => resp.insertHeader name (HeaderValue.fromStatic value)) resp

/-- The path that custom headers are matched against: for a directory, with the file name of what was served. -/
def effectiveUriPath (uriPath : Str) (filePath : Option Path) (redirectTrailingSlash : Bool) : Str :=
  let autoIndex : Option Str := do
    let p ← filePath.filter fun _ => Text.endsWith uriPath '/' || !redirectTrailingSlash
    let name ← (Posix.Path.fileName p).bind Utf8.decode
    return if uriPath = ['/'] then '/' :: name else uriPath ++ '/' :: name
  autoIndex.getD uriPath

def customHeadersPostProcess (crates : Crates) (opts : RequestHandlerOpts) (req : Request β) (resp : Response Body)
    (filePath : Option Path) : Response Body :=
  match opts.advancedOpts.bind (·.headers) with
  | none => resp
  | some entries =>
      let uriPath := effectiveUriPath req.uri.path filePath opts.redirectTrailingSlash
      entries.foldl (fun resp entry =>
        if crates.globs.isMatch entry.source uriPath then
          entry.headers.foldl (fun resp (name, value) => resp.insertHeader name value) resp
        else resp) resp

end WeaveGate.Handler
