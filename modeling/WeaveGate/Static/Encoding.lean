import Mathlib.Data.List.Sort
import WeaveGate.Static.Types

/-!
# Content codings and pre-compressed variants

`headers_ext` and `compression_static.rs`: the codings a client accepts, in the order of their quality, and the
first of them for which there is a file.
-/

namespace WeaveGate.Static

open Http
open Posix (Octets Path FileTree Inode)

/-! ## Content codings -/

inductive ContentCoding where
  | brotli
  | compress
  | deflate
  | gzip
  | identity
  | zstd
deriving DecidableEq

namespace ContentCoding

def asStr : ContentCoding → Str
  | brotli => "br".toList
  | compress => "compress".toList
  | deflate => "deflate".toList
  | gzip => "gzip".toList
  | identity => "identity".toList
  | zstd => "zstd".toList

/-- The name of the variant in the source. -/
def ident : ContentCoding → Str
  | brotli => "BROTLI".toList
  | compress => "COMPRESS".toList
  | deflate => "DEFLATE".toList
  | gzip => "GZIP".toList
  | identity => "IDENTITY".toList
  | zstd => "ZSTD".toList

def fromStr (s : Str) : Option ContentCoding :=
  [brotli, compress, deflate, gzip, identity, zstd].find? fun c => s = c.ident || s = c.asStr

/-- Every other text counts as `identity`. -/
def ofStr (s : Str) : ContentCoding := (fromStr s).getD identity

def priority : ContentCoding → Nat
  | identity => 1
  | compress => 2
  | deflate => 3
  | gzip => 4
  | brotli => 5
  | zstd => 6

end ContentCoding

/-! ## Quality values -/

structure QualityMeta where
  data : Str
  quality : Nat
deriving DecidableEq

/-- `(parsed * 1000_f32) as u16` -/
def qualityOf (parsed : Float32.Model) : Nat := (parsed.mul (Float32.Model.ofScientific 1000 0)).toUInt16.toNat

/-- `QualityMeta::try_from`. The last readable `q=` counts. -/
def qualityMeta (crates : Crates) (val : Str) : QualityMeta :=
  let parts := val.splitOn ';'
  let quality := parts.foldl (fun quality part =>
    match Text.stripPrefix (Text.trimStart part) "q=".toList with
    | some value => (crates.parseF32 (Text.trim value)).elim quality qualityOf
    | none => quality) 1000
  { data := Text.trim (parts.headD []), quality }

def QualityMeta.before (a b : QualityMeta) : Prop :=
  b.quality < a.quality ∨ a.quality = b.quality ∧
    (ContentCoding.ofStr b.data).priority ≤ (ContentCoding.ofStr a.data).priority

instance (a b : QualityMeta) : Decidable (a.before b) := inferInstanceAs (Decidable (_ ∨ _))

/-- `QualityValue::iter` -/
def qualityValues (crates : Crates) (value : HeaderValue) : List Str :=
  let items := (HeaderValue.toStr value).elim [] fun text => (text.splitOn ',').map (qualityMeta crates)
  (items.insertionSort QualityMeta.before).map QualityMeta.data

/-- `QualityValue::try_from_values`: several field lines are joined into one. -/
def joinValues : List HeaderValue → HeaderValue
  | [] => []
  | v :: vs => vs.foldl (fun buf value => buf ++ Posix.utf8 ", ".toList ++ value) v

def sortedEncodings (crates : Crates) (headers : HeaderMap) : Option (List ContentCoding) :=
  match headers.getAll .acceptEncoding with
  | [] => none
  | values => some ((qualityValues crates (joinValues values)).map ContentCoding.ofStr)

/-! ## Metadata -/

def tryMetadata (t : FileTree) (filePath : Path) : Except StatusCode (Inode × Bool) :=
  match t.metadata filePath with
  | .ok metadata => .ok (metadata, metadata.isDir)
  | .error _ => .error .notFound

/-! ## Pre-compressed variants -/

structure CompressedFileVariant where
  filePath : Path
  metadata : Inode
  encoding : ContentCoding
deriving DecidableEq

def compExt : ContentCoding → Option Octets
  | .gzip | .deflate => some (Posix.utf8 "gz".toList)
  | .brotli => some (Posix.utf8 "br".toList)
  | .zstd => some (Posix.utf8 "zst".toList)
  | _ => none

/-- One turn of the loop of `precompressed_variant`. -/
def variantFor (t : FileTree) (filePath : Path) (encoding : ContentCoding) : Option CompressedFileVariant := do
  let ext ← compExt encoding
  let name ← (Posix.Path.fileName filePath).filter Utf8.valid
  let variantPath := Posix.Path.setFileName filePath (name ++ Posix.dot :: ext)
  match tryMetadata t variantPath with
  | .error _ => none
  | .ok (metadata, isDir) => if isDir then none else some { filePath := variantPath, metadata, encoding }

def precompressedVariant (crates : Crates) (t : FileTree) (filePath : Path) (headers : HeaderMap) :
    Option CompressedFileVariant :=
  (sortedEncodings crates headers).bind fun encodings => encodings.findSome? (variantFor t filePath)

end WeaveGate.Static
