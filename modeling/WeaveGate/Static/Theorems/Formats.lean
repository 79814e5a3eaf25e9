import WeaveGate.Static.Lemmas.Preference
import WeaveGate.Static.Theorems.Variants

/-!
# The format of a pre-compressed variant

Whether a variant is a file in the format that its extension denotes, in a coding that the client accepts, under the
name of that coding.
-/

namespace WeaveGate.Static

open Http
open Posix (Octets Path Name FileTree Inode)

variable {crates : Crates} {t : FileTree} {headers : HeaderMap} {lines : List Line}

/-! ## Formats -/

/-- The extension of a file in the format of a coding. None is in use for the zlib format of `deflate`. -/
def extensionOf : ContentCoding → Option Octets
  | .gzip => some (Posix.utf8 "gz".toList)
  | .brotli => some (Posix.utf8 "br".toList)
  | .zstd => some (Posix.utf8 "zst".toList)
  | .compress | .deflate | .identity => none

/-- The format that an extension denotes. -/
def formatOf (ext : Octets) : Option ContentCoding :=
  [ContentCoding.gzip, .brotli, .zstd].find? fun c => extensionOf c = some ext

theorem formatOf_extensionOf {c : ContentCoding} {ext : Octets} (h : extensionOf c = some ext) :
    formatOf ext = some c := by
  cases c with
  | gzip | brotli | zstd =>
      cases h
      decide
  | _ => cases h

def withExtension (filePath : Path) (name : Name) (ext : Octets) : Path :=
  filePath.pop ++ [.normal (name ++ Posix.dot :: ext)]

/-- There is a regular file in the format of the coding. -/
def hasRegular (t : FileTree) (filePath : Path) (c : ContentCoding) : Bool :=
  (Posix.Path.fileName filePath).any fun name =>
    (extensionOf c).any fun ext => t.isFile (withExtension filePath name ext)

def hasVariant (t : FileTree) (filePath : Path) (c : ContentCoding) : Bool := (variantFor t filePath c).isSome

/-- `handle` comes to the branch for pre-compressed variants. -/
structure TakesVariant (crates : Crates) (t : FileTree) (store : Store) (opts : HandleOpts) (v : Path × ContentCoding) :
    Prop where
  uncached : cachedFile store opts = none
  found : ∃ m, getComposedFileMetadata crates t opts.headers opts.compressionStatic (requestedPath opts)
    opts.indexFiles = .ok m ∧ m.precompressedVariant = some v ∧
    (m.isDir && opts.redirectTrailingSlash && !Text.endsWith opts.uriPath '/') = false ∧
    opts.method ≠ .options ∧ showsListing t opts m = false

/-- The variant is the path with the extension of its coding, and a reply that is made from it names the format that
the extension denotes. -/
def NamesFormat (crates : Crates) (t : FileTree) (filePath : Path) (v : CompressedFileVariant) : Prop :=
  ∃ name ext format, Posix.Path.fileName filePath = some name ∧ v.filePath = withExtension filePath name ext ∧
    extensionOf v.encoding = some ext ∧ formatOf ext = some format ∧
    ∀ store opts r, TakesVariant crates t store opts (v.filePath, v.encoding) → handle crates t store opts = .ok r →
      r.resp.headers.getAll .contentEncoding = [Posix.utf8 format.asStr]

structure ServesFormat (crates : Crates) (t : FileTree) (filePath : Path) (elements : List Element)
    (v : CompressedFileVariant) : Prop where
  format : NamesFormat crates t filePath v
  regular : t.metadata v.filePath = .ok v.metadata ∧ v.metadata.isFile = true
  leads : LeadsAsSent elements (hasRegular t filePath) v.encoding

/-- Where there is a variant for a coding that the server reads, it also reads the accepted coding that comes first,
and none overtakes it for which the server finds a file. `deflate` finds the file of `gzip`, and a pipe counts as a
file. -/
def FormatKept (t : FileTree) (filePath : Path) (elements : List Element) : Prop :=
  (∃ e ∈ elements, ∃ c, e.readCoding = some c ∧ hasVariant t filePath c = true) →
    ∃ c, LeadsAsSent elements (hasRegular t filePath) c ∧ ∃ b ∈ elements, b.readCoding = some c ∧
      ∀ e ∈ elements, ∀ c', e.readCoding = some c' → hasVariant t filePath c' = true →
        Ranks b.readQ c e.readQ c'

/-! ## The search -/

theorem compExt_of_extensionOf {c : ContentCoding} {ext : Octets} (h : extensionOf c = some ext) :
    compExt c = some ext := by
  cases c with
  | gzip | brotli | zstd => exact h
  | _ => cases h

theorem variantFor_negotiable (t : FileTree) (filePath : Path) (c : ContentCoding)
    (h : (variantFor t filePath c).isSome = true) : c ∈ negotiable := by
  obtain ⟨v, hv⟩ := Option.isSome_iff_exists.mp h
  obtain ⟨_, _, ext, hext, _⟩ := variantFor_eq_some hv
  cases c with
  | compress | identity => cases hext
  | _ => decide

theorem hasRegular_iff {filePath : Path} {c : ContentCoding} : hasRegular t filePath c = true ↔
    ∃ name ext i, Posix.Path.fileName filePath = some name ∧ extensionOf c = some ext ∧
      t.metadata (withExtension filePath name ext) = .ok i ∧ i.isFile = true := by
  simp only [hasRegular, Option.any_eq_true, FileTree.isFile, Checked.toOption_eq_some]
  constructor
  · rintro ⟨name, hname, ext, hext, i, hi⟩
    exact ⟨name, ext, i, hname, hext, hi⟩
  · rintro ⟨name, ext, i, hname, hext, hi⟩
    exact ⟨name, hname, ext, hext, i, hi⟩

theorem isDir_of_isFile {i : Inode} (h : i.isFile = true) : i.isDir = false := by
  unfold Inode.isFile at h
  unfold Inode.isDir
  cases hkind : i.kind with
  | dir entries size => simp [hkind] at h
  | _ => rfl

/-- A regular file is found by the search, once the name of the file is text. -/
theorem hasVariant_of_hasRegular {filePath : Path} {c c' : ContentCoding} {v : CompressedFileVariant}
    (hv : variantFor t filePath c' = some v) (h : hasRegular t filePath c = true) : hasVariant t filePath c = true := by
  obtain ⟨name, ext, i, hname, hext, hi, hfile⟩ := hasRegular_iff.mp h
  have htext : (Posix.Path.fileName filePath).filter Utf8.valid = some name := by
    simp only [variantFor, Option.bind_eq_bind, Option.bind_eq_some_iff] at hv
    obtain ⟨_, _, name', hname', _⟩ := hv
    have hsame := (Option.filter_eq_some_iff.mp hname').1
    rw [hname] at hsame
    cases hsame
    exact hname'
  have hpath : Posix.Path.setFileName filePath (name ++ Posix.dot :: ext) = withExtension filePath name ext := by
    conv_lhs => rw [Posix.Path.eq_pop_append_of_fileName hname]
    rw [Posix.Path.setFileName_append_normal, withExtension]
  have hmeta : tryMetadata t (withExtension filePath name ext) = .ok (i, false) :=
    tryMetadata_eq_ok.mpr ⟨hi, isDir_of_isFile hfile⟩
  simp [hasVariant, variantFor, compExt_of_extensionOf hext, htext, hpath, hmeta]

/-! ## The reply -/

theorem variantReply_contentEncoding {opts : HandleOpts} {m : FileMetadata} {variantPath : Path}
    {encoding : ContentCoding} {resp : Response Body} (h : variantReply crates t opts m variantPath encoding = .ok resp) :
    resp.headers.getAll .contentEncoding = [Posix.utf8 encoding.asStr] := by
  have hvalue : HeaderValue.fromStr encoding.asStr = some (Posix.utf8 encoding.asStr) := by
    cases encoding <;> decide
  obtain ⟨r, _, h⟩ := Checked.bind_eq_ok.mp h
  rw [hvalue] at h
  cases h
  rw [Response.insertHeader_getAll, if_pos rfl]

theorem TakesVariant.contentEncoding {store : Store} {opts : HandleOpts} {variantPath : Path}
    {encoding : ContentCoding} {r : StaticFileResponse} (h : TakesVariant crates t store opts (variantPath, encoding))
    (hr : handle crates t store opts = .ok r) :
    r.resp.headers.getAll .contentEncoding = [Posix.utf8 encoding.asStr] := by
  obtain ⟨m, hm, hvariant, hred, hmethod, hlist⟩ := h.found
  by_cases hallowed : isAllowed opts.method = true
  · have hlist' : ¬ (m.isDir && opts.dirListing && !t.exists m.filePath) = true := by
      simpa [showsListing] using hlist
    rw [handle_eq hallowed, h.uncached] at hr
    simp only [handleFile, hm] at hr
    split at hr
    · cases hr
    · cases hresp : respond crates t opts m with
      | error e =>
          rw [hresp] at hr
          cases hr
      | ok resp =>
          rw [hresp] at hr
          cases hr
          unfold respond at hresp
          rw [hred, if_neg Bool.false_ne_true, if_neg hmethod, if_neg hlist', hvariant] at hresp
          exact variantReply_contentEncoding hresp
  · unfold handle at hr
    rw [if_pos (by simpa using hallowed)] at hr
    cases hr

theorem namesFormat_iff {filePath : Path} {c : ContentCoding} {v : CompressedFileVariant}
    (hv : variantFor t filePath c = some v) : NamesFormat crates t filePath v ↔ v.encoding ≠ .deflate := by
  obtain ⟨rfl, name, ext, hext, hname, hpath, _⟩ := variantFor_eq_some hv
  constructor
  · rintro ⟨_, ext', _, _, _, hext', _⟩ hdeflate
    rw [hdeflate] at hext'
    cases hext'
  · intro hne
    have hext' : extensionOf v.encoding = some ext := by
      cases hencoding : v.encoding with
      | deflate => exact absurd hencoding hne
      | _ =>
          rw [hencoding] at hext
          exact hext
    exact ⟨name, ext, v.encoding, hname, hpath, hext', formatOf_extensionOf hext', fun _ _ _ h hr => h.contentEncoding hr⟩

theorem ServesFormat.of_leads {filePath : Path} {elements : List Element} {c : ContentCoding}
    {v : CompressedFileVariant} (hv : variantFor t filePath c = some v)
    (hleads : LeadsAsSent elements (hasRegular t filePath) c) : ServesFormat crates t filePath elements v := by
  obtain ⟨name, ext, i, hname, hext, hi, hfile⟩ := hasRegular_iff.mp hleads.1
  obtain ⟨hencoding, name', ext', hext', hname', hpath, hmeta, _⟩ := variantFor_eq_some hv
  rw [hname] at hname'
  rw [compExt_of_extensionOf hext] at hext'
  cases hname'
  cases hext'
  refine ⟨(namesFormat_iff hv).mpr fun hdeflate => ?_, ⟨hmeta, ?_⟩, hencoding ▸ hleads⟩
  · rw [← hencoding, hdeflate] at hext
    cases hext
  · have hsame := hmeta.symm.trans ((congrArg t.metadata hpath).trans hi)
    cases hsame
    exact hfile

/-- Whatever the field consists of, `deflate` alone is misnamed. A client gets the file that it asks for exactly where
no file comes first that it refuses, cannot decode or cannot read. -/
theorem servesFormat_iff (laws : ReadsQvalues crates) (h : SendsLines headers lines) (t : FileTree) (filePath : Path) :
    (∀ headers v, precompressedVariant crates t filePath headers = some v →
      (NamesFormat crates t filePath v ↔ v.encoding ≠ .deflate)) ∧
    ((∀ v, precompressedVariant crates t filePath headers = some v →
      ServesFormat crates t filePath (elementsOf lines) v) ↔ FormatKept t filePath (elementsOf lines)) := by
  have hpick := variantFor_negotiable t filePath
  refine ⟨fun headers v hsearch => ?_, ?_, ?_⟩
  · obtain ⟨encodings, _, hsome⟩ := Option.bind_eq_some_iff.mp hsearch
    obtain ⟨encoding, _, hv⟩ := List.exists_of_findSome?_eq_some hsome
    exact namesFormat_iff hv
  · rintro hserves ⟨e, he, c, hc, hhas⟩
    cases hsearch : precompressedVariant crates t filePath headers with
    | none => cases hhas.symm.trans ((search_eq_none_iff laws h hpick).mp hsearch e he c hc)
    | some v =>
        obtain ⟨c', hv, hread⟩ := (search_eq_some_iff laws h hpick).mp hsearch
        refine ⟨v.encoding, (hserves v hsearch).leads, ?_⟩
        rw [(variantFor_eq_some hv).1]
        exact hread.2
  · intro hkept v hsearch
    obtain ⟨c, hv, hread⟩ := (search_eq_some_iff laws h hpick).mp hsearch
    obtain ⟨hhas, b, hb, hc, _⟩ := id hread
    obtain ⟨c', hleads, hfirst⟩ := hkept ⟨b, hb, c, hc, hhas⟩
    have hread' : LeadsAsRead (elementsOf lines) (hasVariant t filePath) c' :=
      ⟨hasVariant_of_hasRegular hv hleads.1, hfirst⟩
    have hsame : c' = c := Leads.unique Element.readCoding_negotiable hread' hread
    exact ServesFormat.of_leads hv (hsame ▸ hleads)

def readingCrates : Crates := { sampleCrates with parseF32 := readF32 }

theorem readingCrates_reads : ReadsQvalues readingCrates := ⟨readF32_text⟩

def noSpace : Ows := ⟨[], rfl⟩

def unweighted (name : Str) (token : name ≠ [] ∧ name.all isTokenChar = true) : Element := { name, token, weight := none }

/-- An element with a weight below one. -/
def weighted (name : Str) (token : name ≠ [] ∧ name.all isTokenChar = true) (decimals : List (Fin 10))
    (short : decimals.length ≤ 3) : Element :=
  { name, token
    weight := some ⟨noSpace, noSpace, false, false, some decimals, decide_eq_true short, fun h => by cases h⟩ }

def lineOf (e : Element) (rest : List Element) : Line :=
  { items := (e :: rest).map fun e => ⟨noSpace, some e, noSpace⟩, nonempty := List.cons_ne_nil _ _ }

theorem isToken_gzip : "gzip".toList ≠ [] ∧ "gzip".toList.all isTokenChar = true := by decide

theorem isToken_br : "br".toList ≠ [] ∧ "br".toList.all isTokenChar = true := by decide

/-- `gzip;q=0` -/
def gzipRefused : Line := lineOf (weighted "gzip".toList isToken_gzip [0] (by decide)) []

def deflateOnly : Line := lineOf (unweighted "deflate".toList (by decide)) []

def brotliOnly : Line := lineOf (unweighted "br".toList isToken_br) []

def acceptLine (line : Line) : HeaderMap := [(.acceptEncoding, line.value)]

theorem acceptLine_sends (line : Line) : SendsLines (acceptLine line) [line] := by
  unfold SendsLines
  rfl

/-- In `/srv`, `a.html` has a variant in gzip, and the one of `b.html` in Brotli is a pipe. -/
def compressedTree : FileTree :=
  { nodes :=
      [ ([], sampleDir [named "srv"]),
        ([named "srv"], sampleDir [named "a.html", named "a.html.gz", named "b.html", named "b.html.br"]),
        ([named "srv", named "a.html"], sampleFile (named "hello")),
        ([named "srv", named "a.html.gz"], sampleFile (named "gz")),
        ([named "srv", named "b.html"], sampleFile (named "hello")),
        ([named "srv", named "b.html.br"], ⟨.special, 0, 4096⟩) ]
    cwd := [], symloopMax := 40, wf := by decide }

def pageA : Path := Posix.canonPath [named "srv", named "a.html"]
def pageB : Path := Posix.canonPath [named "srv", named "b.html"]

/-- The bytes of a gzip file are sent as `deflate`. A refused file is sent as well, and a pipe. -/
theorem sends_gzip_as_deflate :
    ((handle readingCrates compressedTree [] { sampleOpts "/a.html" with
      headers := acceptLine deflateOnly, compressionStatic := true }).toOption.map fun r =>
        (r.resp.headers.getAll .contentEncoding, r.resp.body.bytes)) =
      some ([named "deflate"], some (named "gz")) ∧
    ¬ (∀ v, precompressedVariant readingCrates compressedTree pageA (acceptLine deflateOnly) = some v →
      ServesFormat readingCrates compressedTree pageA (elementsOf [deflateOnly]) v) ∧
    ¬ (∀ v, precompressedVariant readingCrates compressedTree pageA (acceptLine gzipRefused) = some v →
      ServesFormat readingCrates compressedTree pageA (elementsOf [gzipRefused]) v) ∧
    ¬ (∀ v, precompressedVariant readingCrates compressedTree pageB (acceptLine brotliOnly) = some v →
      ServesFormat readingCrates compressedTree pageB (elementsOf [brotliOnly]) v) := by
  refine ⟨by decide +kernel, fun h => ?_, fun h => ?_, fun h => ?_⟩
  · have hv : precompressedVariant readingCrates compressedTree pageA (acceptLine deflateOnly) =
        some ⟨Posix.canonPath [named "srv", named "a.html.gz"], sampleFile (named "gz"), .deflate⟩ := by decide +kernel
    obtain ⟨_, _, _, _, _, hext, _⟩ := (h _ hv).format
    cases hext
  · have hv : precompressedVariant readingCrates compressedTree pageA (acceptLine gzipRefused) =
        some ⟨Posix.canonPath [named "srv", named "a.html.gz"], sampleFile (named "gz"), .gzip⟩ := by decide +kernel
    obtain ⟨e, he, hc⟩ := (h _ hv).leads.accepted
    have hall : ∀ e ∈ elementsOf [gzipRefused], ¬ 0 < e.q := by decide
    exact hall e he (Element.acceptedCoding_eq_some.mp hc).1
  · have hv : precompressedVariant readingCrates compressedTree pageB (acceptLine brotliOnly) =
        some ⟨Posix.canonPath [named "srv", named "b.html.br"], ⟨.special, 0, 4096⟩, .brotli⟩ := by decide +kernel
    cases (h _ hv).regular.2

theorem servesFormat_iff_refused :
    (∀ headers v, precompressedVariant readingCrates compressedTree pageA headers = some v →
      (NamesFormat readingCrates compressedTree pageA v ↔ v.encoding ≠ .deflate)) ∧
    ((∀ v, precompressedVariant readingCrates compressedTree pageA (acceptLine gzipRefused) = some v →
      ServesFormat readingCrates compressedTree pageA (elementsOf [gzipRefused]) v) ↔
        FormatKept compressedTree pageA (elementsOf [gzipRefused])) :=
  servesFormat_iff readingCrates_reads (acceptLine_sends gzipRefused) compressedTree pageA

end WeaveGate.Static
