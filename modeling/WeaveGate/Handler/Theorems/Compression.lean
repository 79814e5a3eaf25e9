import WeaveGate.Handler.Lemmas.PostProcess
import WeaveGate.Handler.Theorems

/-!
# Compression

What the compression does to a response that reaches it. It asks for the method, for the codings the client
accepts and for the media type, and not for what the body is.
-/

namespace WeaveGate.Handler

open Http Settings
open Posix (Octets)
open Static (Body ContentCoding)

variable {crates : Crates} {opts : RequestHandlerOpts} {req : Request Body} {resp : Response Body}
  {decode : ContentCoding → Octets → Option Octets}

/-! ## Faithful compression -/

/-- The statuses of responses that carry no representation if their body is empty. -/
def bareStatuses : List StatusCode :=
  [.noContent, .notModified, .permanentRedirect, .preconditionFailed, .rangeNotSatisfiable]

structure Complete (resp : Response Body) : Prop where
  contentRange : resp.headers.getAll .contentRange = []
  notPartial : resp.status ≠ .partialContent
  representation : resp.status ∈ bareStatuses → resp.body.bytes ≠ some []

/-- Decoding what was encoded gives the same bytes, as far as they can be read. -/
def Decodes (decode : ContentCoding → Octets → Option Octets) (coding : ContentCoding) (body body' : Body) : Prop :=
  ∀ content, body.bytes = some content → body'.bytes.bind (decode coding) = some content

/-- What the encoders do: each can be undone. -/
def Lossless (crates : Crates) (decode : ContentCoding → Octets → Option Octets) : Prop :=
  ∀ coding ∈ availableEncodings, ∀ level body, Decodes decode coding body (crates.encode coding level body)

/-- A part of a file in no coding, as long as its `Content-Range` says. -/
def PlainPart (resp : Response Body) : Prop :=
  ∀ first last len, Static.contentRangeBytes first (last + 1) len ∈ resp.headers.getAll .contentRange →
    resp.headers.getAll .contentEncoding = [] ∧ ∃ content, resp.body.bytes = some content ∧
      content.length = last + 1 - first

/-- The coding of a response is new. -/
def Encoded (resp out : Response Body) : Prop :=
  resp.headers.getAll .contentEncoding = [] ∧ out.headers.getAll .contentEncoding ≠ []

structure EncodesWhole (decode : ContentCoding → Octets → Option Octets) (method : Method)
    (resp out : Response Body) : Prop where
  complete : Complete resp
  method : method ≠ .head ∧ method ≠ .options
  contentLength : out.headers.getAll .contentLength = []
  decodes : ∃ coding, out.headers.getAll .contentEncoding = [Posix.utf8 coding.asStr] ∧
    Decodes decode coding resp.body out.body

structure SameButVary (resp out : Response Body) : Prop where
  status : out.status = resp.status
  body : out.body = resp.body
  headers : ∀ name, name ≠ HeaderName.vary → out.headers.getAll name = resp.headers.getAll name

/-! ## The stages around the compression -/

def beforeCompression (crates : Crates) (opts : RequestHandlerOpts) (req : Request Body) (isMarkdown : Bool)
    (resp : Response Body) : Response Body :=
  compressionStaticPostProcess opts <| textCharsetPostProcess crates opts <|
    markdownPostProcess isMarkdown opts <| corsPostProcess opts req <| fallbackPostProcess opts req resp

def afterCompression (crates : Crates) (opts : RequestHandlerOpts) (req : Request Body)
    (filePath : Option Posix.Path) (resp : Response Body) : Response Body :=
  customHeadersPostProcess crates opts req
    (securityHeadersPostProcess opts (controlHeadersPostProcess opts req resp)) filePath

theorem postProcess_eq (isMarkdown : Bool) (filePath : Option Posix.Path) (resp : Response Body) :
    postProcess crates opts req isMarkdown filePath resp = afterCompression crates opts req filePath
      (compressionPostProcess crates opts req (beforeCompression crates opts req isMarkdown resp)) := rfl

/-- A response that is encoded is a complete representation, and can be decoded. Any other stays as it is. So a
part of a file leaves the stages as the part it was. -/
structure CompressesFaithfully (crates : Crates) (decode : ContentCoding → Octets → Option Octets)
    (opts : RequestHandlerOpts) (req : Request Body) (resp : Response Body) : Prop where
  encoded : Encoded resp (compressionPostProcess crates opts req resp) →
    EncodesWhole decode req.method resp (compressionPostProcess crates opts req resp)
  untouched : ¬ Encoded resp (compressionPostProcess crates opts req resp) →
    SameButVary resp (compressionPostProcess crates opts req resp)
  parts : PlainPart resp → PlainPart (compressionPostProcess crates opts req resp)
  leaves : CustomDescribesNoPart opts → ∀ isMarkdown filePath served,
    beforeCompression crates opts req isMarkdown served = resp → PlainPart served →
      PlainPart (postProcess crates opts req isMarkdown filePath served)

/-! ## When it is faithful -/

/-- The client accepts a coding, and the media type of the response, if it has one, can be compressed. -/
structure Fires (crates : Crates) (req : Request Body) (resp : Response Body) : Prop where
  uncoded : resp.headers.getAll .contentEncoding = []
  method : req.method ≠ .head ∧ req.method ≠ .options
  accepted : (getPreferredEncoding crates req.headers).isSome
  compressible : ∀ m, ((resp.headers.get? .contentType).bind HeaderValue.toStr).bind crates.parseMime = some m →
    m.isCompressible = true

theorem sameButVary_varyAcceptEncoding (once : Bool) (resp : Response Body) :
    SameButVary resp (varyAcceptEncoding once resp) where
  status := rfl
  body := rfl
  headers _ hname := Multimap.getAll_insert_of_ne (Ne.symm hname)

theorem SameButVary.get?_eq {out : Response Body} (h : SameButVary resp out) {name : HeaderName}
    (hname : name ≠ HeaderName.vary) : out.headers.get? name = resp.headers.get? name :=
  congrArg List.head? (h.headers name hname)

theorem SameButVary.same {out : Response Body} (h : SameButVary resp out) : SameRepresentation resp out :=
  ⟨h.status, h.body, h.headers _ (by decide), h.headers _ (by decide)⟩

theorem get?_isSome_iff (headers : HeaderMap) (name : HeaderName) :
    (headers.get? name).isSome = true ↔ headers.getAll name ≠ [] := by
  rw [Multimap.get?, List.isSome_head?]

theorem getPreferredEncoding_available {headers : HeaderMap} {coding : ContentCoding}
    (h : getPreferredEncoding crates headers = some coding) : coding ∈ availableEncodings := by
  obtain ⟨encodings, -, hfind⟩ := Option.bind_eq_some_iff.mp h
  simpa using List.find?_some hfind

theorem compressionPostProcess_of_fires (hon : opts.compression = true) (h : Fires crates req resp) :
    ∃ coding ∈ availableEncodings, compressionPostProcess crates opts req resp =
      compress crates opts.compressionLevel coding (varyAcceptEncoding true resp) := by
  obtain ⟨coding, hcoding⟩ := Option.isSome_iff_exists.mp h.accepted
  refine ⟨coding, getPreferredEncoding_available hcoding, ?_⟩
  have hplain : (resp.headers.get? .contentEncoding).isSome = false := by
    rw [Bool.eq_false_iff, Ne, get?_isSome_iff, h.uncoded]
    simp
  have hmime : (((varyAcceptEncoding true resp).headers.get? .contentType).bind HeaderValue.toStr).bind
      crates.parseMime = ((resp.headers.get? .contentType).bind HeaderValue.toStr).bind crates.parseMime := by
    rw [(sameButVary_varyAcceptEncoding true resp).get?_eq (by decide)]
  unfold compressionPostProcess auto
  rw [hon, hplain, hcoding, hmime]
  have hfits : ¬ (((resp.headers.get? .contentType).bind HeaderValue.toStr).bind crates.parseMime).any
      (fun m => !m.isCompressible) = true := by
    cases hm : ((resp.headers.get? .contentType).bind HeaderValue.toStr).bind crates.parseMime with
    | none => simp
    | some m => simp [h.compressible m hm]
  simp [h.method, hfits]

theorem compressionPostProcess_of_not_fires (h : ¬ Fires crates req resp) :
    SameButVary resp (compressionPostProcess crates opts req resp) := by
  have hvary := sameButVary_varyAcceptEncoding true resp
  have hsame : SameButVary resp resp := ⟨rfl, rfl, fun _ _ => rfl⟩
  unfold compressionPostProcess
  split
  · exact hsame
  split
  · exact hsame
  next hplain =>
    unfold auto
    split
    · exact hvary
    next hmethod =>
      split
      · exact hvary
      next coding hcoding =>
        simp only
        split
        · exact hvary
        next hfits =>
          refine absurd ⟨?_, not_or.mp hmethod, by simp [hcoding], fun m hm => ?_⟩ h
          · rw [get?_isSome_iff, not_not] at hplain
            exact hplain
          · rw [hvary.get?_eq (by decide), hm] at hfits
            simpa using hfits

theorem compress_contentEncoding (level : CompressionLevel) (coding : ContentCoding)
    (hplain : resp.headers.getAll .contentEncoding = []) :
    (compress crates level coding resp).headers.getAll .contentEncoding = [Posix.utf8 coding.asStr] := by
  have hexisting : resp.headers.get? .contentEncoding = none := by rw [Multimap.get?, hplain, List.head?_nil]
  simp only [compress, hexisting, createEncodingHeader, Option.bind_none, Response.insertHeader_getAll, if_true]

theorem compress_contentLength (level : CompressionLevel) (coding : ContentCoding) :
    (compress crates level coding resp).headers.getAll .contentLength = [] := by
  have hne : HeaderName.contentEncoding ≠ HeaderName.contentLength := by decide
  simp only [compress, Response.insertHeader_getAll, hne, if_false, Response.removeHeader, Multimap.getAll_remove,
    if_true]

/-- What the compression changes is described by no other field: the part is the one that it was. -/
theorem compress_contentRange (level : CompressionLevel) (coding : ContentCoding) :
    (compress crates level coding resp).headers.getAll .contentRange = resp.headers.getAll .contentRange := by
  have hencoding : HeaderName.contentEncoding ≠ HeaderName.contentRange := by decide
  have hlength : HeaderName.contentLength ≠ HeaderName.contentRange := by decide
  simp only [compress, Response.insertHeader_getAll, hencoding, if_false, Response.removeHeader,
    Multimap.getAll_remove, hlength]

theorem PlainPart.of_same {out : Response Body} (h : SameRepresentation resp out) (hpart : PlainPart resp) :
    PlainPart out := by
  intro first last len hrange
  rw [h.contentRange] at hrange
  rw [h.contentEncoding, h.body]
  exact hpart first last len hrange

theorem PlainPart.of_whole {out : Response Body} (h : out.headers.getAll .contentRange = []) : PlainPart out := by
  intro first last len hrange
  rw [h] at hrange
  exact absurd hrange List.not_mem_nil

theorem fallbackPostProcess_plainPart (opts : RequestHandlerOpts) (req : Request Body) (h : PlainPart resp) :
    PlainPart (fallbackPostProcess opts req resp) := by
  unfold fallbackPostProcess
  split
  · exact .of_whole rfl
  · exact h

theorem beforeCompression_changes (isMarkdown : Bool) (resp : Response Body) :
    ChangesOnly (corsFields ++ [.contentType] ++ [.contentType] ++ [.vary]) (fallbackPostProcess opts req resp)
      (beforeCompression crates opts req isMarkdown resp) :=
  (((corsPostProcess_changes opts req _).trans (markdownPostProcess_changes isMarkdown opts _)).trans
    (textCharsetPostProcess_changes crates opts _)).trans (compressionStaticPostProcess_changes opts _)

theorem beforeCompression_plainPart (isMarkdown : Bool) (h : PlainPart resp) :
    PlainPart (beforeCompression crates opts req isMarkdown resp) :=
  (fallbackPostProcess_plainPart opts req h).of_same ((beforeCompression_changes isMarkdown resp).same (by decide))

theorem afterCompression_same (hcustom : CustomDescribesNoPart opts) (filePath : Option Posix.Path)
    (resp : Response Body) : SameRepresentation resp (afterCompression crates opts req filePath resp) := by
  have hown : ∀ name ∈ [HeaderName.cacheControl] ++ securityHeaders.map Prod.fst, DescribesNoPart name := by decide
  exact (((controlHeadersPostProcess_changes opts req resp).trans (securityHeadersPostProcess_changes opts _)).trans
    (customHeadersPostProcess_changes filePath _)).same fun name hname =>
      (List.mem_append.mp hname).elim (hown name) (hcustom.names name)

/-- A part is only encoded when it is taken for a complete representation. -/
theorem compressionPostProcess_plainPart (hon : opts.compression = true)
    (h : Fires crates req resp → Complete resp) (hpart : PlainPart resp) :
    PlainPart (compressionPostProcess crates opts req resp) := by
  by_cases hfires : Fires crates req resp
  · obtain ⟨coding, -, hout⟩ := compressionPostProcess_of_fires hon hfires
    refine .of_whole ?_
    rw [hout, compress_contentRange, (sameButVary_varyAcceptEncoding true resp).same.contentRange]
    exact (h hfires).contentRange
  · exact hpart.of_same (compressionPostProcess_of_not_fires hfires).same

theorem encoded_iff_fires (hon : opts.compression = true) :
    Encoded resp (compressionPostProcess crates opts req resp) ↔ Fires crates req resp := by
  constructor
  · intro hencoded
    by_contra hfires
    have hsame : SameButVary resp (compressionPostProcess crates opts req resp) :=
      compressionPostProcess_of_not_fires hfires
    exact hencoded.2 (hsame.same.contentEncoding.trans hencoded.1)
  · intro hfires
    obtain ⟨coding, -, hout⟩ := compressionPostProcess_of_fires hon hfires
    refine ⟨hfires.uncoded, ?_⟩
    have hplain := (sameButVary_varyAcceptEncoding true resp).same.contentEncoding.trans hfires.uncoded
    rw [hout, compress_contentEncoding _ coding hplain]
    exact List.cons_ne_nil _ _

theorem encodesWhole_of_fires (hdecode : Lossless crates decode) (hon : opts.compression = true)
    (hfires : Fires crates req resp) (hcomplete : Complete resp) :
    EncodesWhole decode req.method resp (compressionPostProcess crates opts req resp) := by
  obtain ⟨coding, havailable, hout⟩ := compressionPostProcess_of_fires hon hfires
  have hplain := (sameButVary_varyAcceptEncoding true resp).same.contentEncoding.trans hfires.uncoded
  rw [hout]
  exact ⟨hcomplete, hfires.method, compress_contentLength _ coding,
    coding, compress_contentEncoding _ coding hplain, hdecode coding havailable _ resp.body⟩

theorem compressesFaithfully_iff (hdecode : Lossless crates decode) (hon : opts.compression = true) :
    CompressesFaithfully crates decode opts req resp ↔ (Fires crates req resp → Complete resp) := by
  constructor
  · intro h hfires
    exact (h.encoded ((encoded_iff_fires hon).mpr hfires)).complete
  · intro hcomplete
    have hparts := compressionPostProcess_plainPart hon hcomplete
    refine ⟨fun hencoded => ?_, fun huntouched => ?_, hparts, ?_⟩
    · have hfires := (encoded_iff_fires hon).mp hencoded
      exact encodesWhole_of_fires hdecode hon hfires (hcomplete hfires)
    · exact compressionPostProcess_of_not_fires fun hfires => huntouched ((encoded_iff_fires hon).mpr hfires)
    · intro hcustom isMarkdown filePath served hserved hpart
      rw [postProcess_eq, hserved]
      have hreached := hserved ▸ beforeCompression_plainPart isMarkdown hpart
      exact (hparts hreached).of_same (afterCompression_same hcustom filePath _)

/-! ## A part of a page -/

/-- Zstandard frames of one block that is stored as it is. -/
def storedFrame (content : Octets) : Octets :=
  [0x28, 0xB5, 0x2F, 0xFD, 0x00, 0x58, UInt8.ofNat (8 * content.length + 1), UInt8.ofNat (content.length / 32),
    UInt8.ofNat (content.length / 8192)] ++ content

def storingCrates : Crates :=
  { sampleCrates with
    encode := fun _ _ body => body.bytes.elim body (.full ∘ storedFrame)
    parseMime := fun text =>
      if text = "text/html".toList then some ⟨"text".toList, "text/html".toList, none, none⟩ else none }

theorem storingCrates_lossless : Lossless storingCrates fun _ coded => some (coded.drop 9) := by
  intro coding _ level body content hcontent
  have hencode : storingCrates.encode coding level body = .full (storedFrame content) := by
    simp only [storingCrates, hcontent, Option.elim_some, Function.comp_apply]
  rw [hencode]
  rfl

/-- A request for `/page.html` that accepts Zstandard. -/
def zstdRequest : Request Body :=
  { sampleRequest .get with
    headers := [(.acceptEncoding, Static.named "zstd"), (.range, Static.named "bytes=0-1")] }

def samplePage : Body := .full (Static.named "page")

/-- The reply to a request for the first two bytes of a page of four. -/
def firstBytes : Response Body :=
  Static.rangedResponse Static.sampleCrates (some [(some 0, some 1)]) 4 (Static.named "text/html") none
    fun start len => .full (((Static.named "page").drop start).take len)

/-- A part of a page is encoded, and leaves as the range that it was before. -/
theorem encodes_part :
    (compressionPostProcess storingCrates sampleOpts zstdRequest firstBytes).headers.getAll .contentRange =
      [Static.named "bytes 0-1/4"] ∧
    (compressionPostProcess storingCrates sampleOpts zstdRequest firstBytes).headers.getAll .contentEncoding =
      [Static.named "zstd"] ∧
    ¬ CompressesFaithfully storingCrates (fun _ coded => some (coded.drop 9)) sampleOpts zstdRequest firstBytes := by
  have hcoding : (compressionPostProcess storingCrates sampleOpts zstdRequest firstBytes).headers.getAll
      .contentEncoding = [Static.named "zstd"] := by decide
  refine ⟨by decide, hcoding, fun h => ?_⟩
  have hencoded : Encoded firstBytes (compressionPostProcess storingCrates sampleOpts zstdRequest firstBytes) :=
    ⟨by decide, by rw [hcoding]; exact List.cons_ne_nil _ _⟩
  exact (h.encoded hencoded).complete.notPartial rfl

theorem compressesFaithfully_iff_page :
    CompressesFaithfully storingCrates (fun _ coded => some (coded.drop 9)) sampleOpts zstdRequest
      (Response.new samplePage) :=
  (compressesFaithfully_iff storingCrates_lossless rfl).mpr fun _ =>
    ⟨rfl, by decide, by decide⟩

end WeaveGate.Handler
