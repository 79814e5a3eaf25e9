import WeaveGate.Handler.Lemmas.Vary
import WeaveGate.Handler.Theorems.Compression

/-!
# `Vary`

Which names of `Vary` get through the stages behind the files, and through the CORS stage of relayed answers.
-/

namespace WeaveGate.Handler

open Http Settings
open Posix (Octets)
open Static (Body)

variable {crates : Crates} {opts : RequestHandlerOpts} {req : Request Body}

/-! ## Kept names -/

structure VaryKept (cors coding : Bool) (before after : List Octets) : Prop where
  kept : ∀ n ∈ before, n ∈ after
  origin : cors = true → originName ∈ after
  encoding : coding = true → encodingName ∈ after
  once : ∀ n ∈ [originName, encodingName], after.count n ≤ before.count n + 1

/-- The response that the compressions work on. -/
def beforeCoding (crates : Crates) (opts : RequestHandlerOpts) (req : Request Body) (isMarkdown : Bool)
    (resp : Response Body) : Response Body :=
  textCharsetPostProcess crates opts <| markdownPostProcess isMarkdown opts <| corsPostProcess opts req <|
    fallbackPostProcess opts req resp

/-- The names in `Vary` through the stages behind the files: as a whole, and through each stage that sets it. -/
structure KeepsVary (crates : Crates) (opts : RequestHandlerOpts) (req : Request Body) (isMarkdown : Bool)
    (filePath : Option Posix.Path) (resp : Response Body) : Prop where
  final : VaryKept (corsAdds opts req) (codes opts (fallbackPostProcess opts req resp)) (varyNames resp)
    (varyNames (postProcess crates opts req isMarkdown filePath resp))
  cors : ∀ n ∈ varyNames (fallbackPostProcess opts req resp),
    n ∈ varyNames (corsPostProcess opts req (fallbackPostProcess opts req resp))
  compressionStatic : ∀ n ∈ varyNames (beforeCoding crates opts req isMarkdown resp),
    n ∈ varyNames (compressionStaticPostProcess opts (beforeCoding crates opts req isMarkdown resp))
  compression : ∀ n ∈ varyNames (beforeCompression crates opts req isMarkdown resp),
    n ∈ varyNames (compressionPostProcess crates opts req (beforeCompression crates opts req isMarkdown resp))

/-- The names that `accept-encoding` is put behind, with it. -/
def codedNames (opts : RequestHandlerOpts) (resp : Response Body) : List Octets :=
  listNames (Posix.utf8 (varyText resp)) ++ appended (!opts.compressionStatic) (varyText resp)

/-- What the lines list before CORS fields or `accept-encoding` are added, and what the custom field lists. -/
structure VarySafe (crates : Crates) (opts : RequestHandlerOpts) (req : Request Body) (filePath : Option Posix.Path)
    (resp : Response Body) : Prop where
  cors : corsAdds opts req = true → ∀ n ∈ varyNames (fallbackPostProcess opts req resp), n = originName
  coding : corsAdds opts req = false → codes opts (fallbackPostProcess opts req resp) = true →
    ∀ n ∈ varyNames (fallbackPostProcess opts req resp), n ∈ codedNames opts (fallbackPostProcess opts req resp)
  custom : ∀ value, customVary crates opts req filePath = some value →
    VaryKept (corsAdds opts req) (codes opts (fallbackPostProcess opts req resp)) (varyNames resp) (listNames value)
  plain : customVary crates opts req filePath = none →
    (corsAdds opts req = false → codes opts (fallbackPostProcess opts req resp) = true →
      encodingName ∈ codedNames opts (fallbackPostProcess opts req resp)) ∧
    ∀ n ∈ varyNames resp, n ∈ varyNames (fallbackPostProcess opts req resp) ∨
      (corsAdds opts req = true ∧ n = originName) ∨
      (codes opts (fallbackPostProcess opts req resp) = true ∧ n = encodingName)

/-! ## The names behind the stages -/

theorem beforeCoding_line (isMarkdown : Bool) (resp : Response Body) :
    (beforeCoding crates opts req isMarkdown resp).headers.getAll .vary =
      if corsAdds opts req then [originName] else (fallbackPostProcess opts req resp).headers.getAll .vary := by
  rw [← corsPostProcess_vary]
  exact ((textCharsetPostProcess_changes crates opts _).kept _ (by decide)).trans
    ((markdownPostProcess_changes isMarkdown opts _).kept _ (by decide))

theorem beforeCompression_contentEncoding (isMarkdown : Bool) (resp : Response Body) :
    (beforeCompression crates opts req isMarkdown resp).headers.getAll .contentEncoding =
      (fallbackPostProcess opts req resp).headers.getAll .contentEncoding :=
  (beforeCompression_changes isMarkdown resp).kept _ (by decide)

theorem varyText_origin {resp : Response Body} (h : resp.headers.getAll .vary = [originName]) :
    varyText resp = HeaderName.origin := varyText_of_line (by decide) h

theorem varyNames_congr {resp resp' : Response Body} (h : SameField .vary resp resp') : varyNames resp' = varyNames resp :=
  congrArg (·.flatMap listNames) h

theorem varyText_congr {resp resp' : Response Body} (h : SameField .vary resp resp') : varyText resp' = varyText resp := by
  have hline : resp'.headers.getAll .vary = resp.headers.getAll .vary := h
  unfold varyText Multimap.get?
  rw [hline]

theorem compressionPostProcess_vary (req : Request Body) (resp : Response Body) :
    SameField .vary (if opts.compression && resp.headers.getAll .contentEncoding = [] then varyAcceptEncoding true resp else resp)
      (compressionPostProcess crates opts req resp) := by
  unfold compressionPostProcess
  cases opts.compression with
  | false => rfl
  | true =>
      by_cases hplain : resp.headers.getAll .contentEncoding = []
      · have hnone : (resp.headers.get? .contentEncoding).isSome = false := by
          rw [Multimap.get?, hplain]
          rfl
        simp only [Bool.not_true, Bool.false_eq_true, if_false, hnone, Bool.true_and, hplain, decide_true, if_true]
        exact auto_field (by decide) (by decide) _ _ _ _
      · have hsome : (resp.headers.get? .contentEncoding).isSome = true := (get?_isSome_iff _ _).mpr hplain
        simp [hplain, hsome, SameField]

theorem compressionStatic_eq (isMarkdown : Bool) (resp : Response Body) :
    beforeCompression crates opts req isMarkdown resp =
      if opts.compressionStatic then varyAcceptEncoding false (beforeCoding crates opts req isMarkdown resp)
      else beforeCoding crates opts req isMarkdown resp := by
  change compressionStaticPostProcess opts (beforeCoding crates opts req isMarkdown resp) = _
  unfold compressionStaticPostProcess
  cases opts.compressionStatic <;> rfl

/-- The names behind the compressions. -/
theorem compression_names (isMarkdown : Bool) (resp : Response Body) :
    varyNames (compressionPostProcess crates opts req (beforeCompression crates opts req isMarkdown resp)) =
      if codes opts (fallbackPostProcess opts req resp) then codedNames opts (beforeCoding crates opts req isMarkdown resp)
      else varyNames (beforeCoding crates opts req isMarkdown resp) := by
  rw [varyNames_congr (compressionPostProcess_vary req _), beforeCompression_contentEncoding, compressionStatic_eq]
  unfold codes codedNames
  cases opts.compressionStatic with
  | true =>
      rw [if_pos rfl, Bool.true_or, if_pos rfl, Bool.not_true, ← varyNames_varyAcceptEncoding]
      split
      · exact varyNames_twice false _
      · rfl
  | false =>
      rw [if_neg Bool.false_ne_true, Bool.false_or, Bool.not_false, ← varyNames_varyAcceptEncoding]
      split <;> rfl

theorem beforeCoding_names (isMarkdown : Bool) (resp : Response Body) :
    varyNames (beforeCoding crates opts req isMarkdown resp) =
      if corsAdds opts req then [originName] else varyNames (fallbackPostProcess opts req resp) := by
  rw [varyNames, beforeCoding_line]
  split
  · simp
  · rfl

theorem codedNames_of_cors (h : corsAdds opts req = true) (isMarkdown : Bool) (resp : Response Body) :
    codedNames opts (beforeCoding crates opts req isMarkdown resp) = [originName, encodingName] := by
  have hline : (beforeCoding crates opts req isMarkdown resp).headers.getAll .vary = [originName] := by
    rw [beforeCoding_line, if_pos h]
  have hcontains : Text.contains HeaderName.origin HeaderName.acceptEncoding = false := by decide
  have hnames : listNames (Posix.utf8 HeaderName.origin) = [originName] := listNames_origin
  simp [codedNames, varyText_origin hline, hnames, appended, hcontains]

theorem codedNames_of_no_cors (h : corsAdds opts req = false) (isMarkdown : Bool) (resp : Response Body) :
    codedNames opts (beforeCoding crates opts req isMarkdown resp) =
      codedNames opts (fallbackPostProcess opts req resp) := by
  have hsame : SameField .vary (fallbackPostProcess opts req resp) (beforeCoding crates opts req isMarkdown resp) := by
    rw [SameField, beforeCoding_line, h]
    rfl
  rw [codedNames, codedNames, varyText_congr hsame]

/-- The names behind the stages, from those before them and those with `accept-encoding`. -/
def passedNames (cors coding : Bool) (names coded : List Octets) : List Octets :=
  if cors then if coding then [originName, encodingName] else [originName]
  else if coding then coded else names

/-- The names behind all stages but the custom fields. -/
theorem coded_names (isMarkdown : Bool) (resp : Response Body) :
    varyNames (compressionPostProcess crates opts req (beforeCompression crates opts req isMarkdown resp)) =
      passedNames (corsAdds opts req) (codes opts (fallbackPostProcess opts req resp))
        (varyNames (fallbackPostProcess opts req resp)) (codedNames opts (fallbackPostProcess opts req resp)) := by
  rw [compression_names, beforeCoding_names]
  cases hcors : corsAdds opts req with
  | true => rw [codedNames_of_cors hcors]; rfl
  | false => rw [codedNames_of_no_cors hcors]; rfl

theorem postProcess_names (isMarkdown : Bool) (filePath : Option Posix.Path) (resp : Response Body) :
    varyNames (postProcess crates opts req isMarkdown filePath resp) =
      match customVary crates opts req filePath with
      | some value => listNames value
      | none => varyNames (compressionPostProcess crates opts req (beforeCompression crates opts req isMarkdown resp)) := by
  have hsame : SameField .vary _ _ := ((securityHeadersPostProcess_changes opts _).kept _ (by decide)).trans
    ((controlHeadersPostProcess_changes opts req
      (compressionPostProcess crates opts req (beforeCompression crates opts req isMarkdown resp))).kept _ (by decide))
  rw [postProcess_eq, varyNames, afterCompression, customHeadersPostProcess_vary]
  cases customVary crates opts req filePath with
  | some value => simp
  | none => exact varyNames_congr hsame

/-! ## What each stage keeps -/

/-- Both compressions keep the names that the first line lists as text, and no others. -/
theorem compressions_keep_iff (isMarkdown : Bool) (resp : Response Body) :
    ((∀ n ∈ varyNames (beforeCoding crates opts req isMarkdown resp),
        n ∈ varyNames (beforeCompression crates opts req isMarkdown resp)) ∧
      ∀ n ∈ varyNames (beforeCompression crates opts req isMarkdown resp),
        n ∈ varyNames (compressionPostProcess crates opts req (beforeCompression crates opts req isMarkdown resp))) ↔
    (codes opts (fallbackPostProcess opts req resp) = true →
      ∀ n ∈ varyNames (beforeCoding crates opts req isMarkdown resp),
        n ∈ codedNames opts (beforeCoding crates opts req isMarkdown resp)) := by
  rw [compression_names, compressionStatic_eq]
  cases hstatic : opts.compressionStatic with
  | true =>
      have hcodes : codes opts (fallbackPostProcess opts req resp) = true := by simp [codes, hstatic]
      have hnames : varyNames (varyAcceptEncoding false (beforeCoding crates opts req isMarkdown resp)) =
          codedNames opts (beforeCoding crates opts req isMarkdown resp) := by
        rw [varyNames_varyAcceptEncoding, codedNames, hstatic, Bool.not_true]
      rw [if_pos rfl, hcodes, if_pos rfl, hnames]
      exact ⟨fun h _ => h.1, fun h => ⟨h rfl, fun _ hn => hn⟩⟩
  | false =>
      rw [if_neg Bool.false_ne_true]
      cases codes opts (fallbackPostProcess opts req resp) with
      | true => exact ⟨fun h _ => h.2, fun h => ⟨fun _ hn => hn, h rfl⟩⟩
      | false => exact ⟨fun _ h => absurd h Bool.false_ne_true, fun _ => ⟨fun _ hn => hn, fun _ hn => hn⟩⟩

theorem corsPostProcess_names (opts : RequestHandlerOpts) (req : Request Body) (resp : Response Body) :
    varyNames (corsPostProcess opts req resp) = if corsAdds opts req then [originName] else varyNames resp := by
  rw [varyNames, corsPostProcess_vary]
  split
  · simp
  · rfl

theorem corsPostProcess_keeps_iff (opts : RequestHandlerOpts) (req : Request Body) (resp : Response Body) :
    (∀ n ∈ varyNames resp, n ∈ varyNames (corsPostProcess opts req resp)) ↔
      (corsAdds opts req = true → ∀ n ∈ varyNames resp, n = originName) := by
  rw [corsPostProcess_names]
  cases corsAdds opts req with
  | true => simp
  | false => simp

/-- Each of the three stages keeps all names. -/
theorem stages_keep_iff (isMarkdown : Bool) (resp : Response Body) :
    ((∀ n ∈ varyNames (fallbackPostProcess opts req resp),
        n ∈ varyNames (corsPostProcess opts req (fallbackPostProcess opts req resp))) ∧
      (∀ n ∈ varyNames (beforeCoding crates opts req isMarkdown resp),
        n ∈ varyNames (beforeCompression crates opts req isMarkdown resp)) ∧
      ∀ n ∈ varyNames (beforeCompression crates opts req isMarkdown resp),
        n ∈ varyNames (compressionPostProcess crates opts req (beforeCompression crates opts req isMarkdown resp))) ↔
    (corsAdds opts req = true → ∀ n ∈ varyNames (fallbackPostProcess opts req resp), n = originName) ∧
      (corsAdds opts req = false → codes opts (fallbackPostProcess opts req resp) = true →
        ∀ n ∈ varyNames (fallbackPostProcess opts req resp),
          n ∈ codedNames opts (fallbackPostProcess opts req resp)) := by
  rw [corsPostProcess_keeps_iff, compressions_keep_iff, beforeCoding_names]
  refine and_congr_right fun _ => ?_
  cases hcors : corsAdds opts req with
  | true => simp [codedNames_of_cors hcors]
  | false => simp [codedNames_of_no_cors hcors]

/-! ## The final response -/

theorem fallbackPostProcess_sublist (opts : RequestHandlerOpts) (req : Request Body) (resp : Response Body) :
    (varyNames (fallbackPostProcess opts req resp)).Sublist (varyNames resp) := by
  unfold fallbackPostProcess
  split
  · have hnone : varyNames (fallbackResponse opts.pageFallback) = [] := rfl
    rw [hnone]
    exact List.nil_sublist _
  · exact List.Sublist.refl _

theorem count_appended (once : Bool) (text : Str) (n : Octets) :
    (appended once text).count n ≤ if n = encodingName then 1 else 0 := by
  unfold appended
  split
  · simp
  · by_cases h : n = encodingName
    · simp [h]
    · simp [h, Ne.symm h]

theorem count_originName_le (n : Octets) : [originName].count n ≤ 1 :=
  List.nodup_iff_count_le_one.mp (List.nodup_singleton _) n

/-- Each of the two names is added at most once. -/
theorem passedNames_once (opts : RequestHandlerOpts) (req : Request Body) (resp : Response Body) :
    ∀ n ∈ [originName, encodingName],
      (passedNames (corsAdds opts req) (codes opts (fallbackPostProcess opts req resp))
        (varyNames (fallbackPostProcess opts req resp)) (codedNames opts (fallbackPostProcess opts req resp))).count n ≤
          (varyNames resp).count n + 1 := by
  intro n hn
  have hsub := (fallbackPostProcess_sublist opts req resp).count_le n
  have htext := (varyText_sublist (fallbackPostProcess opts req resp)).count_le n
  have hadded := count_appended (!opts.compressionStatic) (varyText (fallbackPostProcess opts req resp)) n
  have hcors : [originName, encodingName].count n ≤ 1 := List.nodup_iff_count_le_one.mp (by decide) n
  have horigin := count_originName_le n
  unfold passedNames
  split
  · split <;> omega
  · split
    · rw [codedNames, List.count_append]
      split at hadded <;> omega
    · omega

/-- Relayed answers get CORS fields unless the protocol is switched. -/
def RelaysVary (w : World) (opts : RequestHandlerOpts) (req : Request Body) (resp : Response Body) : Prop :=
  VaryKept (corsAdds opts req && decide (resp.status ≠ .switchingProtocols)) false (varyNames resp)
    (varyNames (proxyAnswer w opts req (.ok resp)))

theorem passedNames_kept_iff {cors coding : Bool} {before names coded : List Octets}
    (hcors : cors = true → ∀ n ∈ names, n = originName)
    (hcoding : cors = false → coding = true → ∀ n ∈ names, n ∈ coded)
    (hcoded : ∀ n ∈ coded, n ∈ names ∨ n = encodingName)
    (honce : ∀ n ∈ [originName, encodingName], (passedNames cors coding names coded).count n ≤ before.count n + 1) :
    VaryKept cors coding before (passedNames cors coding names coded) ↔
      (cors = false → coding = true → encodingName ∈ coded) ∧
      ∀ n ∈ before, n ∈ names ∨ (cors = true ∧ n = originName) ∨ (coding = true ∧ n = encodingName) := by
  constructor
  · intro h
    refine ⟨fun hoff hon => ?_, fun n hn => ?_⟩
    · have hadded := h.encoding hon
      rwa [passedNames, hoff, hon] at hadded
    · have hkept := h.kept n hn
      unfold passedNames at hkept
      cases cors <;> cases coding
      · exact .inl hkept
      · exact (hcoded n hkept).imp id fun hn => .inr ⟨rfl, hn⟩
      · exact .inr (.inl ⟨rfl, List.mem_singleton.mp hkept⟩)
      · right
        simpa using hkept
  · rintro ⟨hadded, hbefore⟩
    refine ⟨fun n hn => ?_, ?_, ?_, honce⟩
    · unfold passedNames
      cases cors <;> cases coding
      · simpa using hbefore n hn
      · rcases hbefore n hn with hn | hn | hn
        · exact hcoding rfl rfl n hn
        · exact absurd hn.1 Bool.false_ne_true
        · rw [hn.2]
          exact hadded rfl rfl
      · rcases hbefore n hn with hn | hn | hn
        · simp [hcors rfl n hn]
        · simp [hn.2]
        · exact absurd hn.1 Bool.false_ne_true
      · rcases hbefore n hn with hn | hn | hn
        · simp [hcors rfl n hn]
        · simp [hn.2]
        · simp [hn.2]
    · rintro rfl
      cases coding <;> simp [passedNames]
    · rintro rfl
      cases cors with
      | true => simp [passedNames]
      | false => exact hadded rfl rfl

theorem codedNames_mem {resp : Response Body} : ∀ n ∈ codedNames opts resp, n ∈ varyNames resp ∨ n = encodingName := by
  intro n hn
  rcases List.mem_append.mp hn with hn | hn
  · exact .inl ((varyText_sublist _).subset hn)
  · unfold appended at hn
    split at hn
    · cases hn
    · exact .inr (List.mem_singleton.mp hn)

theorem relaysVary_iff (w : World) (opts : RequestHandlerOpts) (req : Request Body) (resp : Response Body) :
    RelaysVary w opts req resp ↔
      (resp.status ≠ .switchingProtocols → corsAdds opts req = true → ∀ n ∈ varyNames resp, n = originName) := by
  have hsame : ∀ before : List Octets, VaryKept false false before before := fun before =>
    ⟨fun _ hn => hn, fun h => absurd h Bool.false_ne_true, fun h => absurd h Bool.false_ne_true,
      fun _ _ => Nat.le_succ _⟩
  unfold RelaysVary proxyAnswer
  by_cases hstatus : resp.status = .switchingProtocols
  · simp [hstatus, hsame]
  · simp only [hstatus, if_false, corsPostProcess_names, ne_eq, not_false_eq_true, decide_true, Bool.and_true, true_implies]
    cases corsAdds opts req with
    | false => simp [hsame]
    | true =>
        have hone : ∀ n ∈ [originName, encodingName], [originName].count n ≤ (varyNames resp).count n + 1 := by
          intro n _
          have horigin := count_originName_le n
          omega
        constructor
        · intro h _ n hn
          simpa using h.kept n hn
        · intro h
          exact ⟨fun n hn => by simp [h rfl n hn], fun _ => by simp, fun h => absurd h Bool.false_ne_true, hone⟩

/-- The names in `Vary` arrive exactly where CORS fields are added to no other name, `accept-encoding` only to names on
a first line of text, and no custom field lists less. -/
theorem keepsVary_iff (crates : Crates) (w : World) (opts : RequestHandlerOpts) (req : Request Body) :
    (∀ isMarkdown filePath resp, KeepsVary crates opts req isMarkdown filePath resp ↔
      VarySafe crates opts req filePath resp) ∧
    ∀ resp, RelaysVary w opts req resp ↔
      (resp.status ≠ .switchingProtocols → corsAdds opts req = true → ∀ n ∈ varyNames resp, n = originName) := by
  refine ⟨fun isMarkdown filePath resp => ⟨fun h => ?_, fun h => ?_⟩, relaysVary_iff w opts req⟩
  · obtain ⟨hcors, hcoding⟩ := (stages_keep_iff isMarkdown resp).mp ⟨h.cors, h.compressionStatic, h.compression⟩
    have hfinal := h.final
    rw [postProcess_names] at hfinal
    refine ⟨hcors, hcoding, fun value hvalue => ?_, fun hnone => ?_⟩
    · rwa [hvalue] at hfinal
    · rw [hnone, coded_names] at hfinal
      exact (passedNames_kept_iff hcors hcoding codedNames_mem (passedNames_once opts req resp)).mp hfinal
  · obtain ⟨hkeptCors, hkeptStatic, hkeptCompression⟩ := (stages_keep_iff isMarkdown resp).mpr ⟨h.cors, h.coding⟩
    refine ⟨?_, hkeptCors, hkeptStatic, hkeptCompression⟩
    rw [postProcess_names]
    cases hcustom : customVary crates opts req filePath with
    | some value => exact h.custom value hcustom
    | none =>
        rw [coded_names]
        exact (passedNames_kept_iff h.cors h.coding codedNames_mem (passedNames_once opts req resp)).mpr
          (h.plain hcustom)

/-! ## A lost name -/

def anyOrigin : Configured :=
  { cors := { allowedHeaders := [], exposedHeaders := [], maxAge := none, allowedMethods := [.get], origins := none }
    allowedHeaders := [], exposedHeaders := [], methodsHeader := HeaderValue.fromStatic "GET" }

def varyingResponse (lines : List String) : Response Body :=
  { Response.new Body.empty with headers := lines.map fun line => (.vary, Static.named line) }

def corsOpts : RequestHandlerOpts :=
  { sampleOpts with cors := some anyOrigin, proxyClient := some fun _ => .ok (varyingResponse ["accept-encoding"]) }

def corsRequest : Request Body :=
  { sampleRequest .get with headers := [(.origin, Static.named "https://example.org")] }

/-- CORS fields replace the names of the upstream. The compressions read the first line only, and a part of a name. -/
theorem drops_vary :
    (handle sampleCrates sampleWorld corsOpts none corsRequest).result.toOption.map varyNames = some [originName] ∧
    ¬ RelaysVary sampleWorld corsOpts corsRequest (varyingResponse ["accept-encoding"]) ∧
    ¬ KeepsVary sampleCrates sampleOpts (sampleRequest .get) false none (varyingResponse ["accept", "cookie"]) ∧
    ¬ KeepsVary sampleCrates sampleOpts (sampleRequest .get) false none (varyingResponse ["x-accept-encoding"]) := by
  refine ⟨by decide +kernel, fun h => ?_, fun h => ?_, fun h => ?_⟩
  · have hkept := h.kept encodingName
    revert hkept
    decide +kernel
  · have hkept := h.final.kept (Static.named "cookie")
    revert hkept
    decide +kernel
  · have hadded := h.final.encoding
    revert hadded
    decide +kernel

end WeaveGate.Handler
