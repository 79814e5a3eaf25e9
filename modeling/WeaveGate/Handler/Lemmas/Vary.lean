import WeaveGate.Handler.Lemmas.PostProcess

/-!
# Fields behind the stages

What each stage makes of the field lines of `Vary`, as the names that they list, and which other fields it sets.
-/

namespace WeaveGate.Handler

open Http Settings
open Posix (Octets)
open Static (Body)

variable {crates : Crates} {opts : RequestHandlerOpts} {req : Request Body}

/-! ## Lists of names -/

def comma : UInt8 := 44

def isOwsByte (b : UInt8) : Bool := b = 32 || b = 9

def lowerByte (b : UInt8) : UInt8 := if 65 ≤ b ∧ b ≤ 90 then b + 32 else b

def trimOws (v : Octets) : Octets := (v.dropWhile isOwsByte).rdropWhile isOwsByte

/-- The elements of a field line in lower case, without the empty ones. -/
def listNames (value : HeaderValue) : List Octets :=
  ((value.splitOn comma).map fun element => (trimOws element).map lowerByte).filter (· ≠ [])

def varyNames (resp : Response Body) : List Octets := (resp.headers.getAll .vary).flatMap listNames

def originName : Octets := Posix.utf8 HeaderName.origin

def encodingName : Octets := Posix.utf8 HeaderName.acceptEncoding

theorem listNames_append (a b : HeaderValue) : listNames (a ++ comma :: b) = listNames a ++ listNames b := by
  unfold listNames
  rw [List.splitOn_append_cons_self, List.map_append, List.filter_append]

@[simp] theorem listNames_nil : listNames [] = [] := by decide

@[simp] theorem listNames_origin : listNames originName = [originName] := by decide

@[simp] theorem listNames_encoding : listNames encodingName = [encodingName] := by decide

/-! ## The first line as text -/

/-- The text that the stages read: that of the first line, none of it when the line is not ASCII. -/
def varyText (resp : Response Body) : Str := ((resp.headers.get? .vary).bind HeaderValue.toStr).getD []

theorem varyText_printable (resp : Response Body) : (varyText resp).all HeaderValue.isPrintable = true := by
  unfold varyText
  cases htext : (resp.headers.get? .vary).bind HeaderValue.toStr with
  | none => rfl
  | some text =>
      obtain ⟨v, _, hv⟩ := Option.bind_eq_some_iff.mp htext
      exact (HeaderValue.toStr_printable hv).1

/-- The names of the text are the first ones of all. -/
theorem varyText_sublist (resp : Response Body) :
    (listNames (Posix.utf8 (varyText resp))).Sublist (varyNames resp) := by
  unfold varyText varyNames Multimap.get?
  cases resp.headers.getAll .vary with
  | nil => exact List.nil_sublist _
  | cons v vs =>
      simp only [List.head?_cons, Option.bind_some, List.flatMap_cons]
      cases htext : HeaderValue.toStr v with
      | none => exact List.nil_sublist _
      | some text =>
          rw [Option.getD_some, (HeaderValue.toStr_printable htext).2]
          exact List.sublist_append_left _ _

theorem varyText_of_line {resp : Response Body} {text : Str} (hprint : text.all HeaderValue.isPrintable = true)
    (h : resp.headers.getAll .vary = [Posix.utf8 text]) : varyText resp = text := by
  simp [varyText, Multimap.get?, h, (HeaderValue.fromStr_printable hprint).2]

/-! ## `accept-encoding` -/

/-- What a stage appends to the names of the text. The test is one for a part of the text. -/
def appended (once : Bool) (text : Str) : List Octets :=
  if once && Text.contains text HeaderName.acceptEncoding then [] else [encodingName]

theorem encoding_printable : HeaderName.acceptEncoding.all HeaderValue.isPrintable = true := by decide

theorem contains_append (text : Str) :
    Text.contains (text ++ ',' :: HeaderName.acceptEncoding) HeaderName.acceptEncoding = true :=
  decide_eq_true ⟨text ++ [','], [], by simp⟩

theorem varyAcceptEncoding_line (once : Bool) (resp : Response Body) : ∃ text : Str,
    (varyAcceptEncoding once resp).headers.getAll .vary = [Posix.utf8 text] ∧
    text.all HeaderValue.isPrintable = true ∧ Text.contains text HeaderName.acceptEncoding = true ∧
    listNames (Posix.utf8 text) = listNames (Posix.utf8 (varyText resp)) ++ appended once (varyText resp) := by
  have hprint := varyText_printable resp
  have hself : Text.contains HeaderName.acceptEncoding HeaderName.acceptEncoding = true := by decide
  have hempty : Text.contains [] HeaderName.acceptEncoding = false := by decide
  have hnames : listNames (Posix.utf8 HeaderName.acceptEncoding) = [encodingName] := listNames_encoding
  unfold varyText at hprint ⊢
  unfold varyAcceptEncoding appended
  cases hline : resp.headers.get? .vary with
  | none =>
      refine ⟨HeaderName.acceptEncoding, by rw [Response.insertHeader_getAll, if_pos rfl], encoding_printable, hself, ?_⟩
      rw [hnames]
      simp [hempty, Posix.utf8]
  | some v =>
      rw [hline, Option.bind_some] at hprint
      obtain ⟨text, htext⟩ : ∃ text, (HeaderValue.toStr v).getD [] = text := ⟨_, rfl⟩
      rw [htext] at hprint
      simp only [Option.bind_some, htext]
      by_cases hcontains : (once && Text.contains text HeaderName.acceptEncoding) = true
      · refine ⟨text, ?_, hprint, ((Bool.and_eq_true _ _).mp hcontains).2, ?_⟩
        · rw [Response.insertHeader_getAll, if_pos rfl, if_pos hcontains]
        · rw [if_pos hcontains, List.append_nil]
      · rw [if_neg hcontains]
        by_cases hblank : (once && decide (text = [])) = true
        · rw [if_pos hblank]
          refine ⟨_, by rw [Response.insertHeader_getAll, if_pos rfl], encoding_printable, hself, ?_⟩
          simp only [Bool.and_eq_true, decide_eq_true_eq] at hblank
          rw [hblank.2, hnames, hempty, Bool.and_false]
          rfl
        · rw [if_neg hblank]
          refine ⟨_, by rw [Response.insertHeader_getAll, if_pos rfl], ?_, contains_append text, ?_⟩
          · simp only [List.all_append, List.all_cons, hprint, encoding_printable]
            decide
          · have hutf8 : Posix.utf8 (text ++ ',' :: HeaderName.acceptEncoding) =
                Posix.utf8 text ++ comma :: Posix.utf8 HeaderName.acceptEncoding :=
              List.flatMap_append
            rw [hutf8, listNames_append, hnames, if_neg hcontains]

theorem varyNames_varyAcceptEncoding (once : Bool) (resp : Response Body) :
    varyNames (varyAcceptEncoding once resp) =
      listNames (Posix.utf8 (varyText resp)) ++ appended once (varyText resp) := by
  obtain ⟨text, hline, _, _, hnames⟩ := varyAcceptEncoding_line once resp
  simp [varyNames, hline, hnames]

/-- A second turn finds what the first one has added. -/
theorem varyNames_twice (once : Bool) (resp : Response Body) :
    varyNames (varyAcceptEncoding true (varyAcceptEncoding once resp)) = varyNames (varyAcceptEncoding once resp) := by
  obtain ⟨text, hline, hprint, hcontains, _⟩ := varyAcceptEncoding_line once resp
  rw [varyNames_varyAcceptEncoding, varyText_of_line hprint hline]
  simp [varyNames, hline, appended, hcontains]

/-! ## The stages -/

/-- CORS fields are added to the answer. -/
def corsAdds (opts : RequestHandlerOpts) (req : Request Body) : Bool :=
  opts.cors.any fun cors => match cors.checkRequest req.method req.headers with
    | .ok (fields, _) => fields ≠ []
    | .error _ => false

/-- A compression is switched on for the response. -/
def codes (opts : RequestHandlerOpts) (resp : Response Body) : Bool :=
  opts.compressionStatic || opts.compression && resp.headers.getAll .contentEncoding = []

theorem corsPostProcess_vary (opts : RequestHandlerOpts) (req : Request Body) (resp : Response Body) :
    (corsPostProcess opts req resp).headers.getAll .vary =
      if corsAdds opts req then [originName] else resp.headers.getAll .vary := by
  unfold corsPostProcess corsAdds
  cases opts.cors with
  | none => simp
  | some cors =>
      cases hcheck : cors.checkRequest req.method req.headers with
      | error e => simp [hcheck]
      | ok result =>
          obtain ⟨fields, validated⟩ := result
          by_cases hfields : fields = []
          · simp [hcheck, hfields]
          · have hallow : HeaderName.allow ≠ HeaderName.vary := by decide
            simp [hcheck, hfields, Response.removeHeader, Multimap.getAll_remove, hallow,
              Response.insertHeader_getAll, originName]

/-- The lines of a field are left as they are. -/
def SameField (name : HeaderName) (resp resp' : Response Body) : Prop :=
  resp'.headers.getAll name = resp.headers.getAll name

theorem sameField_insertHeader (resp : Response Body) {name name' : HeaderName} (value : HeaderValue)
    (h : name' ≠ name) : SameField name resp (resp.insertHeader name' value) := Multimap.getAll_insert_of_ne h

section

variable {name : HeaderName}

theorem auto_field (hencoding : name ≠ HeaderName.contentEncoding) (hlength : name ≠ HeaderName.contentLength)
    (method : Method) (headers : HeaderMap) (level : CompressionLevel) (resp : Response Body) :
    SameField name resp (auto crates method headers level resp) := by
  have hcompress : ∀ coding, SameField name resp (compress crates level coding resp) := fun coding => by
    simp [SameField, compress, Response.insertHeader_getAll, Response.removeHeader, Multimap.getAll_remove,
      hencoding.symm, hlength.symm]
  unfold auto
  split
  · rfl
  · split
    · rfl
    · simp only
      split
      · rfl
      · exact hcompress _

end

/-- The fields of the custom entries that match the path. -/
def customFields (crates : Crates) (opts : RequestHandlerOpts) (req : Request Body) (filePath : Option Posix.Path) :
    HeaderMap :=
  let uriPath := effectiveUriPath req.uri.path filePath opts.redirectTrailingSlash
  let entries := (opts.advancedOpts.bind fun adv => adv.headers).getD []
  (entries.filter fun entry => crates.globs.isMatch entry.source uriPath).flatMap fun entry => entry.headers

/-- The value that the last custom field for `Vary` gives it. -/
def customVary (crates : Crates) (opts : RequestHandlerOpts) (req : Request Body) (filePath : Option Posix.Path) :
    Option HeaderValue := ((customFields crates opts req filePath).getAll HeaderName.vary).getLast?

theorem foldl_insertHeader_getAll (fields : HeaderMap) (resp : Response Body) (name : HeaderName) :
    (fields.foldl (fun resp (k, v) => resp.insertHeader k v) resp).headers.getAll name =
      ((fields.getAll name).getLast?.map ([·])).getD (resp.headers.getAll name) := by
  have hinsert : (fields.foldl (fun resp (k, v) => resp.insertHeader k v) resp).headers =
      Multimap.insertAll (fun _ => true) fields resp.headers := by
    induction fields generalizing resp with
    | nil => rfl
    | cons field fields ih => exact ih _
  rw [hinsert, Multimap.getAll_insertAll]
  simp

/-- The last custom field of a name replaces what the response has. -/
theorem customHeadersPostProcess_getAll (filePath : Option Posix.Path) (resp : Response Body) (name : HeaderName) :
    (customHeadersPostProcess crates opts req resp filePath).headers.getAll name =
      (((customFields crates opts req filePath).getAll name).getLast?.map ([·])).getD (resp.headers.getAll name) := by
  unfold customHeadersPostProcess customFields
  cases opts.advancedOpts.bind (·.headers) with
  | none => rfl
  | some entries =>
      simp only [Option.getD_some]
      generalize effectiveUriPath req.uri.path filePath opts.redirectTrailingSlash = uriPath
      induction entries generalizing resp with
      | nil => rfl
      | cons entry entries ih =>
          rw [List.foldl_cons, ih]
          by_cases hmatch : crates.globs.isMatch entry.source uriPath = true
          · rw [if_pos hmatch, foldl_insertHeader_getAll, List.filter_cons, if_pos hmatch, List.flatMap_cons,
              Multimap.getAll_append_list, List.getLast?_append]
            cases (Multimap.getAll ((entries.filter fun entry => crates.globs.isMatch entry.source uriPath).flatMap
              fun entry => entry.headers) name).getLast? <;> rfl
          · rw [if_neg hmatch, List.filter_cons, if_neg hmatch]

theorem customHeadersPostProcess_vary (filePath : Option Posix.Path) (resp : Response Body) :
    (customHeadersPostProcess crates opts req resp filePath).headers.getAll .vary =
      ((customVary crates opts req filePath).map ([·])).getD (resp.headers.getAll .vary) :=
  customHeadersPostProcess_getAll filePath resp .vary

end WeaveGate.Handler
