import WeaveGate.Handler.Lemmas.Stages

/-!
# What the later stages leave of a representation

No stage after the files changes the body of a response or says that it is another part or in another coding,
except the fallback page and the compression, and the custom header fields if they are configured to. Each stage
sets or drops some fields and keeps the others.
-/

namespace WeaveGate.Handler

open Http Settings
open Static (Body)

variable {crates : Crates} {opts : RequestHandlerOpts} {req : Request Body}

/-! ## Responses that differ in some fields -/

/-- Fields of these names are set or dropped, and nothing else changes. -/
structure ChangesOnly (names : List HeaderName) (resp resp' : Response Body) : Prop where
  status : resp'.status = resp.status
  body : resp'.body = resp.body
  kept : ∀ name ∉ names, resp'.headers.getAll name = resp.headers.getAll name

namespace ChangesOnly

variable {names names' : List HeaderName}

theorem refl (names : List HeaderName) (resp : Response Body) : ChangesOnly names resp resp := ⟨rfl, rfl, fun _ _ => rfl⟩

theorem trans {a b c : Response Body} (h : ChangesOnly names a b) (h' : ChangesOnly names' b c) :
    ChangesOnly (names ++ names') a c where
  status := h'.status.trans h.status
  body := h'.body.trans h.body
  kept := fun name hname =>
    (h'.kept name fun hmem => hname (List.mem_append_right _ hmem)).trans
      (h.kept name fun hmem => hname (List.mem_append_left _ hmem))

theorem mono {a b : Response Body} (h : ChangesOnly names a b) (hsub : names ⊆ names') : ChangesOnly names' a b :=
  ⟨h.status, h.body, fun name hname => h.kept name fun hmem => hname (hsub hmem)⟩

theorem insertHeader (resp : Response Body) {name : HeaderName} (h : name ∈ names) (value : HeaderValue) :
    ChangesOnly names resp (resp.insertHeader name value) where
  status := rfl
  body := rfl
  kept := fun _ hother => Multimap.getAll_insert_of_ne fun heq => hother (heq ▸ h)

theorem removeHeader (resp : Response Body) {name : HeaderName} (h : name ∈ names) :
    ChangesOnly names resp (resp.removeHeader name) where
  status := rfl
  body := rfl
  kept := fun other hother => by
    have hne : name ≠ other := fun heq => hother (heq ▸ h)
    rw [Response.removeHeader, Multimap.getAll_remove, if_neg hne]

/-- A stage that goes through a list changes what its turns change. -/
theorem foldl {α : Type} (f : Response Body → α → Response Body) (items : List α)
    (hstep : ∀ item ∈ items, ∀ resp, ChangesOnly names resp (f resp item)) (resp : Response Body) :
    ChangesOnly names resp (items.foldl f resp) := by
  refine List.foldlRecOn items f (.refl names resp) fun resp' hresp' item hitem => ?_
  exact (hresp'.trans (hstep item hitem resp')).mono (List.append_subset.mpr ⟨fun _ h => h, fun _ h => h⟩)

end ChangesOnly

/-! ## The stages -/

def corsFields : List HeaderName :=
  [.accessControlAllowHeaders, .accessControlExposeHeaders, .accessControlAllowMethods, .accessControlMaxAge,
    .accessControlAllowOrigin, .vary, .allow]

theorem Configured.corsHeaders_fields (self : Configured) (origin : HeaderValue) :
    ∀ field ∈ self.corsHeaders origin, field.1 ∈ corsFields := by
  unfold Configured.corsHeaders Configured.appendPreflightHeaders
  refine Multimap.forall_key_insert (P := (· ∈ corsFields)) _ (by decide) ?_
  have hlists := Multimap.forall_key_insert (P := (· ∈ corsFields)) self.methodsHeader
    (k := HeaderName.accessControlAllowMethods) (by decide)
    (Multimap.forall_key_insert self.exposedHeaders (k := HeaderName.accessControlExposeHeaders) (by decide)
      (Multimap.forall_key_insert self.allowedHeaders (k := HeaderName.accessControlAllowHeaders) (by decide)
        fun _ hmem => absurd hmem List.not_mem_nil))
  cases self.cors.maxAge with
  | none => exact hlists
  | some age => exact Multimap.forall_key_insert (P := (· ∈ corsFields)) _ (by decide) hlists

theorem Configured.checkRequest_ok {self : Configured} {method : Method} {headers fields : HeaderMap}
    {validated : Validated} (h : self.checkRequest method headers = .ok (fields, validated)) :
    fields = [] ∨ ∃ origin, fields = self.corsHeaders origin := by
  unfold Configured.checkRequest at h
  cases horigin : headers.get? .origin with
  | none =>
      rw [horigin] at h
      cases h
      exact .inl rfl
  | some origin =>
      rw [horigin] at h
      refine .inr ⟨origin, ?_⟩
      by_cases horiginOk : self.isOriginAllowed origin = true
      · by_cases hoptions : method = .options
        · cases hmethod : headers.get? .accessControlRequestMethod with
          | none => simp [horiginOk, hoptions, hmethod] at h
          | some reqMethod =>
              simp only [horiginOk, hoptions, hmethod, Bool.not_true, Bool.false_eq_true, if_false, if_true] at h
              split_ifs at h
              cases h
              rfl
        · simp only [horiginOk, hoptions, Bool.not_true, Bool.false_eq_true, if_false] at h
          cases h
          rfl
      · simp [horiginOk] at h

theorem corsPostProcess_changes (opts : RequestHandlerOpts) (req : Request Body) (resp : Response Body) :
    ChangesOnly corsFields resp (corsPostProcess opts req resp) := by
  unfold corsPostProcess
  split
  · exact .refl _ resp
  next self _ =>
    split
    · exact .refl _ resp
    next fields _ hfields =>
      split
      · exact .refl _ resp
      · have hkeys : ∀ field ∈ fields, field.1 ∈ corsFields := by
          rcases Configured.checkRequest_ok hfields with rfl | ⟨origin, rfl⟩
          · simp
          · exact self.corsHeaders_fields origin
        have hvaryField : HeaderName.vary ∈ corsFields := by decide
        have hallowField : HeaderName.allow ∈ corsFields := by decide
        have hadded := ChangesOnly.foldl (fun (resp : Response Body) field => resp.insertHeader field.1 field.2) fields
          (fun field hmem resp => .insertHeader resp (hkeys field hmem) field.2) resp
        have hvary := hadded.trans (ChangesOnly.insertHeader _ hvaryField (Posix.utf8 HeaderName.origin))
        exact (hvary.trans (ChangesOnly.removeHeader _ hallowField)).mono (by decide)

theorem markdownPostProcess_changes (isMarkdown : Bool) (opts : RequestHandlerOpts) (resp : Response Body) :
    ChangesOnly [.contentType] resp (markdownPostProcess isMarkdown opts resp) := by
  unfold markdownPostProcess
  split
  · exact .refl _ resp
  · exact .insertHeader resp (by decide) _

theorem textCharsetPostProcess_changes (crates : Crates) (opts : RequestHandlerOpts) (resp : Response Body) :
    ChangesOnly [.contentType] resp (textCharsetPostProcess crates opts resp) := by
  unfold textCharsetPostProcess
  split
  · exact .refl _ resp
  · simp only
    generalize (resp.headers.get? .contentType >>= _) = newHeader
    cases newHeader with
    | none => exact .refl _ resp
    | some value => exact .insertHeader resp (by decide) value

theorem varyAcceptEncoding_changes (once : Bool) (resp : Response Body) :
    ChangesOnly [.vary] resp (varyAcceptEncoding once resp) := .insertHeader resp (by decide) _

theorem compressionStaticPostProcess_changes (opts : RequestHandlerOpts) (resp : Response Body) :
    ChangesOnly [.vary] resp (compressionStaticPostProcess opts resp) := by
  unfold compressionStaticPostProcess
  split
  · exact .refl _ resp
  · exact varyAcceptEncoding_changes false resp

theorem controlHeadersPostProcess_changes (opts : RequestHandlerOpts) (req : Request Body) (resp : Response Body) :
    ChangesOnly [.cacheControl] resp (controlHeadersPostProcess opts req resp) := by
  unfold controlHeadersPostProcess
  split
  · exact .refl _ resp
  · exact .insertHeader resp (by decide) _

theorem securityHeadersPostProcess_changes (opts : RequestHandlerOpts) (resp : Response Body) :
    ChangesOnly (securityHeaders.map Prod.fst) resp (securityHeadersPostProcess opts resp) := by
  unfold securityHeadersPostProcess
  split
  · exact .refl _ resp
  · exact .foldl _ securityHeaders (fun field hmem resp => .insertHeader resp (List.mem_map_of_mem hmem) _) resp

/-- The names of the custom fields. -/
def customNames (opts : RequestHandlerOpts) : List HeaderName :=
  ((opts.advancedOpts.bind fun adv => adv.headers).getD []).flatMap fun entry => entry.headers.map Prod.fst

theorem customHeadersPostProcess_changes (filePath : Option Posix.Path) (resp : Response Body) :
    ChangesOnly (customNames opts) resp (customHeadersPostProcess crates opts req resp filePath) := by
  unfold customHeadersPostProcess customNames
  split
  · exact .refl _ resp
  next entries hentries =>
    rw [hentries]
    refine .foldl _ entries (fun entry hentry resp => ?_) resp
    split
    · refine .foldl _ entry.headers (fun field hfield resp => .insertHeader resp ?_ field.2) resp
      exact List.mem_flatMap.mpr ⟨entry, hentry, List.mem_map_of_mem hfield⟩
    · exact .refl _ resp

/-! ## Responses with the same representation -/

structure SameRepresentation (resp resp' : Response Body) : Prop where
  status : resp'.status = resp.status
  body : resp'.body = resp.body
  contentRange : resp'.headers.getAll .contentRange = resp.headers.getAll .contentRange
  contentEncoding : resp'.headers.getAll .contentEncoding = resp.headers.getAll .contentEncoding

/-- A field that says neither which part nor which coding the body is. -/
def DescribesNoPart (name : HeaderName) : Prop :=
  name ≠ HeaderName.contentRange ∧ name ≠ HeaderName.contentEncoding

instance (name : HeaderName) : Decidable (DescribesNoPart name) := inferInstanceAs (Decidable (_ ∧ _))

theorem ChangesOnly.same {names : List HeaderName} {resp resp' : Response Body} (h : ChangesOnly names resp resp')
    (hnames : ∀ name ∈ names, DescribesNoPart name) : SameRepresentation resp resp' where
  status := h.status
  body := h.body
  contentRange := h.kept _ fun hmem => (hnames _ hmem).1 rfl
  contentEncoding := h.kept _ fun hmem => (hnames _ hmem).2 rfl

/-- No custom field of the configuration is one that says which part or which coding a body is. -/
def CustomDescribesNoPart (opts : RequestHandlerOpts) : Prop :=
  ∀ entries, opts.advancedOpts.bind (·.headers) = some entries →
    ∀ entry ∈ entries, ∀ field ∈ entry.headers, DescribesNoPart field.1

theorem CustomDescribesNoPart.names (h : CustomDescribesNoPart opts) :
    ∀ name ∈ customNames opts, DescribesNoPart name := by
  intro name hname
  unfold customNames at hname
  cases hentries : opts.advancedOpts.bind (·.headers) with
  | none =>
      rw [hentries] at hname
      cases hname
  | some entries =>
      rw [hentries] at hname
      obtain ⟨entry, hentry, hname⟩ := List.mem_flatMap.mp hname
      obtain ⟨field, hfield, rfl⟩ := List.mem_map.mp hname
      exact h entries hentries entry hentry field hfield

end WeaveGate.Handler
