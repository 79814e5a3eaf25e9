import WeaveGate.Static.Lemmas.Reply
import WeaveGate.Static.Theorems.Access

/-!
# Byte ranges

Which part of a file a range request is answered with. The first range of a `Range` field alone counts.
-/

namespace WeaveGate.Static

open Http
open Posix (Octets Path FileTree Inode)

variable {crates : Crates}

/-! ## The part a range asks for -/

/-- The first byte and the first byte after the part, none for a part that cannot be served. -/
def RangeSpec.part (len : Nat) : RangeSpec → Option (Nat × Nat)
  | (some a, some b) => if a ≤ b ∧ a < len then some (a, min b (len - 1) + 1) else none
  | (some a, none) => if a < len then some (a, len) else none
  | (none, some n) => if 0 < n ∧ 0 < len then some (len - min n len, len) else none
  | (none, none) => some (0, len)

def requestedPart (range : Option (List RangeSpec)) (len : Nat) : Option (Nat × Nat) :=
  range.elim (some (0, len)) fun specs => specs.head?.bind (RangeSpec.part len)

/-- The reply that carries the bytes from `first` up to and without `last`. -/
structure Delivers (content : Octets) (first last : Nat) (resp : Response Body) : Prop where
  status : resp.status = if last - first = content.length then .ok else .partialContent
  bytes : resp.body.bytes = some ((content.drop first).take (last - first))
  contentLength : resp.headers.getAll .contentLength = [decimal (last - first)]
  whole : resp.status = .ok → resp.headers.getAll .contentRange = []
  partly : resp.status = .partialContent → ∃ e, last = e + 1 ∧ first ≤ e ∧ e < content.length ∧
    resp.headers.getAll .contentRange = [HeaderValue.fromStatic "bytes " ++ decimal first ++
      HeaderValue.fromStatic "-" ++ decimal e ++ HeaderValue.fromStatic "/" ++ decimal content.length]

/-- The conditional fields leave the range as it was sent. -/
def HonoursRange (conditionals : ConditionalHeaders) (modified : Option Nat) : Prop :=
  conditionals.check modified = .withBody conditionals.range

def AnswersRange (content : Octets) (range : Option (List RangeSpec)) (resp : Response Body) : Prop :=
  match requestedPart range content.length with
  | none => resp.status = .rangeNotSatisfiable ∧ resp.body.bytes = some []
  | some (first, last) => Delivers content first last resp

/-- No sum or difference on the way from a range to its reply leaves the machine integers. -/
structure ExactArithmetic (range : Option (List RangeSpec)) (len : Nat) : Prop where
  closedEnd : ∀ specs a b, range = some ((some a, some b) :: specs) → a ≤ b → b ≠ len → b + 1 < 2 ^ 64
  length : ∀ first last, bytesRange range len = some (first, last) → first ≤ last
  lastByte : ∀ first last, bytesRange range len = some (first, last) → last - first ≠ len → 1 ≤ last

/-! ## When the reply is that part -/

/-- A closed range has to start before the end of the file or end right at it, and its end must not be the
largest integer unless the file has that length. Of an empty file, a range without both ends is refused. -/
def RangeSpec.Regular (len : Nat) : RangeSpec → Prop
  | (some a, some b) => a ≤ b → b ≠ len → a ≠ len ∧ b + 1 < 2 ^ 64
  | (none, none) => 0 < len
  | _ => True

def RegularRange (range : Option (List RangeSpec)) (len : Nat) : Prop :=
  ∀ specs spec, range = some (spec :: specs) → RangeSpec.Regular len spec

/-- What is left of the bounds of a range in a file of the given length. -/
def clamp (len : Nat) (bounds : Nat × Nat) : Option (Nat × Nat) :=
  if bounds.1 < bounds.2 ∧ bounds.2 ≤ len then some bounds
  else if bounds.1 < bounds.2 ∧ bounds.1 ≤ len then some (bounds.1, len)
  else none

theorem bytesRange_cons (spec : RangeSpec) (specs : List RangeSpec) (len : Nat) :
    bytesRange (some (spec :: specs)) len = (rangeBounds len spec).bind (clamp len) := by
  simp only [bytesRange, List.head?_cons, Option.bind_some]
  cases rangeBounds len spec <;> rfl

theorem requestedPart_cons (spec : RangeSpec) (specs : List RangeSpec) (len : Nat) :
    requestedPart (some (spec :: specs)) len = spec.part len := rfl

theorem rangeBounds_reversed {a b : Nat} (len : Nat) (hab : b < a) :
    rangeBounds len (some a, some b) = none ∧ RangeSpec.part len (some a, some b) = none := by
  simp [rangeBounds, RangeSpec.part, hab, hab.not_ge]

theorem rangeBounds_closed {a b len : Nat} (hab : a ≤ b) (hb : b ≠ len → b + 1 < 2 ^ 64) :
    rangeBounds len (some a, some b) = some (a, if b = len then b else b + 1) := by
  by_cases h : b = len
  · subst h
    simp only [rangeBounds, hab.not_gt, if_false, if_true]
  · simp only [rangeBounds, hab.not_gt, h, if_false, Nat.mod_eq_of_lt (hb h)]

theorem clamp_rangeBounds {spec : RangeSpec} {len : Nat} (h : RangeSpec.Regular len spec) :
    (rangeBounds len spec).bind (clamp len) = spec.part len := by
  obtain ⟨_ | a, _ | b⟩ := spec <;> simp only [RangeSpec.Regular] at h
  · simp [rangeBounds, RangeSpec.part, clamp, h]
  · simp only [rangeBounds, RangeSpec.part, clamp, Option.bind_some]
    grind
  · simp only [rangeBounds, RangeSpec.part, clamp, Option.bind_some]
    grind
  · rcases Nat.lt_or_ge b a with hab | hab
    · rw [(rangeBounds_reversed len hab).1, (rangeBounds_reversed len hab).2, Option.bind_none]
    · rw [rangeBounds_closed hab fun hb => (h hab hb).2, Option.bind_some]
      have ha : b ≠ len → a ≠ len := fun hb => (h hab hb).1
      simp only [RangeSpec.part, clamp]
      grind

/-- Without an overflow, a range that is not regular is served where it should be refused, or refused where it
should be served. -/
theorem clamp_rangeBounds_irregular {spec : RangeSpec} {len : Nat} (h : ¬ RangeSpec.Regular len spec)
    (hexact : ∀ a b, spec = (some a, some b) → a ≤ b → b ≠ len → b + 1 < 2 ^ 64) :
    (rangeBounds len spec).bind (clamp len) = none ↔ spec.part len ≠ none := by
  obtain ⟨_ | a, _ | b⟩ := spec <;> simp only [RangeSpec.Regular, not_true] at h
  · simp [rangeBounds, RangeSpec.part, clamp, h]
  · simp only [Classical.not_imp] at h
    obtain ⟨hab, hb, h⟩ := h
    have hsum := hexact a b rfl hab hb
    have ha : a = len := by_contra fun hne => h ⟨hne, hsum⟩
    rw [rangeBounds_closed hab fun _ => hsum, Option.bind_some]
    simp only [RangeSpec.part, clamp]
    grind

theorem bytesRange_eq_requestedPart {range : Option (List RangeSpec)} {len : Nat} (h : RegularRange range len) :
    bytesRange range len = requestedPart range len := by
  rcases range with _ | _ | ⟨spec, specs⟩
  · rfl
  · rfl
  · rw [bytesRange_cons, requestedPart_cons, clamp_rangeBounds (h specs spec rfl)]

theorem bytesRange_irregular {range : Option (List RangeSpec)} {len : Nat} (h : ¬ RegularRange range len)
    (hexact : ExactArithmetic range len) : bytesRange range len = none ↔ requestedPart range len ≠ none := by
  simp only [RegularRange, not_forall] at h
  obtain ⟨specs, spec, rfl, h⟩ := h
  rw [bytesRange_cons, requestedPart_cons]
  exact clamp_rangeBounds_irregular h fun a b hspec => hexact.closedEnd specs a b (by rw [hspec])

theorem clamp_bounds {len : Nat} {bounds window : Nat × Nat} (h : clamp len bounds = some window) :
    window.1 < window.2 ∨ window.2 = len := by
  unfold clamp at h
  split at h
  · rename_i hin
    cases h
    exact .inl hin.1
  · split at h
    · cases h
      exact .inr rfl
    · cases h

theorem bytesRange_last {range : Option (List RangeSpec)} {len first last : Nat}
    (h : bytesRange range len = some (first, last)) : first < last ∨ last = len := by
  rcases range with _ | _ | ⟨spec, specs⟩
  · cases h
    exact .inr rfl
  · cases h
  · rw [bytesRange_cons] at h
    obtain ⟨bounds, _, h⟩ := Option.bind_eq_some_iff.mp h
    exact clamp_bounds h

theorem RegularRange.exactArithmetic {range : Option (List RangeSpec)} {len : Nat} (h : RegularRange range len) :
    ExactArithmetic range len where
  closedEnd := fun specs a b hrange hab hb => (h specs _ hrange hab hb).2
  length := fun _ _ hwindow => (bytesRange_bounds hwindow).1
  lastByte := fun first last hwindow hpart => by
    have hbounds := bytesRange_bounds hwindow
    rcases bytesRange_last hwindow with h | h <;> omega

/-- The part of a file that can be served is not empty, unless the file is. -/
theorem requestedPart_bounds {range : Option (List RangeSpec)} {len first last : Nat}
    (h : requestedPart range len = some (first, last)) : first < last ∧ last ≤ len ∨ first = 0 ∧ last = len := by
  rcases range with _ | _ | ⟨⟨_ | a, _ | b⟩, specs⟩
  · cases h
    exact .inr ⟨rfl, rfl⟩
  · cases h
  · cases h
    exact .inr ⟨rfl, rfl⟩
  all_goals
    simp only [requestedPart_cons, RangeSpec.part] at h
    split at h
    · cases h
      exact .inl (by omega)
    · cases h

/-! ## The reply -/

/-- The window that `response_body` and `MemFile::response_body` stream, of the content of the file. -/
theorem answersRange_iff {content : Octets} {range : Option (List RangeSpec)} (contentType : HeaderValue)
    (modified : Option Nat) {body : Nat → Nat → Body}
    (hbody : ∀ start subLen, start + subLen ≤ content.length →
      (body start subLen).bytes = some ((content.drop start).take subLen)) :
    ExactArithmetic range content.length ∧
        AnswersRange content range (rangedResponse crates range content.length contentType modified body) ↔
      RegularRange range content.length := by
  constructor
  · rintro ⟨hexact, hreply⟩
    by_contra hregular
    have hopposite := bytesRange_irregular hregular hexact
    unfold AnswersRange at hreply
    cases hwindow : bytesRange range content.length with
    | none =>
        obtain ⟨⟨first, last⟩, hpart⟩ := Option.ne_none_iff_exists'.mp (hopposite.mp hwindow)
        rw [hpart] at hreply
        have hstatus := (rangedResponse_refused hwindow contentType modified body).symm.trans hreply.status
        split at hstatus <;> cases hstatus
    | some window =>
        have hpart : requestedPart range content.length = none := by
          by_contra hpart
          cases hwindow.symm.trans (hopposite.mpr hpart)
        rw [hpart] at hreply
        have hstatus := (rangedResponse_part crates hwindow contentType modified body).1.symm.trans hreply.1
        split at hstatus <;> cases hstatus
  · intro hregular
    refine ⟨hregular.exactArithmetic, ?_⟩
    have hsame := bytesRange_eq_requestedPart hregular
    unfold AnswersRange
    cases hpart : requestedPart range content.length with
    | none =>
        refine ⟨rangedResponse_refused (hsame.trans hpart) contentType modified body, ?_⟩
        rw [rangedResponse_body, hsame, hpart]
        rfl
    | some window =>
        obtain ⟨first, last⟩ := window
        obtain ⟨hstatus, hlength, hrange⟩ :=
          rangedResponse_part crates (hsame.trans hpart) contentType modified body
        have hbounds := requestedPart_bounds hpart
        refine ⟨hstatus, ?_, hlength, ?_, ?_⟩
        · rw [rangedResponse_body, hsame, hpart, Option.elim_some]
          exact hbody first (last - first) (by omega)
        · intro hok
          rw [hrange, if_pos]
          by_contra hpartial
          rw [if_neg hpartial] at hstatus
          cases hok.symm.trans hstatus
        · intro hok
          have hpartial : ¬ last - first = content.length := fun hwhole => by
            rw [if_pos hwhole] at hstatus
            cases hok.symm.trans hstatus
          rw [hrange, if_neg hpartial]
          obtain ⟨hlt, hle⟩ : first < last ∧ last ≤ content.length := by omega
          exact ⟨last - 1, by omega, by omega, by omega, rfl⟩

theorem FileStream.bytes_of_content {s : FileStream} {content : Octets} (h : s.source.content = some content) :
    s.bytes = some ((content.drop s.start).take s.subLen) := by
  unfold FileStream.bytes
  split
  · rename_i hzero
    rw [hzero, List.take_zero]
  · rw [h]
    rfl

theorem responseBody_withBody (crates : Crates) (file : FileTree.OpenFile) (path : Path) {metadata : Inode}
    {conditionals : ConditionalHeaders} (memoryCache : Option MemCacheOpts) {modified : Option Nat}
    {range : Option (List RangeSpec)} (hdate : lastModifiedOf metadata = .ok modified)
    (hcheck : conditionals.check modified = .withBody range) :
    ∃ mem, responseBody crates file path metadata conditionals memoryCache =
      .ok (rangedResponse crates range metadata.size (crates.mime path) modified fun start subLen =>
        .stream { source := .file file, start, subLen, bufSize := optimalBufSize metadata, mem }) := by
  unfold responseBody
  simp only [hdate, bind, Except.bind, hcheck]
  exact ⟨_, rfl⟩

/-- A request whose conditional fields leave its range as it is, for a file and for a cache entry. -/
theorem range_answered_iff (crates : Crates) :
    (∀ (file : FileTree.OpenFile) (content : Octets) (path : Path) (metadata : Inode) (modified : Option Nat)
        (conditionals : ConditionalHeaders) (memoryCache : Option MemCacheOpts),
      file.content = some content → metadata.size = content.length → lastModifiedOf metadata = .ok modified →
      HonoursRange conditionals modified →
      ((ExactArithmetic conditionals.range content.length ∧
          ∃ resp, responseBody crates file path metadata conditionals memoryCache = .ok resp ∧
            AnswersRange content conditionals.range resp) ↔
        RegularRange conditionals.range content.length)) ∧
    ∀ (entry : MemFile) (headers : HeaderMap),
      HonoursRange (ConditionalHeaders.new crates headers) entry.lastModified →
      ((ExactArithmetic (ConditionalHeaders.new crates headers).range entry.data.length ∧
          AnswersRange entry.data (ConditionalHeaders.new crates headers).range (entry.responseBody crates headers)) ↔
        RegularRange (ConditionalHeaders.new crates headers).range entry.data.length) := by
  constructor
  · intro file content path metadata modified conditionals memoryCache hcontent hsize hdate hhonoured
    obtain ⟨mem, hreply⟩ := responseBody_withBody crates file path memoryCache hdate hhonoured
    simp only [hreply, hsize, Except.ok.injEq, exists_eq_left']
    exact answersRange_iff _ _ fun start subLen _ => FileStream.bytes_of_content hcontent
  · intro entry headers hhonoured
    unfold HonoursRange at hhonoured
    unfold MemFile.responseBody
    rw [hhonoured]
    exact answersRange_iff _ _ fun start subLen _ => FileStream.bytes_of_content rfl

def rangeCrates : Crates :=
  { sampleCrates with
    range := fun values => [
      (HeaderValue.fromStatic "bytes=1-1", [(some 1, some 1)]),
      (HeaderValue.fromStatic "bytes=3-9", [(some 3, some 9)]),
      (HeaderValue.fromStatic "bytes=0-18446744073709551615", [(some 0, some 18446744073709551615)]),
      (HeaderValue.fromStatic "bytes=-", [(none, none)])].lookup (values.headD []) }

def rangeHeaders (field : String) : HeaderMap := [(.range, HeaderValue.fromStatic field)]

def rangeEntry (content : String) : MemFile := ⟨named content, 4096, HeaderValue.fromStatic "text/html", none⟩

/-- A range from the end of the file on, one up to the largest integer, and one without ends of an empty file. -/
theorem range_at_end_served :
    ¬ AnswersRange (named "abc") (some [(some 3, some 9)])
        ((rangeEntry "abc").responseBody rangeCrates (rangeHeaders "bytes=3-9")) ∧
      ¬ ExactArithmetic (some [(some 0, some 18446744073709551615)]) 3 ∧
      ¬ AnswersRange (named "abc") (some [(some 0, some 18446744073709551615)])
        ((rangeEntry "abc").responseBody rangeCrates (rangeHeaders "bytes=0-18446744073709551615")) ∧
      ¬ AnswersRange [] (some [(none, none)])
        ((rangeEntry "").responseBody rangeCrates (rangeHeaders "bytes=-")) := by
  refine ⟨fun h => absurd h.1 (by decide +kernel), fun h => ?_, fun h => absurd h.status (by decide +kernel),
    fun h => absurd h.status (by decide +kernel)⟩
  exact absurd (h.closedEnd [] 0 _ rfl (Nat.zero_le _) (by decide)) (by decide)

theorem range_answered_iff_one : ∃ resp,
    responseBody rangeCrates ⟨[], [], sampleFile (named "abc")⟩ [] (sampleFile (named "abc"))
        (ConditionalHeaders.new rangeCrates (rangeHeaders "bytes=1-1")) none = .ok resp ∧
      AnswersRange (named "abc") (some [(some 1, some 1)]) resp ∧
      AnswersRange (named "abc") (some [(some 1, some 1)])
        ((rangeEntry "abc").responseBody rangeCrates (rangeHeaders "bytes=1-1")) := by
  have hregular : RegularRange (some [(some 1, some 1)]) 3 := fun specs spec h => by
    cases h
    exact fun _ _ => by decide
  obtain ⟨_, resp, hresp, hfile⟩ := ((range_answered_iff rangeCrates).1 ⟨[], [], sampleFile (named "abc")⟩
    (named "abc") [] (sampleFile (named "abc")) none
    (ConditionalHeaders.new rangeCrates (rangeHeaders "bytes=1-1")) none rfl rfl rfl rfl).mpr hregular
  have hentry := ((range_answered_iff rangeCrates).2 (rangeEntry "abc") (rangeHeaders "bytes=1-1") rfl).mpr hregular
  exact ⟨resp, hresp, hfile, hentry.2⟩

end WeaveGate.Static
