import WeaveGate.Handler.Lemmas.PostProcess
import WeaveGate.Handler.Theorems
import WeaveGate.Lib.MediaType

/-!
# Character sets

Which responses leave with `charset=utf-8`, and what becomes of the other parameters.
-/

namespace WeaveGate.Handler

open Http
open Static (Body)

variable {crates : Crates} {k : MediaType.Tokens} {opts : RequestHandlerOpts} {resp : Response Body} {text : Str}
  {m : MediaType}

/-- `Mime` is read as a media type is. -/
def ReadsMime (crates : Crates) (k : MediaType.Tokens) : Prop :=
  ∀ text, (crates.parseMime text).map (fun m => (m.type, m.essence, m.charset)) =
    (MediaType.read k text).map fun m => (m.type, m.essence, m.charset?)

def contentTypeText (resp : Response Body) : Option Str := (resp.headers.get? .contentType).bind HeaderValue.toStr

/-- The type is one of the listed ones, and has no character set. -/
def LacksCharset (m : MediaType) : Prop := m.essence ∈ textOnlyTypes ∧ m.charset? = none

structure DeclaresCharset (crates : Crates) (k : MediaType.Tokens) (opts : RequestHandlerOpts) (resp : Response Body) :
    Prop where
  declared : ∀ text m, contentTypeText resp = some text → MediaType.read k text = some m → LacksCharset m →
    (∃ text', (textCharsetPostProcess crates opts resp).headers.getAll .contentType = [Posix.utf8 text'] ∧
      MediaType.read k text' = some (m.add "charset".toList "utf-8".toList)) ∧
    ChangesOnly [.contentType] resp (textCharsetPostProcess crates opts resp)
  unchanged : (∀ text m, contentTypeText resp = some text → MediaType.read k text = some m → ¬ LacksCharset m) →
    textCharsetPostProcess crates opts resp = resp
  idempotent : textCharsetPostProcess crates opts (textCharsetPostProcess crates opts resp) =
    textCharsetPostProcess crates opts resp

/-- A listed type without a character set is one of `text`, and its last value is not empty. -/
def TextGoesOn (k : MediaType.Tokens) (resp : Response Body) : Prop :=
  ∀ text m, contentTypeText resp = some text → MediaType.read k text = some m → LacksCharset m →
    m.type = "text".toList ∧ text.getLast? ≠ some '='

/-! ## What the code does -/

/-- The text that becomes the new value. -/
def withUtf8 (text : Str) : Str := MediaType.trimmed text ++ MediaType.utf8Param

theorem withUtf8_printable (h : text.all HeaderValue.isPrintable = true) :
    (withUtf8 text).all HeaderValue.isPrintable = true := by
  have hblanks : Text.trimEnd text <+: text := List.rdropWhile_prefix _ _
  have hsemis : MediaType.trimmed text <+: Text.trimEnd text := List.rdropWhile_prefix _ _
  have hpart := hsemis.trans hblanks
  rw [withUtf8, List.all_append, Bool.and_eq_true]
  refine ⟨List.all_eq_true.mpr fun c hc => List.all_eq_true.mp h c (hpart.subset hc), by decide⟩

theorem parseMime_of_read (hreads : ReadsMime crates k) (h : MediaType.read k text = some m) :
    ∃ mime, crates.parseMime text = some mime ∧ mime.type = m.type ∧ mime.essence = m.essence ∧
      mime.charset = m.charset? := by
  have hmime := hreads text
  rw [h, Option.map_some, Option.map_eq_some_iff] at hmime
  obtain ⟨mime, hmime, hsame⟩ := hmime
  simp only [Prod.mk.injEq] at hsame
  exact ⟨mime, hmime, hsame⟩

theorem parseMime_of_read_none (hreads : ReadsMime crates k) (h : MediaType.read k text = none) :
    crates.parseMime text = none := by
  have hmime := hreads text
  rwa [h, Option.map_none, Option.map_eq_none_iff] at hmime

def asksForUtf8 (mime : Mime) : Bool := mime.containsTextOnly textOnlyTypes && mime.charset.isNone

theorem asksForUtf8_iff {mime : Mime} (htype : mime.type = m.type) (hessence : mime.essence = m.essence)
    (hcharset : mime.charset = m.charset?) : asksForUtf8 mime = true ↔ m.type = "text".toList ∧ LacksCharset m := by
  rw [asksForUtf8, Mime.containsTextOnly, Mime.isTextOnly, htype, hessence, hcharset, LacksCharset,
    Bool.and_eq_true, Bool.and_eq_true, decide_eq_true_eq, decide_eq_true_eq, Option.isNone_iff_eq_none, and_assoc]

theorem textCharsetPostProcess_eq (hon : opts.textCharset = true) : textCharsetPostProcess crates opts resp =
    ((contentTypeText resp).bind fun text => (crates.parseMime text).bind fun mime =>
      if asksForUtf8 mime then HeaderValue.fromStr (withUtf8 text) else none).elim resp
        fun value => resp.insertHeader .contentType value := by
  rw [textCharsetPostProcess, hon, contentTypeText]
  cases hvalue : resp.headers.get? .contentType with
  | none => rfl
  | some value => rfl

theorem textCharsetPostProcess_of_text (hreads : ReadsMime crates k) (hon : opts.textCharset = true)
    (htext : contentTypeText resp = some text) (hread : MediaType.read k text = some m) (hlacks : LacksCharset m)
    (htype : m.type = "text".toList) :
    textCharsetPostProcess crates opts resp = resp.insertHeader .contentType (Posix.utf8 (withUtf8 text)) := by
  obtain ⟨value, hvalue, hstr⟩ := Option.bind_eq_some_iff.mp htext
  obtain ⟨mime, hmime, hmtype, hessence, hcharset⟩ := parseMime_of_read hreads hread
  have hasks := (asksForUtf8_iff hmtype hessence hcharset).mpr ⟨htype, hlacks⟩
  have hprints := withUtf8_printable (HeaderValue.toStr_printable hstr).1
  rw [textCharsetPostProcess_eq hon, htext, Option.bind_some, hmime, Option.bind_some, if_pos hasks,
    (HeaderValue.fromStr_printable hprints).1, Option.elim_some]

theorem textCharsetPostProcess_unchanged (hreads : ReadsMime crates k)
    (h : ∀ text m, contentTypeText resp = some text → MediaType.read k text = some m → LacksCharset m →
      m.type ≠ "text".toList) : textCharsetPostProcess crates opts resp = resp := by
  by_cases hon : opts.textCharset = true
  · rw [textCharsetPostProcess_eq hon]
    cases htext : contentTypeText resp with
    | none => rfl
    | some text =>
        cases hread : MediaType.read k text with
        | none => rw [Option.bind_some, parseMime_of_read_none hreads hread, Option.bind_none, Option.elim_none]
        | some m =>
            obtain ⟨mime, hmime, hmtype, hessence, hcharset⟩ := parseMime_of_read hreads hread
            have hno : ¬ asksForUtf8 mime = true := fun hasks =>
              have ⟨htype, hlacks⟩ := (asksForUtf8_iff hmtype hessence hcharset).mp hasks
              h text m htext hread hlacks htype
            rw [Option.bind_some, hmime, Option.bind_some, if_neg hno, Option.elim_none]
  · rw [textCharsetPostProcess, Bool.eq_false_iff.mpr hon]
    rfl

/-! ## The new value -/

theorem contentTypeText_insert (h : text.all HeaderValue.isPrintable = true) :
    contentTypeText (resp.insertHeader .contentType (Posix.utf8 text)) = some text := by
  have hvalue : (resp.insertHeader .contentType (Posix.utf8 text)).headers.get? .contentType =
      some (Posix.utf8 text) := (Multimap.get?_insert resp.headers _ _ _).trans (if_pos rfl)
  rw [contentTypeText, hvalue]
  exact (HeaderValue.fromStr_printable h).2

theorem contentTypeText_of_getAll (htext : contentTypeText resp = some text) {text' : Str}
    (h : resp.headers.getAll .contentType = [Posix.utf8 text']) : text = text' := by
  obtain ⟨value, hvalue, hstr⟩ := Option.bind_eq_some_iff.mp htext
  rw [Multimap.get?, h, List.head?_cons, Option.some_inj] at hvalue
  have hsame := congrArg Utf8.decode ((HeaderValue.toStr_printable hstr).2.trans hvalue.symm)
  rwa [Utf8.decode_utf8, Utf8.decode_utf8, Option.some_inj] at hsame

theorem ne_star_of_text (hread : MediaType.read k text = some m) (htype : m.type = "text".toList) :
    text ≠ "*/*".toList := by
  rintro rfl
  rw [MediaType.read, if_pos rfl] at hread
  cases hread
  exact absurd htype (by decide)

/-- No listed type ends in a slash. -/
theorem LacksCharset.subtype_ne (h : LacksCharset m) : m.subtype ≠ [] := by
  intro hempty
  have hall : textOnlyTypes.all (fun t => t.getLast? ≠ some '/') = true := by decide +kernel
  have hlast := of_decide_eq_true (List.all_eq_true.mp hall m.essence h.1)
  rw [MediaType.essence, hempty, List.getLast?_concat] at hlast
  exact hlast rfl

theorem add_charset (m : MediaType) (hnone : m.charset? = none) :
    (m.add "charset".toList "utf-8".toList).charset? = some "utf-8".toList := by
  have hparams : (m.add "charset".toList "utf-8".toList).params =
      m.params ++ [("charset".toList, "utf-8".toList)] := rfl
  rw [MediaType.charset?] at hnone ⊢
  rw [hparams, List.lookup_append, hnone, Option.none_or]
  rfl

/-- The new value is not changed again. -/
theorem textCharsetPostProcess_idem (hreads : ReadsMime crates k) :
    textCharsetPostProcess crates opts (textCharsetPostProcess crates opts resp) =
      textCharsetPostProcess crates opts resp := by
  by_cases hasks : ∃ text m, contentTypeText resp = some text ∧ MediaType.read k text = some m ∧
      LacksCharset m ∧ m.type = "text".toList
  · obtain ⟨text, m, htext, hread, hlacks, htype⟩ := hasks
    by_cases hon : opts.textCharset = true
    · rw [textCharsetPostProcess_of_text hreads hon htext hread hlacks htype]
      refine textCharsetPostProcess_unchanged hreads fun text' m' htext' hread' hlacks' _ => ?_
      obtain ⟨value, _, hstr⟩ := Option.bind_eq_some_iff.mp htext
      rw [contentTypeText_insert (withUtf8_printable (HeaderValue.toStr_printable hstr).1)] at htext'
      cases htext'
      rw [withUtf8, MediaType.read_utf8Param (ne_star_of_text hread htype) hread hlacks.subtype_ne] at hread'
      split at hread'
      · cases hread'
      · cases hread'
        have hno := hlacks'.2
        rw [add_charset m hlacks.2] at hno
        cases hno
    · rw [textCharsetPostProcess, Bool.eq_false_iff.mpr hon]
      rfl
  · have hsame : textCharsetPostProcess crates opts resp = resp :=
      textCharsetPostProcess_unchanged hreads fun text m htext hread hlacks htype =>
        hasks ⟨text, m, htext, hread, hlacks, htype⟩
    rw [hsame, hsame]

/-! ## Which types get a character set -/

theorem declares_charset_iff (hreads : ReadsMime crates k) (hon : opts.textCharset = true) :
    DeclaresCharset crates k opts resp ↔ TextGoesOn k resp := by
  constructor
  · intro h text m htext hread hlacks
    obtain ⟨⟨text', hvalue, hread'⟩, _⟩ := h.declared text m htext hread hlacks
    have htype : m.type = "text".toList := by
      by_contra htype
      have hsame : textCharsetPostProcess crates opts resp = resp := by
        refine textCharsetPostProcess_unchanged hreads fun text₁ m₁ htext₁ hread₁ _ => ?_
        rw [htext] at htext₁
        cases htext₁
        rw [hread] at hread₁
        cases hread₁
        exact htype
      rw [hsame] at hvalue
      rw [← contentTypeText_of_getAll htext hvalue, hread, Option.some_inj] at hread'
      have hcharset := add_charset m hlacks.2
      rw [← hread', hlacks.2] at hcharset
      cases hcharset
    refine ⟨htype, fun hlast => ?_⟩
    rw [textCharsetPostProcess_of_text hreads hon htext hread hlacks htype, Response.insertHeader_getAll, if_pos rfl,
      List.singleton_inj] at hvalue
    have htext' := congrArg Utf8.decode hvalue
    rw [Utf8.decode_utf8, Utf8.decode_utf8, Option.some_inj] at htext'
    rw [← htext', withUtf8, MediaType.read_utf8Param (ne_star_of_text hread htype) hread hlacks.subtype_ne, if_pos hlast] at hread'
    cases hread'
  · intro h
    refine ⟨fun text m htext hread hlacks => ⟨⟨withUtf8 text, ?_, ?_⟩, textCharsetPostProcess_changes ..⟩,
      fun hno => ?_, textCharsetPostProcess_idem hreads⟩
    · have htype := (h text m htext hread hlacks).1
      rw [textCharsetPostProcess_of_text hreads hon htext hread hlacks htype, Response.insertHeader_getAll,
        if_pos rfl]
    · obtain ⟨htype, hlast⟩ := h text m htext hread hlacks
      rw [withUtf8, MediaType.read_utf8Param (ne_star_of_text hread htype) hread hlacks.subtype_ne, if_neg hlast]
    · exact textCharsetPostProcess_unchanged hreads fun text m htext hread hlacks _ =>
        hno text m htext hread hlacks

/-- Crates that read media types. -/
def mimeCrates : Crates :=
  { sampleCrates with
    parseMime := fun text => (MediaType.read MediaType.tchars text).map fun m => ⟨m.type, m.essence, none, m.charset?⟩ }

theorem mimeCrates_reads : ReadsMime mimeCrates MediaType.tchars := by
  intro text
  rw [mimeCrates, Option.map_map]
  rfl

def typedResponse (contentType : String) : Response Body :=
  (Response.new .empty).insertHeader .contentType (HeaderValue.fromStatic contentType)

theorem declares_charset_plain : sampleOpts.textCharset = true ∧ TextGoesOn MediaType.tchars (typedResponse "text/plain") ∧
    DeclaresCharset mimeCrates MediaType.tchars sampleOpts (typedResponse "text/plain") := by
  have hgoes : TextGoesOn MediaType.tchars (typedResponse "text/plain") := by
    intro text m htext hread _
    have hplain : contentTypeText (typedResponse "text/plain") = some "text/plain".toList := by decide +kernel
    rw [hplain] at htext
    cases htext
    have htype : MediaType.read MediaType.tchars "text/plain".toList =
        some ⟨"text".toList, "plain".toList, []⟩ := by decide +kernel
    rw [htype] at hread
    cases hread
    exact ⟨rfl, by decide⟩
  exact ⟨rfl, hgoes, (declares_charset_iff mimeCrates_reads rfl).mpr hgoes⟩

/-- Atom feeds are listed and stay without a character set. -/
theorem feed_without_charset : LacksCharset ⟨"application".toList, "atom+xml".toList, []⟩ ∧
    sampleOpts.textCharset = true ∧ ReadsMime mimeCrates MediaType.tchars ∧
    ¬ DeclaresCharset mimeCrates MediaType.tchars sampleOpts (typedResponse "application/atom+xml") := by
  have hlacks : LacksCharset ⟨"application".toList, "atom+xml".toList, []⟩ := ⟨by decide +kernel, rfl⟩
  refine ⟨hlacks, rfl, mimeCrates_reads, fun h => ?_⟩
  have htext : contentTypeText (typedResponse "application/atom+xml") = some "application/atom+xml".toList := by
    decide +kernel
  have hread : MediaType.read MediaType.tchars "application/atom+xml".toList =
      some ⟨"application".toList, "atom+xml".toList, []⟩ := by decide +kernel
  obtain ⟨⟨text', hvalue, hread'⟩, _⟩ := h.declared _ _ htext hread hlacks
  have hsame : textCharsetPostProcess mimeCrates sampleOpts (typedResponse "application/atom+xml") =
      typedResponse "application/atom+xml" := by decide +kernel
  rw [hsame] at hvalue
  rw [← contentTypeText_of_getAll htext hvalue, hread] at hread'
  cases hread'

end WeaveGate.Handler
