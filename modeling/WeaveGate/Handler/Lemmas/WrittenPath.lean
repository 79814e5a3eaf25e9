import WeaveGate.Handler.PostProcess
import WeaveGate.Static.Lemmas.Access

/-!
# Paths as they are written

A path that is pushed onto the base as it is, and the names it has for the static handler, which decodes it.
-/

namespace WeaveGate.Handler

open Http
open Posix (Octets Path FileTree Name)
open Static (decodedNames sanitizePath)

/-! ## Decoding name by name -/

/-- The names that the static handler makes of a path whose components are not decoded yet. -/
def decodedComponents (p : Path) : List Name :=
  p.flatMap fun c => match c with
    | .normal name => Posix.Path.names (Percent.decode name)
    | _ => []

theorem names_decode_append_slash (x y : Octets) : Posix.Path.names (Percent.decode (x ++ Posix.slash :: y)) =
    Posix.Path.names (Percent.decode x) ++ Posix.Path.names (Percent.decode y) := by
  rw [Percent.decode_append_cons (by decide), Posix.Path.names_append_slash]

theorem names_decode_eq_flatMap (text : Octets) : Posix.Path.names (Percent.decode text) =
    (text.splitOn Posix.slash).flatMap fun seg => Posix.Path.names (Percent.decode seg) := by
  by_cases hmem : Posix.slash ∈ text
  · obtain ⟨x, y, hxy⟩ := List.append_of_mem hmem
    have hx : x.length < text.length := by rw [hxy, List.length_append, List.length_cons]; omega
    have hy : y.length < text.length := by rw [hxy, List.length_append, List.length_cons]; omega
    rw [hxy, names_decode_append_slash, names_decode_eq_flatMap x, names_decode_eq_flatMap y,
      List.splitOn_append_cons_self, List.flatMap_append]
  · rw [List.splitOn_eq_singleton hmem, List.flatMap_singleton]
termination_by text.length

theorem decodedComponents_append (p q : Path) :
    decodedComponents (p ++ q) = decodedComponents p ++ decodedComponents q := List.flatMap_append

theorem decodedComponents_component? (seg : Octets) :
    decodedComponents (Posix.Path.component? seg).toList = Posix.Path.names (Percent.decode seg) := by
  unfold Posix.Path.component?
  by_cases hdot : seg = [] ∨ seg = [Posix.dot]
  · rw [if_pos hdot]
    rcases hdot with rfl | rfl <;> decide
  · rw [if_neg hdot]
    by_cases hdots : seg = [Posix.dot, Posix.dot]
    · rw [if_pos hdots, hdots]
      decide
    · rw [if_neg hdots]
      exact List.flatMap_singleton _ _

theorem decodedComponents_parse (text : Octets) :
    decodedComponents (Posix.Path.parse text) = Posix.Path.names (Percent.decode text) := by
  have hcomps : decodedComponents ((text.splitOn Posix.slash).filterMap Posix.Path.component?) =
      Posix.Path.names (Percent.decode text) := by
    rw [names_decode_eq_flatMap]
    induction text.splitOn Posix.slash with
    | nil => rfl
    | cons seg segs ih =>
        rw [List.flatMap_cons, ← ih, ← decodedComponents_component?, ← decodedComponents_append]
        cases h : Posix.Path.component? seg with
        | none => rw [List.filterMap_cons_none h]; rfl
        | some c => rw [List.filterMap_cons_some h]; rfl
  unfold Posix.Path.parse
  dsimp only
  split
  · exact hcomps
  · split <;> exact hcomps

theorem decodedComponents_filter (p : Path) : decodedComponents (p.filter (· ≠ .curDir)) = decodedComponents p := by
  induction p with
  | nil => rfl
  | cons c p ih =>
      cases c with
      | curDir => exact ih
      | rootDir => exact ih
      | parentDir => exact ih
      | normal name => exact congrArg (_ ++ ·) ih

/-! ## Texts of paths -/

/-- Every name is the UTF-8 of a text. -/
def IsText (p : Path) : Prop := ∀ name, .normal name ∈ p → ∃ s : Str, name = Posix.utf8 s

theorem IsText.append_suffix {init : Path} {name suffix : Name} (h : IsText (init ++ [.normal name]))
    (hsuffix : ∃ s : Str, suffix = Posix.utf8 s) : IsText (init ++ [.normal (name ++ suffix)]) := by
  intro name' hname'
  rcases List.mem_append.mp hname' with hname' | hname'
  · exact h name' (List.mem_append_left _ hname')
  · cases List.mem_singleton.mp hname'
    obtain ⟨s, rfl⟩ := h name (List.mem_append_right _ (List.mem_singleton.mpr rfl))
    obtain ⟨s', rfl⟩ := hsuffix
    exact ⟨s ++ s', (Utf8.utf8_append s s').symm⟩

theorem isText_parse (s : Str) : IsText (Posix.Path.parse (Posix.utf8 s)) := by
  intro name hname
  have hmem : .normal name ∈ ((Posix.utf8 s).splitOn Posix.slash).filterMap Posix.Path.component? := by
    unfold Posix.Path.parse at hname
    dsimp only at hname
    split at hname
    · simpa using hname
    · split at hname
      · simpa using hname
      · exact hname
  obtain ⟨seg, hseg, hcomp⟩ := List.mem_filterMap.mp hmem
  have hsplit := Utf8.splitOn_utf8 (a := '/') (by decide) s
  rw [show UInt8.ofNat '/'.toNat = Posix.slash from rfl] at hsplit
  rw [hsplit] at hseg
  obtain ⟨piece, _, rfl⟩ := List.mem_map.mp hseg
  refine ⟨piece, ?_⟩
  unfold Posix.Path.component? at hcomp
  split at hcomp
  · cases hcomp
  · split at hcomp
    · cases hcomp
    · cases hcomp
      rfl

/-- The text of a path is read by the static handler as the names of its components. -/
theorem relativeText_spec {p : Path} (h : IsText p) :
    ∃ text, relativeText p = some text ∧ decodedNames text = decodedComponents p ∧
      Posix.utf8 text = [Posix.slash].intercalate (p.map componentText) := by
  have hpiece : ∀ c ∈ p, ∃ piece : Str, componentText c = Posix.utf8 piece ∧
      decodedNames piece = decodedComponents [c] := by
    intro c hc
    cases c with
    | rootDir => exact ⟨['/'], rfl, rfl⟩
    | curDir => exact ⟨['.'], rfl, rfl⟩
    | parentDir => exact ⟨['.', '.'], rfl, rfl⟩
    | normal name =>
        obtain ⟨s, rfl⟩ := h name hc
        exact ⟨s, rfl, (List.append_nil _).symm⟩
  have hjoin : ∃ text : Str, [Posix.slash].intercalate (p.map componentText) = Posix.utf8 text ∧
      decodedNames text = decodedComponents p := by
    clear h
    induction p with
    | nil => exact ⟨[], rfl, rfl⟩
    | cons c p ih =>
        obtain ⟨piece, hc, hnames⟩ := hpiece c List.mem_cons_self
        obtain ⟨text, htext, hrest⟩ := ih fun d hd => hpiece d (List.mem_cons_of_mem _ hd)
        cases p with
        | nil => exact ⟨piece, by simpa using hc, hnames⟩
        | cons d p =>
            refine ⟨piece ++ '/' :: text, ?_, ?_⟩
            · rw [List.map_cons] at htext
              rw [List.map_cons, List.map_cons, List.intercalate_cons_cons, htext, hc, Utf8.utf8_append]
              simp only [List.append_assoc]
              rfl
            · rw [Static.decodedNames_append_slash, hnames, hrest]
              exact (decodedComponents_append [c] (d :: p)).symm
  obtain ⟨text, htext, hnames⟩ := hjoin
  exact ⟨text, by rw [relativeText, htext, Utf8.decode_utf8], hnames, htext.symm⟩

theorem getLast?_intercalate {seg : Octets} (hseg : seg ≠ []) (segs : List Octets) :
    ([Posix.slash].intercalate (segs ++ [seg])).getLast? = seg.getLast? := by
  have hlast : seg.getLast? = some (seg.getLast hseg) := List.getLast?_eq_some_getLast hseg
  induction segs with
  | nil => simp
  | cons first segs ih =>
      cases segs with
      | nil =>
          rw [List.cons_append, List.nil_append, List.intercalate_cons_cons, List.intercalate_singleton,
            List.getLast?_append, hlast]
          rfl
      | cons next segs =>
          rw [List.cons_append] at ih
          rw [List.cons_append, List.cons_append, List.intercalate_cons_cons, List.getLast?_append, ih, hlast]
          rfl

/-- A path does not end in a slash when its last name does not. -/
theorem endsWith_relativeText {text : Str} {p : Path} {name : Name} (hne : name ≠ [])
    (hlast : name.getLast? ≠ some Posix.slash)
    (h : Posix.utf8 text = [Posix.slash].intercalate ((p ++ [Posix.Component.normal name]).map componentText)) :
    Text.endsWith ('/' :: text) '/' = false := by
  rw [List.map_append] at h
  rw [← getLast?_intercalate hne (p.map componentText), show [name] = [Posix.Component.normal name].map componentText
    from rfl, ← h] at hlast
  rw [Text.endsWith, decide_eq_false_iff_not]
  intro hslash
  cases text with
  | nil =>
      have hlength := congrArg List.getLast? h
      rw [show [Posix.Component.normal name].map componentText = [name] from rfl, getLast?_intercalate hne] at hlength
      exact hne (List.getLast?_eq_none_iff.mp hlength.symm)
  | cons c text =>
      rw [List.getLast?_cons_cons] at hslash
      obtain ⟨before, hbefore⟩ := List.getLast?_eq_some_iff.mp hslash
      rw [hbefore, Utf8.utf8_append] at hlast
      exact hlast (by rw [List.getLast?_append]; rfl)

/-! ## The written path -/

/-- The path that `pre_process` looks beside. -/
def writtenPath (basePath : Path) (uriPath : Str) : Path :=
  let sanitized := Text.trimStartMatches '/' uriPath
  if sanitized = [] then basePath else basePath.push (Posix.Path.parse (Posix.utf8 sanitized))

theorem not_absolute_parse_trimStartMatches (s : Str) :
    (Posix.Path.parse (Posix.utf8 (Text.trimStartMatches '/' s))).head? ≠ some .rootDir := by
  have hhead : (Posix.utf8 (Text.trimStartMatches '/' s)).head? ≠ some Posix.slash := by
    have hfirst := List.head?_dropWhile_not (· = '/') s
    unfold Text.trimStartMatches
    cases hs : s.dropWhile (· = '/') with
    | nil => simp [Posix.utf8]
    | cons c rest =>
        rw [hs] at hfirst
        have hne : c ≠ '/' := by simpa using hfirst
        intro habs
        obtain ⟨b, conts, hbytes, _⟩ := Utf8.next_utf8EncodeChar c
        have hb : b = Posix.slash := by simpa [Posix.utf8, hbytes] using habs
        have hmem := Utf8.toNat_of_mem_utf8EncodeChar (c := c) (b := b) (by rw [hbytes]; exact List.mem_cons_self)
        rw [hb] at hmem
        exact hne (Char.toNat_inj.mp (hmem.resolve_right (by decide)).symm)
  have hcomp : ∀ seg, Posix.Path.component? seg ≠ some .rootDir := by
    intro seg
    unfold Posix.Path.component?
    split
    · simp
    · split <;> simp
  have hcomps : (((Posix.utf8 (Text.trimStartMatches '/' s)).splitOn Posix.slash).filterMap
      Posix.Path.component?).head? ≠ some .rootDir := by
    intro habs
    obtain ⟨seg, _, hseg⟩ := List.mem_filterMap.mp (List.mem_of_head? habs)
    exact hcomp seg hseg
  unfold Posix.Path.parse
  dsimp only
  rw [if_neg hhead]
  split
  · simp
  · exact hcomps

theorem writtenPath_spec (basePath : Path) (uriPath : Str) : ∃ rel, writtenPath basePath uriPath = basePath ++ rel ∧
    IsText rel ∧ decodedComponents rel = decodedNames uriPath := by
  unfold writtenPath
  dsimp only
  rw [← Static.decodedNames_trimStartMatches]
  split
  case isTrue hnil => exact ⟨[], (List.append_nil _).symm, fun _ h => (by cases h), by rw [hnil]; rfl⟩
  case isFalse hne =>
      have htext := isText_parse (Text.trimStartMatches '/' uriPath)
      have hnames := decodedComponents_parse (Posix.utf8 (Text.trimStartMatches '/' uriPath))
      unfold Posix.Path.push
      split
      case isTrue habs => exact absurd habs (not_absolute_parse_trimStartMatches uriPath)
      case isFalse =>
          split
          case isTrue hbase => exact ⟨_, by rw [hbase]; rfl, htext, hnames⟩
          case isFalse =>
              refine ⟨_, rfl, fun name hname => htext name (List.mem_of_mem_filter hname), ?_⟩
              rw [decodedComponents_filter, hnames]
              rfl

end WeaveGate.Handler
