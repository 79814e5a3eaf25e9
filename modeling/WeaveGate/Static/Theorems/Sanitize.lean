import WeaveGate.Static.Lemmas.Access
import WeaveGate.Static.Sanitize

/-!
# What sanitizing leaves of a path

A sanitized path is its base, followed by the ordinary components of the decoded tail.
-/

namespace WeaveGate.Static

open Posix (Octets Name IsEntryName)
open Posix.Path (normalSegments)

variable {base : Octets} {tail : Str}

/-! ## Texts and components -/

/-- The check of a component never fails, and only ordinary components are pushed. -/
theorem foldl_pushComponent {comps : Posix.Path} (h : ∀ name ∈ comps.filterMap Posix.Path.name?, IsEntryName name)
    (base : Octets) :
    comps.foldl pushComponent base = (comps.filterMap Posix.Path.name?).foldl Posix.PathBuf.push base := by
  induction comps generalizing base with
  | nil => rfl
  | cons c comps ih =>
      cases c with
      | normal name =>
          have hcons : (Posix.Component.normal name :: comps).filterMap Posix.Path.name? =
              name :: comps.filterMap Posix.Path.name? := List.filterMap_cons_some rfl
          rw [hcons, List.forall_mem_cons] at h
          have hpush : pushComponent base (.normal name) = Posix.PathBuf.push base name := by
            rw [pushComponent, Posix.Path.parse_entry h.1]
            rfl
          rw [List.foldl_cons, hpush, hcons, List.foldl_cons, ih h.2]
      | rootDir => exact ih h base
      | curDir => exact ih h base
      | parentDir => exact ih h base

theorem sanitizePathBuf_eq (base : Octets) (tail : Str) :
    sanitizePathBuf base tail = (decodedNames tail).foldl Posix.PathBuf.push base := by
  have hnames : (Posix.Path.parse (decodeTailText tail)).filterMap Posix.Path.name? = decodedNames tail := by
    rw [Posix.Path.names_parse, ← decodedNames_trimStartMatches]
    rfl
  rw [sanitizePathBuf, foldl_pushComponent, hnames]
  rw [hnames, decodedNames, Posix.Path.names_eq_normalSegments]
  exact fun name => Posix.Path.mem_normalSegments

theorem parse_foldl_push {names : List Name} (h : ∀ name ∈ names, IsEntryName name) (base : Octets) :
    Posix.Path.parse (names.foldl Posix.PathBuf.push base) = Posix.Path.parse base ++ names.map .normal := by
  induction names generalizing base with
  | nil => exact (List.append_nil _).symm
  | cons name names ih =>
      rw [List.forall_mem_cons] at h
      rw [List.foldl_cons, ih h.2, Posix.PathBuf.parse_push h.1, List.append_assoc]
      rfl

theorem isPrefix_foldl_push {names : List Name} (h : ∀ name ∈ names, IsEntryName name) (base : Octets) :
    base <+: names.foldl Posix.PathBuf.push base := by
  induction names generalizing base with
  | nil => exact List.prefix_refl base
  | cons name names ih =>
      rw [List.forall_mem_cons] at h
      have hhead : name.head? ≠ some Posix.slash := fun hhead => h.1.2.2.2 (List.mem_of_mem_head? hhead)
      exact (Posix.PathBuf.isPrefix_push hhead base).trans (ih h.2 _)

theorem isEntryName_of_mem_decodedNames {name : Name} (h : name ∈ decodedNames tail) : IsEntryName name := by
  rw [decodedNames, Posix.Path.names_eq_normalSegments] at h
  exact Posix.Path.mem_normalSegments h

/-- On the components of its paths the function is `sanitizePath`. -/
theorem parse_sanitizePathBuf (base : Octets) (tail : Str) :
    Posix.Path.parse (sanitizePathBuf base tail) = sanitizePath (Posix.Path.parse base) tail := by
  rw [sanitizePathBuf_eq, parse_foldl_push fun _ => isEntryName_of_mem_decodedNames, sanitizePath_eq]

/-! ## Tails that say the same -/

theorem sanitizePathBuf_congr {tail' : Str} (h : decodedNames tail = decodedNames tail') (base : Octets) :
    sanitizePathBuf base tail = sanitizePathBuf base tail' := by
  rw [sanitizePathBuf_eq, sanitizePathBuf_eq, h]

theorem decodedNames_slash (tail : Str) : decodedNames ('/' :: tail) = decodedNames tail :=
  decodedNames_append_slash [] tail

theorem decodedNames_dot (tail : Str) : decodedNames ('.' :: '/' :: tail) = decodedNames tail :=
  decodedNames_append_slash ['.'] tail

/-- Names that are written with every percent sign and every slash encoded. -/
def encodedTail (keep : UInt8 → Bool) (names : List Name) : Str :=
  List.intercalate ['/'] (names.map (Percent.encode keep))

theorem decodedNames_encodedTail {keep : UInt8 → Bool} (hkeep : ∀ b, keep b = true → b ≠ Percent.sign ∧ b.toNat < 0x80)
    {names : List Name} (h : ∀ name ∈ names, IsEntryName name) : decodedNames (encodedTail keep names) = names := by
  have hname : ∀ name, IsEntryName name → decodedNames (Percent.encode keep name) = [name] := by
    intro name hname
    have hdecode := Percent.decode_encode hkeep name []
    rw [List.append_nil, Percent.decode, List.append_nil] at hdecode
    rw [decodedNames, hdecode, Posix.Path.names_entry hname]
  induction names with
  | nil => rfl
  | cons name names ih =>
      rw [List.forall_mem_cons] at h
      cases names with
      | nil =>
          have hone : encodedTail keep [name] = Percent.encode keep name := by simp [encodedTail, List.intercalate]
          rw [hone, hname name h.1]
      | cons next names =>
          have htail : encodedTail keep (name :: next :: names) =
              Percent.encode keep name ++ '/' :: encodedTail keep (next :: names) := by
            simp [encodedTail, List.intercalate_cons_cons]
          rw [htail, decodedNames_append_slash, hname name h.1, ih h.2]
          rfl

/-! ## Sanitized paths -/

/-- What the tail adds to the base. The last fields say which tails add the same. -/
structure Sanitizes (base : Octets) (tail : Str) (path : Octets) : Prop where
  components : Posix.Path.parse path = Posix.Path.parse base ++
    (normalSegments (Percent.decode (Posix.utf8 (tail.dropWhile (· = '/'))))).map .normal
  startsWith : base <+: path
  parents : (Posix.Path.parse path).count .parentDir = (Posix.Path.parse base).count .parentDir
  slashes : ∀ a b, tail = a ++ '/' :: b → sanitizePathBuf base (a ++ '/' :: '/' :: b) = path
  dots : ∀ a b, tail = a ++ '/' :: b → sanitizePathBuf base (a ++ '/' :: '.' :: '/' :: b) = path
  firstDot : sanitizePathBuf base ('.' :: '/' :: tail) = path
  lastDot : sanitizePathBuf base (tail ++ ['/', '.']) = path
  /-- Each name is decoded once. -/
  once : ∀ keep names, (∀ b, keep b = true → b ≠ Percent.sign ∧ b.toNat < 0x80) →
    (∀ name ∈ names, IsEntryName name) → tail = encodedTail keep names →
    Posix.Path.parse path = Posix.Path.parse base ++ names.map .normal

theorem sanitize_path_sanitizes (base : Octets) (tail : Str) :
    Sanitizes base tail (sanitizePathBuf base tail) ∧
      Posix.Path.parse (sanitizePathBuf base tail) = sanitizePath (Posix.Path.parse base) tail := by
  have hcomponents : Posix.Path.parse (sanitizePathBuf base tail) =
      Posix.Path.parse base ++ (decodedNames tail).map .normal := by
    rw [parse_sanitizePathBuf, sanitizePath_eq]
  refine ⟨?_, parse_sanitizePathBuf base tail⟩
  constructor
  · have hnames : normalSegments (Percent.decode (Posix.utf8 (tail.dropWhile (· = '/')))) = decodedNames tail := by
      rw [← Posix.Path.names_eq_normalSegments, ← decodedNames_trimStartMatches]
      rfl
    rw [hcomponents, hnames]
  · rw [sanitizePathBuf_eq]
    exact isPrefix_foldl_push (fun _ => isEntryName_of_mem_decodedNames) base
  · have hnone : ((decodedNames tail).map Posix.Component.normal).count .parentDir = 0 := by
      simp [List.count_eq_zero]
    rw [hcomponents, List.count_append, hnone, Nat.add_zero]
  · rintro a b rfl
    refine sanitizePathBuf_congr ?_ base
    rw [decodedNames_append_slash, decodedNames_slash, decodedNames_append_slash]
  · rintro a b rfl
    refine sanitizePathBuf_congr ?_ base
    rw [decodedNames_append_slash, decodedNames_dot, decodedNames_append_slash]
  · exact sanitizePathBuf_congr (decodedNames_dot tail) base
  · refine sanitizePathBuf_congr ?_ base
    rw [decodedNames_append_slash]
    exact List.append_nil _
  · rintro keep names hkeep hnames rfl
    rw [hcomponents, decodedNames_encodedTail hkeep hnames]

example : sanitizePathBuf (Posix.utf8 "/srv".toList) "//%252e%252e/../%2E/a%2Fb".toList =
    Posix.utf8 "/srv/%2e%2e/a/b".toList := by decide

end WeaveGate.Static
