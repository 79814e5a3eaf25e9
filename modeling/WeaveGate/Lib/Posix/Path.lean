import Mathlib.Data.List.Basic

/-!
# Unix paths as sequences of components

A path is kept as the components a program sees when it iterates over it: repeated separators and inner
`.` segments are gone, `..` stays. The root is a component of its own and only ever comes first.
-/

namespace Posix

/-- Raw bytes: file names, file contents, header values. -/
abbrev Octets := List UInt8

-- a name for it, so that every definition that looks for bytes in a list has the same instance
instance : LawfulBEq Octets := inferInstance

abbrev Name := Octets

inductive Component where
  | rootDir
  | curDir
  | parentDir
  | normal (name : Name)
deriving DecidableEq, Repr

/-- A path, absolute when it starts with `rootDir`. -/
abbrev Path := List Component

def utf8 (s : List Char) : Octets := s.flatMap String.utf8EncodeChar

def slash : UInt8 := 0x2F
def dot : UInt8 := 0x2E

namespace Path

/-- The component a segment between two separators stands for, none for an empty segment and for `.`. -/
def component? (seg : Octets) : Option Component :=
  if seg = [] ∨ seg = [dot] then none
  else if seg = [dot, dot] then some .parentDir
  else some (.normal seg)

/-- The components of a path text. A leading `.` of a relative path is kept. -/
def parse (text : Octets) : Path :=
  let segs := text.splitOn slash
  let comps := segs.filterMap component?
  if text.head? = some slash then .rootDir :: comps
  else if segs.head? = some [dot] then .curDir :: comps
  else comps

/-- `q` appended to `p`, or `q` itself when it is absolute. -/
def push (p q : Path) : Path :=
  if q.head? = some .rootDir then q
  else if p = [] then q
  else p ++ q.filter (· ≠ .curDir)

def parent (p : Path) : Option Path :=
  match p.getLast? with
  | none => none
  | some .rootDir => none
  | some _ => some p.dropLast

def pop (p : Path) : Path := (parent p).getD p

def fileName (p : Path) : Option Name :=
  match p.getLast? with
  | some (.normal n) => some n
  | _ => none

/-- Replaces the file name, or appends one to a path that has none. -/
def setFileName (p : Path) (n : Name) : Path :=
  match fileName p with
  | some _ => push (pop p) [.normal n]
  | none => push p [.normal n]

/-- The last dot that does not start the name, and what follows it, replaced by the extension. -/
def nameWithExtension (name ext : Octets) : Octets :=
  let stem := (name.reverse.dropWhile (· ≠ dot)).tail.reverse
  if stem = [] then name ++ dot :: ext else stem ++ dot :: ext

def withExtension (p : Path) (ext : Octets) : Path :=
  (fileName p).elim p fun name => setFileName p (nameWithExtension name ext)

def stripPrefix (p base : Path) : Option Path := p.dropPrefix? base

theorem push_normal (p : Path) (n : Name) : push p [.normal n] = p ++ [.normal n] := by
  by_cases hp : p = []
  · subst p; simp [push]
  · simp [push, hp]

@[simp] theorem fileName_append_normal (p : Path) (n : Name) : fileName (p ++ [.normal n]) = some n := by
  simp [fileName]

@[simp] theorem pop_append_normal (p : Path) (n : Name) : pop (p ++ [.normal n]) = p := by
  simp [pop, parent]

theorem setFileName_append_normal (p : Path) (n m : Name) :
    setFileName (p ++ [.normal n]) m = p ++ [.normal m] := by
  simp [setFileName, push_normal]

theorem eq_pop_append_of_fileName {p : Path} {n : Name} (h : fileName p = some n) :
    p = pop p ++ [.normal n] := by
  unfold fileName at h
  split at h
  · rename_i m hm
    cases h
    obtain ⟨q, rfl⟩ := List.getLast?_eq_some_iff.mp hm
    simp [pop, parent]
  · cases h

theorem pop_isPrefix (p : Path) : pop p <+: p := by
  unfold pop parent
  split
  · exact List.prefix_refl p
  · exact List.prefix_refl p
  · exact List.dropLast_prefix p

theorem stripPrefix_eq_some {p base rel : Path} : stripPrefix p base = some rel ↔ p = base ++ rel := by
  rw [stripPrefix, List.dropPrefix?_eq_some_iff]
  constructor
  · rintro ⟨q, rfl, hq⟩
    rw [beq_iff_eq.mp hq]
  · rintro rfl
    exact ⟨base, rfl, beq_self_eq_true base⟩

end Path

end Posix
