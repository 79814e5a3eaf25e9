import Mathlib.Data.Finite.Defs
import WeaveGate.Static.Listing

/-!
# The archive task over a graph of directories

The loop of `archive` with its file operations as parameters, and the operations of a graph in which every link
resolves, however long the path.
-/

namespace WeaveGate.Static

open Posix (Path Name FileTree Errno)

/-! ## The loop -/

structure ArchiveCalls where
  readDir : Path → Except Errno (List Name)
  /-- Of an entry: whether it is a directory, and whether it is a link. -/
  fileType : Path → Except Errno (Bool × Bool)
  isDir : Path → Bool
  appendPathWithName : Path → Path → Except Errno TarEntry

def pendingEntriesWith (calls : ArchiveCalls) (ignoreHidden : Bool) (src : Path) : Except Errno (List Pending) := do
  let names ← calls.readDir src
  (names.filter fun name => !(ignoreHidden && isDotfile name)).mapM fun name => do
    let path := src.push [.normal name]
    let fileType ← calls.fileType path
    return { src := path, isDir := fileType.1, isSymlink := fileType.2 }

def archiveVisitWith (calls : ArchiveCalls) (job : ArchiveJob) (p : Pending) :
    Except Errno (List Pending × List TarEntry) := do
  let rel ← (Posix.Path.stripPrefix p.src job.srcPath).elim (.error .notFound) .ok
  let dest := job.path.push rel
  if p.isDir || (p.isSymlink && job.followSymlinks && calls.isDir p.src) then
    let pending ← pendingEntriesWith calls job.ignoreHidden p.src
    return (pending.reverse, if dest ≠ [] then [.dir dest] else [])
  else
    let entry ← calls.appendPathWithName p.src dest
    return ([], [entry])

def treeCalls (t : FileTree) (followSymlinks : Bool) : ArchiveCalls where
  readDir := t.readDir
  fileType := fun path => (t.symlinkMetadata path).map fun metadata => (metadata.isDir, metadata.isSymlink)
  isDir := t.isDir
  appendPathWithName := appendPathWithName t followSymlinks

theorem archiveVisit_eq (t : FileTree) (job : ArchiveJob) :
    archiveVisit t job = archiveVisitWith (treeCalls t job.followSymlinks) job := by
  have hentries : ∀ src, pendingEntries t job src =
      pendingEntriesWith (treeCalls t job.followSymlinks) job.ignoreHidden src := by
    intro src
    have hentry : ∀ path : Path, (do
          let metadata ← t.symlinkMetadata path
          return ({ src := path, isDir := metadata.isDir, isSymlink := metadata.isSymlink } : Pending)) = (do
          let fileType ← (treeCalls t job.followSymlinks).fileType path
          return ({ src := path, isDir := fileType.1, isSymlink := fileType.2 } : Pending)) := by
      intro path
      show _ = ((t.symlinkMetadata path).map _ >>= _)
      cases t.symlinkMetadata path <;> rfl
    unfold pendingEntries pendingEntriesWith
    simp only [hentry]
    rfl
  funext p
  unfold archiveVisit archiveVisitWith
  simp only [hentries]
  rfl

/-! ## Graphs of directories -/

/-- Regular files have no entries. An entry leads to a file, directly or through a link. -/
structure DirGraph where
  Node : Type
  finite : Finite Node
  entries : Node → Option (List (Name × Bool × Node))
  nodup : ∀ v es, entries v = some es → (es.map Prod.fst).Nodup
  root : Node
  root_dir : (entries root).isSome = true

namespace DirGraph

variable (g : DirGraph)

def entry? (v : g.Node) (name : Name) : Option (Bool × g.Node) := ((g.entries v).getD []).lookup name

def walk (v : g.Node) (rel : List Name) : Option g.Node :=
  rel.foldlM (fun v name => (g.entry? v name).map Prod.snd) v

/-- The names of a path below the root. -/
def rel? (srcPath path : Path) : Option (List Name) :=
  (Posix.Path.stripPrefix path srcPath).bind fun rel => rel.mapM fun c => match c with
    | .normal name => some name
    | _ => none

def node? (srcPath path : Path) : Option g.Node := (rel? srcPath path).bind (g.walk g.root)

/-- How an entry is stored is left open. -/
def calls (srcPath : Path) (store : Path → Path → Except Errno TarEntry) : ArchiveCalls where
  readDir := fun path =>
    ((g.node? srcPath path).bind g.entries).elim (.error .notADirectory) fun es => .ok (es.map Prod.fst)
  fileType := fun path =>
    match rel? srcPath path with
    | none => .error .notFound
    | some rel =>
        (rel.getLast?.bind fun name => (g.walk g.root rel.dropLast).bind fun v => g.entry? v name).elim
          (.error .notFound) fun e => .ok (!e.1 && (g.entries e.2).isSome, e.1)
  isDir := fun path => (g.node? srcPath path).any fun v => (g.entries v).isSome
  appendPathWithName := store

/-- An entry that is not left out leads from `v` to `w`. -/
def Child (ignoreHidden : Bool) (v w : g.Node) : Prop :=
  ∃ es name link, g.entries v = some es ∧ (name, link, w) ∈ es ∧ (ignoreHidden && isDotfile name) = false

end DirGraph

end WeaveGate.Static
