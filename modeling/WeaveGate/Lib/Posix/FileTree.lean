import WeaveGate.Lib.Posix.Path

/-!
# File trees and path resolution

A file tree maps canonical paths (the names from the root) to inodes. Resolution walks a path one component
at a time from a directory, expands symbolic links as it meets them and gives up with `filesystemLoop` after
`symloopMax` of them. All other calls are read off the inode a path resolves to.
-/

namespace Posix

/-- The names from the root to a file, with no link on the way. -/
abbrev Canon := List Name

def canonPath (c : Canon) : Path := .rootDir :: c.map .normal

inductive Kind where
  | file (content : Octets)
  /-- `size` is what `stat` reports for the directory itself. -/
  | dir (entries : List Name) (size : Nat)
  | symlink (target : Path)
  /-- A pipe, a socket or a device. -/
  | special
deriving DecidableEq

/-- `mtime` counts nanoseconds from the Unix epoch. -/
structure Inode where
  kind : Kind
  mtime : Int
  blksize : Nat
deriving DecidableEq

inductive Errno where
  | notFound
  | permissionDenied
  | notADirectory
  | filesystemLoop
  | other
deriving DecidableEq

def Inode.isDir (i : Inode) : Bool := match i.kind with | .dir _ _ => true | _ => false
def Inode.isFile (i : Inode) : Bool := match i.kind with | .file _ => true | _ => false
def Inode.isSymlink (i : Inode) : Bool := match i.kind with | .symlink _ => true | _ => false

def Inode.entries? (i : Inode) : Option (List Name) :=
  match i.kind with
  | .dir es _ => some es
  | _ => none

/-- The size `stat` reports. A link is as long as its target. -/
def Inode.size (i : Inode) : Nat :=
  match i.kind with
  | .file content => content.length
  | .dir _ size => size
  | .symlink target => target.length
  | .special => 0

/-- The root is a directory, every other file is an entry of a directory, and the entries of a directory
are files with different names. -/
def WellFormed (nodes : List (Canon × Inode)) : Prop :=
  (nodes.lookup []).any Inode.isDir = true ∧
  (∀ e ∈ nodes, e.1 = [] ∨ e.1.getLast?.any (fun n =>
    ((nodes.lookup e.1.dropLast).bind Inode.entries?).any (n ∈ ·)) = true) ∧
  (∀ e ∈ nodes, e.2.entries?.all (fun es =>
    es.Nodup ∧ ∀ n ∈ es, (nodes.lookup (e.1 ++ [n])).isSome) = true)

instance (nodes : List (Canon × Inode)) : Decidable (WellFormed nodes) :=
  inferInstanceAs (Decidable (_ ∧ _ ∧ _))

structure FileTree where
  nodes : List (Canon × Inode)
  /-- The working directory of the process. -/
  cwd : Canon
  /-- How many links one resolution may follow. -/
  symloopMax : Nat
  wf : WellFormed nodes

namespace FileTree

variable (t : FileTree)

def node (p : Canon) : Option Inode := t.nodes.lookup p

/-- Resolution with the links that may still be followed given by `jump`. With `follow` off, a link in the
last place is not followed. The result is the number of links left and where the walk ended. -/
def walkWith (follow : Bool) (jump : Canon → Path → Except Errno (Nat × Canon)) (budget : Nat) :
    Canon → Path → Except Errno (Nat × Canon)
  | cur, [] => .ok (budget, cur)
  | cur, c :: cs =>
      match c with
      | .rootDir => walkWith follow jump budget [] cs
      | c =>
          match t.node cur with
          | none => .error .notFound
          | some i =>
              if i.isDir then
                match c with
                | .parentDir => walkWith follow jump budget cur.dropLast cs
                | .normal n =>
                    match t.node (cur ++ [n]) with
                    | none => .error .notFound
                    | some ⟨.symlink target, _, _⟩ =>
                        if !follow && cs.isEmpty then .ok (budget, cur ++ [n])
                        else jump cur (target ++ cs)
                    | some _ => walkWith follow jump budget (cur ++ [n]) cs
                | _ => walkWith follow jump budget cur cs
              else .error .notADirectory

def walk (follow : Bool) : Nat → Canon → Path → Except Errno (Nat × Canon)
  | 0 => t.walkWith follow (fun _ _ => .error .filesystemLoop) 0
  | budget + 1 => t.walkWith follow (walk follow budget) (budget + 1)

/-- The canonical path a path leads to. The empty path leads nowhere. -/
def resolve (follow : Bool) (p : Path) : Except Errno Canon :=
  if p = [] then .error .notFound
  else (t.walk follow t.symloopMax t.cwd p).map Prod.snd

def stat (follow : Bool) (p : Path) : Except Errno Inode :=
  match t.resolve follow p with
  | .error e => .error e
  | .ok c => (t.node c).elim (.error .notFound) .ok

/-- `realpath`. -/
def canonicalize (p : Path) : Except Errno Canon := t.resolve true p

def metadata (p : Path) : Except Errno Inode := t.stat true p

/-- `lstat`. -/
def symlinkMetadata (p : Path) : Except Errno Inode := t.stat false p

/-- An open file: the path it was opened by, where that led, and the inode. -/
structure OpenFile where
  path : Path
  canon : Canon
  inode : Inode
deriving DecidableEq

def «open» (p : Path) : Except Errno OpenFile :=
  match t.resolve true p with
  | .error e => .error e
  | .ok c => (t.node c).elim (.error .notFound) fun i => .ok ⟨p, c, i⟩

/-- The whole content of an open file. A directory cannot be read, and what a special file gives is not known. -/
def OpenFile.content (f : OpenFile) : Option Octets :=
  match f.inode.kind with
  | .file content => some content
  | _ => none

def readDir (p : Path) : Except Errno (List Name) :=
  match t.metadata p with
  | .error e => .error e
  | .ok i => i.entries?.elim (.error .notADirectory) .ok

def «exists» (p : Path) : Bool := (t.metadata p).toOption.isSome
def isDir (p : Path) : Bool := (t.metadata p).toOption.any Inode.isDir
def isFile (p : Path) : Bool := (t.metadata p).toOption.any Inode.isFile

def isSymlink (p : Path) : Bool := (t.symlinkMetadata p).toOption.any Inode.isSymlink

end FileTree

end Posix
