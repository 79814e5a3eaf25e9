import Mathlib.Data.List.Basic
import WeaveGate.Lib.Posix.FileTree

/-!
# File trees with other contents

A tree whose regular files keep their lengths but not their bytes. No call that resolves a path or asks for the
metadata of a file tells the two trees apart.
-/

namespace Posix

/-! ## Inodes -/

/-- Every byte of a regular file becomes zero. -/
def Inode.masked (i : Inode) : Inode :=
  match i.kind with
  | .file content => { i with kind := .file (List.replicate content.length 0) }
  | _ => i

namespace Inode

@[simp] theorem masked_isDir (i : Inode) : i.masked.isDir = i.isDir := by
  rcases i with ⟨_ | _ | _, _, _⟩ <;> rfl

@[simp] theorem masked_isFile (i : Inode) : i.masked.isFile = i.isFile := by
  rcases i with ⟨_ | _ | _, _, _⟩ <;> rfl

@[simp] theorem masked_isSymlink (i : Inode) : i.masked.isSymlink = i.isSymlink := by
  rcases i with ⟨_ | _ | _, _, _⟩ <;> rfl

@[simp] theorem masked_entries? (i : Inode) : i.masked.entries? = i.entries? := by
  rcases i with ⟨_ | _ | _, _, _⟩ <;> rfl

end Inode

/-! ## Trees -/

theorem lookup_map_snd {κ υ υ' : Type} [BEq κ] (f : υ → υ') (l : List (κ × υ)) (k : κ) :
    (l.map fun e => (e.1, f e.2)).lookup k = (l.lookup k).map f := by
  induction l with
  | nil => rfl
  | cons e l ih =>
      rw [List.map_cons, List.lookup_cons, List.lookup_cons, ih]
      cases k == e.1 <;> rfl

theorem wellFormed_masked {nodes : List (Canon × Inode)} (h : WellFormed nodes) :
    WellFormed (nodes.map fun e => (e.1, e.2.masked)) := by
  obtain ⟨hroot, hparent, hentries⟩ := h
  have hlookup := lookup_map_snd Inode.masked nodes
  refine ⟨?_, fun e he => ?_, fun e he => ?_⟩
  · rw [hlookup, Option.any_map]
    exact (congrArg (Option.any · _) (funext Inode.masked_isDir)).trans hroot
  · obtain ⟨e, hmem, rfl⟩ := List.mem_map.mp he
    have hentries' : (Inode.entries? ∘ Inode.masked) = Inode.entries? := funext Inode.masked_entries?
    simpa [hlookup, Option.bind_map, hentries'] using hparent e hmem
  · obtain ⟨e, hmem, rfl⟩ := List.mem_map.mp he
    have hnames := hentries e hmem
    rw [Inode.masked_entries?]
    cases hes : e.2.entries? with
    | none => rfl
    | some es =>
        rw [hes, Option.all_some, decide_eq_true_iff] at hnames
        rw [Option.all_some, decide_eq_true_iff]
        refine ⟨hnames.1, fun n hn => ?_⟩
        rw [hlookup, Option.isSome_map]
        exact hnames.2 n hn

namespace FileTree

/-- The same tree, with zeros for the content of every file. -/
def masked (t : FileTree) : FileTree :=
  { t with nodes := t.nodes.map fun e => (e.1, e.2.masked), wf := wellFormed_masked t.wf }

variable (t : FileTree)

@[simp] theorem masked_node (c : Canon) : t.masked.node c = (t.node c).map Inode.masked :=
  lookup_map_snd Inode.masked t.nodes c

theorem walkWith_masked (follow : Bool) (jump : Canon → Path → Except Errno (Nat × Canon)) (budget : Nat)
    (cur : Canon) (p : Path) : t.masked.walkWith follow jump budget cur p = t.walkWith follow jump budget cur p := by
  induction p generalizing cur with
  | nil => rfl
  | cons c cs ih =>
      simp only [walkWith, ih, masked_node]
      cases hcur : t.node cur with
      | none => rfl
      | some i =>
          simp only [Option.map_some, Inode.masked_isDir]
          cases c with
          | normal n =>
              dsimp only
              cases hn : t.node (cur ++ [n]) with
              | none => rfl
              | some j => rcases j with ⟨_ | _ | _, _, _⟩ <;> rfl
          | rootDir => rfl
          | curDir => rfl
          | parentDir => rfl

theorem walk_masked (follow : Bool) (budget : Nat) : t.masked.walk follow budget = t.walk follow budget := by
  induction budget with
  | zero => exact funext fun cur => funext fun p => walkWith_masked t follow _ 0 cur p
  | succ budget ih =>
      unfold walk
      rw [ih]
      exact funext fun cur => funext fun p => walkWith_masked t follow _ (budget + 1) cur p

@[simp] theorem resolve_masked (follow : Bool) (p : Path) : t.masked.resolve follow p = t.resolve follow p := by
  simp only [resolve, walk_masked]
  rfl

@[simp] theorem canonicalize_masked (p : Path) : t.masked.canonicalize p = t.canonicalize p :=
  resolve_masked t true p

theorem stat_masked (follow : Bool) (p : Path) :
    t.masked.stat follow p = (t.stat follow p).map Inode.masked := by
  simp only [stat, resolve_masked, masked_node]
  cases t.resolve follow p with
  | error e => rfl
  | ok c => cases h : t.node c <;> simp [h, Except.map]

@[simp] theorem metadata_masked (p : Path) : t.masked.metadata p = (t.metadata p).map Inode.masked :=
  stat_masked t true p

@[simp] theorem symlinkMetadata_masked (p : Path) :
    t.masked.symlinkMetadata p = (t.symlinkMetadata p).map Inode.masked :=
  stat_masked t false p

@[simp] theorem isFile_masked (p : Path) : t.masked.isFile p = t.isFile p := by
  unfold isFile
  rw [metadata_masked]
  cases t.metadata p with
  | error e => rfl
  | ok i => exact Inode.masked_isFile i

end FileTree

end Posix
