import Mathlib.Data.List.Induction
import WeaveGate.Lib.Posix.Lemmas.Walk

/-!
# Canonical paths

Where a path leads there is a file, and its canonical path leads there without following a link.
-/

namespace Posix.FileTree

variable {t : FileTree}

theorem node_root : ∃ i, t.node [] = some i ∧ i.isDir = true := by
  obtain ⟨i, hi, hdir⟩ := Option.any_eq_true _ _ |>.mp t.wf.1
  exact ⟨i, hi, hdir⟩

theorem mem_of_node {c : Canon} {i : Inode} (h : t.node c = some i) : (c, i) ∈ t.nodes := by
  obtain ⟨l₁, l₂, hnodes, _⟩ := List.lookup_eq_some_iff.mp h
  rw [hnodes]
  simp

theorem isDir_of_entries {i : Inode} {names : List Name} (h : i.entries? = some names) : i.isDir = true := by
  unfold Inode.entries? at h
  unfold Inode.isDir
  split at h
  · rfl
  · cases h

/-- The directory of a file lists it. -/
theorem node_parent {c : Canon} {n : Name} {i : Inode} (h : t.node (c ++ [n]) = some i) :
    ∃ d names, t.node c = some d ∧ d.isDir = true ∧ d.entries? = some names ∧ n ∈ names := by
  rcases t.wf.2.1 _ (mem_of_node h) with hnil | hparent
  · simp at hnil
  · obtain ⟨name, hname, hlists⟩ := (Option.any_eq_true _ _).mp hparent
    obtain ⟨names, hentries, hmem⟩ := (Option.any_eq_true _ _).mp hlists
    rw [List.getLast?_concat, Option.some.injEq] at hname
    rw [List.dropLast_concat] at hentries
    obtain ⟨d, hd, hnames⟩ := Option.bind_eq_some_iff.mp hentries
    exact ⟨d, names, hd, isDir_of_entries hnames, hnames, by simpa [hname] using hmem⟩

theorem node_dropLast {c : Canon} {i : Inode} (h : t.node c = some i) : ∃ j, t.node c.dropLast = some j := by
  rcases List.eq_nil_or_concat c with rfl | ⟨c, n, rfl⟩
  · exact ⟨i, h⟩
  · rw [List.concat_eq_append] at h ⊢
    obtain ⟨d, _, hd, _⟩ := node_parent h
    exact ⟨d, by rwa [List.dropLast_concat]⟩

/-- A directory lists the next name on the way to every file below it. -/
theorem node_below {c x : Canon} {n : Name} {i : Inode} (h : t.node (c ++ n :: x) = some i) :
    ∃ d names, t.node c = some d ∧ d.isDir = true ∧ d.entries? = some names ∧ n ∈ names := by
  induction x using List.reverseRecOn generalizing i with
  | nil => exact node_parent h
  | append_singleton x m ih =>
      rw [← List.cons_append, ← List.append_assoc] at h
      obtain ⟨d, _, hd, _⟩ := node_parent h
      exact ih hd

theorem nodup_entries {c : Canon} {i : Inode} {names : List Name} (h : t.node c = some i)
    (hentries : i.entries? = some names) : names.Nodup := by
  have hwf := t.wf.2.2 _ (mem_of_node h)
  rw [hentries] at hwf
  exact (of_decide_eq_true hwf).1

/-! ## Where walks end -/

theorem walkWith_node {follow : Bool} {jump : Canon → Path → Except Errno (Nat × Canon)} {budget : Nat}
    (hjump : ∀ cur xs r, (∃ i, t.node cur = some i) → jump cur xs = .ok r → ∃ i, t.node r.2 = some i)
    {cur : Canon} {p : Path} {r : Nat × Canon} (hcur : p ≠ [] ∨ ∃ i, t.node cur = some i)
    (h : t.walkWith follow jump budget cur p = .ok r) : ∃ i, t.node r.2 = some i := by
  induction p generalizing cur with
  | nil =>
      rw [walkWith, Except.ok.injEq] at h
      rw [← h]
      exact hcur.resolve_left (by simp)
  | cons c cs ih =>
      have hrest : ∀ {cur'}, (∃ i, t.node cur' = some i) → t.walkWith follow jump budget cur' cs = .ok r →
          ∃ i, t.node r.2 = some i := fun hcur' => ih (.inr hcur')
      cases hnode : t.node cur with
      | none =>
          cases c with
          | rootDir => exact hrest (node_root.imp fun _ hi => hi.1) h
          | curDir | parentDir | normal => simp [walkWith, hnode] at h
      | some i =>
          have hparent : ∃ j, t.node cur.dropLast = some j := node_dropLast hnode
          cases c with
          | rootDir => exact hrest (node_root.imp fun _ hi => hi.1) h
          | curDir =>
              simp only [walkWith, hnode] at h
              split at h
              · exact hrest ⟨i, hnode⟩ h
              · cases h
          | parentDir =>
              simp only [walkWith, hnode] at h
              split at h
              · exact hrest hparent h
              · cases h
          | normal n =>
              simp only [walkWith, hnode] at h
              split at h
              · split at h
                · cases h
                · rename_i target _ _ hlink
                  split at h
                  · rw [Except.ok.injEq] at h
                    rw [← h]
                    exact ⟨_, hlink⟩
                  · exact hjump _ _ _ ⟨i, hnode⟩ h
                · rename_i j _ hj
                  exact hrest ⟨j, hj⟩ h
              · cases h

theorem walk_node {follow : Bool} {budget : Nat} {cur : Canon} {p : Path} {r : Nat × Canon}
    (hcur : p ≠ [] ∨ ∃ i, t.node cur = some i) (h : t.walk follow budget cur p = .ok r) :
    ∃ i, t.node r.2 = some i := by
  induction budget generalizing cur p r with
  | zero => exact walkWith_node (fun _ _ _ _ h => by cases h) hcur h
  | succ budget ih => exact walkWith_node (fun _ _ _ hcur h => ih (.inr hcur) h) hcur h

theorem node_of_canonicalize {p : Path} {c : Canon} (h : t.canonicalize p = .ok c) : ∃ i, t.node c = some i := by
  obtain ⟨hp, k, hwalk⟩ := resolve_eq_ok.mp h
  exact walk_node (.inl hp) hwalk

/-! ## Links are not where walks end that follow them -/

theorem isSymlink_of_isDir {i : Inode} (h : i.isDir = true) : i.isSymlink = false := by
  obtain ⟨kind, mtime, blksize⟩ := i
  cases kind <;> first | rfl | cases h

/-- There is a file, and it is no link. -/
def Ends (t : FileTree) (c : Canon) : Prop := ∃ i, t.node c = some i ∧ i.isSymlink = false

theorem ends_root : t.Ends [] := by
  obtain ⟨i, hi, hdir⟩ := node_root (t := t)
  exact ⟨i, hi, isSymlink_of_isDir hdir⟩

theorem ends_dropLast {c : Canon} {i : Inode} (h : t.node c = some i) : t.Ends c.dropLast := by
  rcases List.eq_nil_or_concat c with rfl | ⟨c, n, rfl⟩
  · exact ends_root
  · rw [List.concat_eq_append] at h ⊢
    obtain ⟨d, _, hd, hdir, _⟩ := node_parent h
    exact ⟨d, by rwa [List.dropLast_concat], isSymlink_of_isDir hdir⟩

theorem walkWith_ends {jump : Canon → Path → Except Errno (Nat × Canon)} {budget : Nat}
    (hjump : ∀ cur xs r, xs ≠ [] ∨ t.Ends cur → jump cur xs = .ok r → t.Ends r.2) {cur : Canon} {p : Path}
    {r : Nat × Canon} (hcur : p ≠ [] ∨ t.Ends cur) (h : t.walkWith true jump budget cur p = .ok r) : t.Ends r.2 := by
  induction p generalizing cur with
  | nil =>
      rw [walkWith, Except.ok.injEq] at h
      rw [← h]
      exact hcur.resolve_left (by simp)
  | cons c cs ih =>
      have hrest : ∀ {cur'}, t.Ends cur' → t.walkWith true jump budget cur' cs = .ok r → t.Ends r.2 :=
        fun hcur' => ih (.inr hcur')
      cases hnode : t.node cur with
      | none =>
          cases c with
          | rootDir => exact hrest ends_root h
          | curDir | parentDir | normal => simp [walkWith, hnode] at h
      | some i =>
          cases c with
          | rootDir => exact hrest ends_root h
          | curDir =>
              simp only [walkWith, hnode] at h
              split at h
              · exact hrest ⟨i, hnode, isSymlink_of_isDir ‹_›⟩ h
              · cases h
          | parentDir =>
              simp only [walkWith, hnode] at h
              split at h
              · exact hrest (ends_dropLast hnode) h
              · cases h
          | normal n =>
              simp only [walkWith, hnode] at h
              split at h
              · rename_i hdir
                split at h
                · cases h
                · rename_i target _ _ hlink
                  simp only [Bool.not_true, Bool.false_and, Bool.false_eq_true, if_false] at h
                  exact hjump _ _ _ (.inr ⟨i, hnode, isSymlink_of_isDir hdir⟩) h
                · rename_i j hnolink hj
                  refine hrest ⟨j, hj, ?_⟩ h
                  obtain ⟨kind, mtime, blksize⟩ := j
                  cases kind with
                  | symlink target => exact absurd rfl (hnolink target mtime blksize)
                  | file content => rfl
                  | dir entries size => rfl
                  | special => rfl
              · cases h

theorem walk_ends {budget : Nat} {cur : Canon} {p : Path} {r : Nat × Canon} (hcur : p ≠ [] ∨ t.Ends cur)
    (h : t.walk true budget cur p = .ok r) : t.Ends r.2 := by
  induction budget generalizing cur p r with
  | zero => exact walkWith_ends (fun _ _ _ _ h => by cases h) hcur h
  | succ budget ih => exact walkWith_ends (fun _ _ _ hcur h => ih hcur h) hcur h

/-- What a path leads to is no link. -/
theorem metadata_isSymlink {p : Path} {i : Inode} (h : t.metadata p = .ok i) : i.isSymlink = false := by
  obtain ⟨c, hc, hi⟩ := stat_eq_ok.mp h
  obtain ⟨hp, k, hwalk⟩ := resolve_eq_ok.mp hc
  obtain ⟨j, hj, hlink⟩ := walk_ends (.inl hp) hwalk
  cases hi.symm.trans hj
  exact hlink

/-! ## The walk along a canonical path -/

theorem walk_names {budget : Nat} {c : Canon} {i : Inode} (h : t.node c = some i) (hdir : i.isDir = true) :
    t.walk true budget [] (c.map .normal) = .ok (budget, c) := by
  induction c using List.reverseRecOn generalizing i with
  | nil => exact walk_nil _ _ _
  | append_singleton c n ih =>
      obtain ⟨d, _, hd, hd', _⟩ := node_parent h
      rw [List.map_append, walk_append (.inl rfl), ih hd hd']
      exact walk_normal hd hd' h (isSymlink_of_isDir hdir)

/-- The canonical path of a file leads to the file itself. -/
theorem resolve_canonPath {c : Canon} {i : Inode} (h : t.node c = some i) :
    t.resolve false (canonPath c) = .ok c := by
  refine resolve_eq_ok.mpr ⟨by simp [canonPath], t.symloopMax, ?_⟩
  have hroot : t.walk false t.symloopMax t.cwd (canonPath c) = t.walk false t.symloopMax [] (c.map .normal) := by
    obtain ⟨jump, hwith⟩ := walk_eq_walkWith (t := t) false t.symloopMax
    rw [hwith]
    rfl
  rw [hroot]
  rcases List.eq_nil_or_concat c with rfl | ⟨c, n, rfl⟩
  · exact walk_nil _ _ _
  · rw [List.concat_eq_append] at h ⊢
    obtain ⟨d, _, hd, hdir, _⟩ := node_parent h
    rw [List.map_append, walk_append (.inr (by simp)), walk_names hd hdir]
    exact walk_nofollow_entry hd hdir h

theorem symlinkMetadata_canonPath {c : Canon} {i : Inode} (h : t.node c = some i) :
    t.symlinkMetadata (canonPath c) = .ok i :=
  stat_eq_ok.mpr ⟨c, resolve_canonPath h, h⟩

end Posix.FileTree
