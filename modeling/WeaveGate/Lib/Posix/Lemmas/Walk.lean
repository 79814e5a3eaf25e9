import WeaveGate.Lib.Checked
import WeaveGate.Lib.Posix.FileTree

/-!
# Walking a path in two parts

A walk over a path that continues is the walk over its first part, with all links followed, and then the walk
over the rest with the links that are left.
-/

namespace Posix.FileTree

variable {t : FileTree}

@[simp] theorem walk_nil (follow : Bool) (budget : Nat) (cur : Canon) :
    t.walk follow budget cur [] = .ok (budget, cur) := by
  cases budget <;> rfl

theorem walkWith_normal {follow : Bool} {jump : Canon → Path → Except Errno (Nat × Canon)} {budget : Nat}
    {cur : Canon} {n : Name} {cs : Path} {d i : Inode} (hd : t.node cur = some d) (hdir : d.isDir = true)
    (hi : t.node (cur ++ [n]) = some i) (hlink : i.isSymlink = false) :
    t.walkWith follow jump budget cur (.normal n :: cs) = t.walkWith follow jump budget (cur ++ [n]) cs := by
  obtain ⟨kind, mtime, blksize⟩ := i
  cases kind with
  | symlink target => cases hlink
  | file content => simp [walkWith, hd, hdir, hi]
  | dir entries size => simp [walkWith, hd, hdir, hi]
  | special => simp [walkWith, hd, hdir, hi]

/-- One component followed by a part that goes on takes the same step as the component alone. -/
theorem walkWith_append {follow : Bool} {jump jumpAll : Canon → Path → Except Errno (Nat × Canon)} {budget : Nat}
    {ys : Path} (hy : follow = true ∨ ys ≠ []) {next : Nat × Canon → Except Errno (Nat × Canon)}
    (hnext : ∀ cur, t.walkWith follow jump budget cur ys = next (budget, cur))
    (hjump : ∀ cur xs, jump cur (xs ++ ys) = (jumpAll cur xs).bind next) (cur : Canon) (xs : Path) :
    t.walkWith follow jump budget cur (xs ++ ys) = (t.walkWith true jumpAll budget cur xs).bind next := by
  induction xs generalizing cur with
  | nil => exact hnext cur
  | cons c xs ih =>
      rw [List.cons_append]
      cases c with
      | rootDir => exact ih []
      | curDir =>
          simp only [walkWith]
          cases hnode : t.node cur with
          | none => rfl
          | some i =>
              dsimp only
              split
              · exact ih cur
              · rfl
      | parentDir =>
          simp only [walkWith]
          cases hnode : t.node cur with
          | none => rfl
          | some i =>
              dsimp only
              split
              · exact ih cur.dropLast
              · rfl
      | normal n =>
          simp only [walkWith]
          cases hnode : t.node cur with
          | none => rfl
          | some i =>
              dsimp only
              split
              · cases hchild : t.node (cur ++ [n]) with
                | none => rfl
                | some j =>
                    obtain ⟨kind, mtime, blksize⟩ := j
                    cases kind with
                    | symlink target =>
                        have hgo : (!follow && (xs ++ ys).isEmpty) = false := by
                          rcases hy with rfl | hy
                          · rfl
                          · cases ys with
                            | nil => exact absurd rfl hy
                            | cons y ys => cases xs <;> simp
                        simp only [hgo, Bool.not_true, Bool.false_and, Bool.false_eq_true, if_false]
                        rw [← List.append_assoc]
                        exact hjump cur (target ++ xs)
                    | file content => exact ih (cur ++ [n])
                    | dir entries size => exact ih (cur ++ [n])
                    | special => exact ih (cur ++ [n])
              · rfl

theorem walk_append {follow : Bool} {ys : Path} (hy : follow = true ∨ ys ≠ []) (budget : Nat) (cur : Canon)
    (xs : Path) : t.walk follow budget cur (xs ++ ys) =
      (t.walk true budget cur xs).bind fun r => t.walk follow r.1 r.2 ys := by
  induction budget generalizing cur xs with
  | zero =>
      exact walkWith_append hy (fun _ => rfl) (fun _ _ => rfl) cur xs
  | succ budget ih =>
      exact walkWith_append hy (fun _ => rfl) ih cur xs

/-! ## An entry of a directory -/

theorem walk_eq_walkWith (follow : Bool) (budget : Nat) :
    ∃ jump, t.walk follow budget = t.walkWith follow jump budget := by
  cases budget with
  | zero => exact ⟨_, rfl⟩
  | succ budget => exact ⟨_, rfl⟩

theorem walk_normal {follow : Bool} {budget : Nat} {cur : Canon} {n : Name} {d i : Inode} (hd : t.node cur = some d)
    (hdir : d.isDir = true) (hi : t.node (cur ++ [n]) = some i) (hlink : i.isSymlink = false) :
    t.walk follow budget cur [.normal n] = .ok (budget, cur ++ [n]) := by
  obtain ⟨jump, hwith⟩ := walk_eq_walkWith follow budget
  rw [hwith, walkWith_normal hd hdir hi hlink]
  rfl

theorem walk_normal_nofollow {budget k : Nat} {cur c : Canon} {n : Name}
    (h : t.walk false budget cur [.normal n] = .ok (k, c)) :
    c = cur ++ [n] ∧ ∃ d, t.node cur = some d ∧ d.isDir = true := by
  obtain ⟨jump, hwith⟩ := walk_eq_walkWith false budget
  rw [hwith] at h
  simp only [walkWith] at h
  cases hnode : t.node cur with
  | none => simp [hnode] at h
  | some d =>
      simp only [hnode] at h
      split at h
      · rename_i hdir
        refine ⟨?_, d, rfl, hdir⟩
        split at h
        · cases h
        · simp only [Bool.not_false, List.isEmpty_nil, Bool.and_self, if_true, Except.ok.injEq,
            Prod.mk.injEq] at h
          exact h.2.symm
        · simp only [Except.ok.injEq, Prod.mk.injEq] at h
          exact h.2.symm
      · cases h

theorem walk_normal_ok {budget : Nat} {cur : Canon} {n : Name} {r : Nat × Canon}
    (h : t.walk true budget cur [.normal n] = .ok r) :
    ∃ d i, t.node cur = some d ∧ d.isDir = true ∧ t.node (cur ++ [n]) = some i := by
  obtain ⟨jump, hwith⟩ := walk_eq_walkWith true budget
  rw [hwith] at h
  simp only [walkWith] at h
  cases hnode : t.node cur with
  | none => simp [hnode] at h
  | some d =>
      simp only [hnode] at h
      split at h
      · rename_i hdir
        cases hchild : t.node (cur ++ [n]) with
        | none => simp [hchild] at h
        | some i => exact ⟨d, i, rfl, hdir, rfl⟩
      · cases h

theorem walk_nofollow_entry {budget : Nat} {cur : Canon} {n : Name} {d i : Inode} (hd : t.node cur = some d)
    (hdir : d.isDir = true) (hi : t.node (cur ++ [n]) = some i) :
    t.walk false budget cur [.normal n] = .ok (budget, cur ++ [n]) := by
  by_cases hlink : i.isSymlink = true
  · obtain ⟨kind, mtime, blksize⟩ := i
    cases kind with
    | file content => cases hlink
    | dir entries size => cases hlink
    | special => cases hlink
    | symlink target => cases budget <;> simp [walk, walkWith, hd, hdir, hi]
  · exact walk_normal hd hdir hi (by simpa using hlink)

theorem resolve_eq_ok {follow : Bool} {p : Path} {c : Canon} :
    t.resolve follow p = .ok c ↔ p ≠ [] ∧ ∃ k, t.walk follow t.symloopMax t.cwd p = .ok (k, c) := by
  unfold resolve
  by_cases hp : p = []
  · simp [hp]
  · cases hw : t.walk follow t.symloopMax t.cwd p with
    | error e => simp [hp, Except.map]
    | ok r =>
        obtain ⟨k, c'⟩ := r
        simp [hp, Except.map]

theorem stat_eq_ok {follow : Bool} {p : Path} {i : Inode} :
    t.stat follow p = .ok i ↔ ∃ c, t.resolve follow p = .ok c ∧ t.node c = some i := by
  unfold stat
  cases t.resolve follow p with
  | error e => simp
  | ok c => cases hn : t.node c <;> simp [hn]

theorem symlinkMetadata_entry {p : Path} {n : Name} {i : Inode} (hp : p ≠ [])
    (h : t.symlinkMetadata (p ++ [.normal n]) = .ok i) :
    ∃ d j, t.canonicalize p = .ok d ∧ t.node d = some j ∧ j.isDir = true ∧ t.node (d ++ [n]) = some i := by
  obtain ⟨c, hc, hi⟩ := stat_eq_ok.mp h
  obtain ⟨_, k, hw⟩ := resolve_eq_ok.mp hc
  rw [walk_append (.inr (by simp))] at hw
  obtain ⟨⟨k', d⟩, hd, hw⟩ := Checked.bind_eq_ok.mp hw
  obtain ⟨rfl, j, hj, hdir⟩ := walk_normal_nofollow hw
  exact ⟨d, j, resolve_eq_ok.mpr ⟨hp, k', hd⟩, hj, hdir, hi⟩

theorem symlinkMetadata_of_canonicalize {p : Path} {n : Name} {c : Canon}
    (h : t.canonicalize (p ++ [.normal n]) = .ok c) : ∃ i, t.symlinkMetadata (p ++ [.normal n]) = .ok i := by
  obtain ⟨_, k, hw⟩ := resolve_eq_ok.mp h
  rw [walk_append (.inl rfl)] at hw
  obtain ⟨⟨k', d⟩, hd, hw⟩ := Checked.bind_eq_ok.mp hw
  obtain ⟨j, i, hj, hdir, hi⟩ := walk_normal_ok hw
  refine ⟨i, stat_eq_ok.mpr ⟨d ++ [n], resolve_eq_ok.mpr ⟨by simp, k', ?_⟩, hi⟩⟩
  rw [walk_append (.inr (by simp)), hd]
  exact walk_nofollow_entry hj hdir hi

/-- An entry that is no link resolves to its name below the directory. -/
theorem canonicalize_entry {p : Path} {n : Name} {d : Canon} {i : Inode} (hd : t.canonicalize p = .ok d)
    (hi : t.symlinkMetadata (p ++ [.normal n]) = .ok i) (hlink : i.isSymlink = false) :
    t.canonicalize (p ++ [.normal n]) = .ok (d ++ [n]) := by
  obtain ⟨hp, k, hw⟩ := resolve_eq_ok.mp hd
  obtain ⟨d', j, hd', hj, hdir, hnode⟩ := symlinkMetadata_entry hp hi
  rw [hd] at hd'
  cases hd'
  refine resolve_eq_ok.mpr ⟨by simp, k, ?_⟩
  rw [walk_append (.inl rfl), hw]
  exact walk_normal hj hdir hnode hlink

theorem open_eq_ok {p : Path} {f : OpenFile} :
    t.open p = .ok f ↔ f.path = p ∧ t.canonicalize p = .ok f.canon ∧ t.node f.canon = some f.inode := by
  unfold FileTree.open canonicalize
  cases t.resolve true p with
  | error e => simp
  | ok c =>
      obtain ⟨path, canon, inode⟩ := f
      cases hn : t.node c with
      | none =>
          simp only [hn, Option.elim_none, reduceCtorEq, Except.ok.injEq, false_iff, not_and]
          rintro _ rfl
          simp [hn]
      | some i =>
          simp only [hn, Option.elim_some, Except.ok.injEq, OpenFile.mk.injEq]
          constructor
          · rintro ⟨rfl, rfl, rfl⟩
            exact ⟨rfl, rfl, hn⟩
          · rintro ⟨rfl, rfl, hi⟩
            rw [hn] at hi
            cases hi
            exact ⟨rfl, rfl, rfl⟩

end Posix.FileTree
