import WeaveGate.Lib.Posix.Lemmas.Canonical

/-!
# Trees that agree below a path

What is asked about the paths below a base has the same answers in two trees, whatever else the trees hold.
-/

namespace Posix

/-- The base with names behind it. -/
def Below (base p : Path) : Prop := ∃ names : List Name, p = base ++ names.map .normal

theorem Below.refl (base : Path) : Below base base := ⟨[], by simp⟩

theorem Below.entry {base p : Path} (h : Below base p) (n : Name) : Below base (p ++ [.normal n]) := by
  obtain ⟨names, rfl⟩ := h
  exact ⟨names ++ [n], by simp⟩

/-- A path with a name behind the base or behind a path below it. -/
def Entry (base p : Path) : Prop := ∃ q n, Below base q ∧ p = q ++ [.normal n]

theorem Entry.below {base p : Path} (h : Entry base p) : Below base p := by
  obtain ⟨q, n, hq, rfl⟩ := h
  exact hq.entry n

theorem Below.cases {base p : Path} (h : Below base p) : p = base ∨ Entry base p := by
  obtain ⟨names, rfl⟩ := h
  rcases List.eq_nil_or_concat names with rfl | ⟨names, n, rfl⟩
  · exact .inl (by simp)
  · exact .inr ⟨_, n, ⟨names, rfl⟩, by simp⟩

namespace FileTree

structure AgreeBelow (t t' : FileTree) (base : Path) : Prop where
  canonicalize : ∀ p, Below base p → t'.canonicalize p = t.canonicalize p
  metadata : ∀ p, Below base p → t'.metadata p = t.metadata p
  /-- What is in the last place need not be followed. -/
  symlinkMetadata : ∀ p n, Below base p → t'.symlinkMetadata (p ++ [.normal n]) = t.symlinkMetadata (p ++ [.normal n])

variable {t t' : FileTree} {base p : Path}

namespace AgreeBelow

theorem exists_eq (h : AgreeBelow t t' base) (hp : Below base p) : t'.exists p = t.exists p := by
  rw [FileTree.exists, FileTree.exists, h.metadata p hp]

theorem isDir_eq (h : AgreeBelow t t' base) (hp : Below base p) : t'.isDir p = t.isDir p := by
  rw [FileTree.isDir, FileTree.isDir, h.metadata p hp]

theorem readDir_eq (h : AgreeBelow t t' base) (hp : Below base p) : t'.readDir p = t.readDir p := by
  rw [FileTree.readDir, FileTree.readDir, h.metadata p hp]

theorem open_eq (h : AgreeBelow t t' base) (hp : Below base p) : t'.open p = t.open p := by
  have hopen : ∀ tree : FileTree, tree.open p = match tree.canonicalize p, tree.metadata p with
      | .ok c, .ok i => .ok ⟨p, c, i⟩
      | .error e, _ => .error e
      | .ok _, .error e => .error e := by
    intro tree
    unfold FileTree.open FileTree.canonicalize FileTree.metadata FileTree.stat
    cases tree.resolve true p with
    | error e => rfl
    | ok c =>
        dsimp only
        cases tree.node c <;> rfl
  rw [hopen t, hopen t', h.canonicalize p hp, h.metadata p hp]

/-- Where a path below the base leads, the trees have the same file. -/
theorem node_eq (h : AgreeBelow t t' base) (hp : Below base p) {c : Canon} (hc : t.canonicalize p = .ok c) :
    t'.node c = t.node c := by
  have hc' := (h.canonicalize p hp).trans hc
  obtain ⟨i, hi⟩ := node_of_canonicalize hc
  obtain ⟨i', hi'⟩ := node_of_canonicalize hc'
  have hfound : t.metadata p = .ok i := stat_eq_ok.mpr ⟨c, hc, hi⟩
  have hfound' : t'.metadata p = .ok i' := stat_eq_ok.mpr ⟨c, hc', hi'⟩
  rw [hi, hi', Except.ok.inj (hfound'.symm.trans ((h.metadata p hp).trans hfound))]

end AgreeBelow

/-! ## Where there are no links -/

/-- From the directory on both trees hold the same files, and none is a link. -/
structure SameFiles (t t' : FileTree) (c : Canon) : Prop where
  same : ∀ names, t'.node (c ++ names) = t.node (c ++ names)
  linkless : ∀ names i, t.node (c ++ names) = some i → i.isSymlink = false

/-- What is said of the directory is said of the nodes whose paths go on from it. -/
def nodesBelow (t : FileTree) (c : Canon) : List (Canon × Inode) := t.nodes.filter fun entry => c.isPrefixOf entry.1

theorem node_below_eq (t : FileTree) (c : Canon) (names : List Name) :
    t.node (c ++ names) = (t.nodesBelow c).lookup (c ++ names) := by
  unfold node nodesBelow
  induction t.nodes with
  | nil => rfl
  | cons entry nodes ih =>
      rw [List.filter_cons]
      by_cases hkept : c.isPrefixOf entry.1 = true
      · rw [if_pos hkept, List.lookup_cons, List.lookup_cons, ih]
      · have hkey : c ++ names ≠ entry.1 := fun hkey =>
          hkept (List.isPrefixOf_iff_prefix.mpr (hkey ▸ List.prefix_append c names))
        rw [if_neg hkept, List.lookup_cons, beq_eq_false_iff_ne.mpr hkey]
        exact ih

theorem SameFiles.of_nodes {c : Canon} (hsame : t'.nodesBelow c = t.nodesBelow c)
    (hlinkless : ∀ entry ∈ t.nodesBelow c, entry.2.isSymlink = false) : SameFiles t t' c where
  same names := by rw [node_below_eq, node_below_eq, hsame]
  linkless names i hi := by
    have hbelow : c.isPrefixOf (c ++ names) = true := List.isPrefixOf_iff_prefix.mpr (List.prefix_append c names)
    exact hlinkless (c ++ names, i) (List.mem_filter.mpr ⟨mem_of_node hi, hbelow⟩)

theorem SameFiles.entry {c : Canon} (h : SameFiles t t' c) (n : Name) : SameFiles t t' (c ++ [n]) where
  same names := by
    rw [List.append_assoc]
    exact h.same _
  linkless names i hi := by
    rw [List.append_assoc] at hi
    exact h.linkless _ i hi

/-- Without links the walk does not depend on how many may be followed, nor on whether they are. -/
theorem SameFiles.walk_eq {c : Canon} (h : SameFiles t t' c) (follow : Bool) (k k' : Nat) (names : List Name) :
    (t'.walk follow k' c (names.map .normal)).map Prod.snd = (t.walk true k c (names.map .normal)).map Prod.snd := by
  obtain ⟨jump, hwalk⟩ := walk_eq_walkWith true k
  obtain ⟨jump', hwalk'⟩ := walk_eq_walkWith follow k'
  rw [hwalk, hwalk']
  clear hwalk hwalk'
  induction names generalizing c with
  | nil => rfl
  | cons n names ih =>
      have hcur : t'.node c = t.node c := by simpa using h.same []
      have hnext : t'.node (c ++ [n]) = t.node (c ++ [n]) := h.same [n]
      rw [List.map_cons]
      cases hnode : t.node c with
      | none => simp [walkWith, hcur, hnode]
      | some d =>
          by_cases hdir : d.isDir = true
          · cases hchild : t.node (c ++ [n]) with
            | none => simp [walkWith, hcur, hnode, hdir, hnext, hchild]
            | some i =>
                have hlink := h.linkless [n] i hchild
                rw [walkWith_normal hnode hdir hchild hlink,
                  walkWith_normal (hcur.trans hnode) hdir (hnext.trans hchild) hlink]
                exact ih (h.entry n)
          · simp [walkWith, hcur, hnode, hdir]

theorem SameFiles.walk_end {c : Canon} (h : SameFiles t t' c) {follow : Bool} {k : Nat} {names : List Name}
    {r : Nat × Canon} (hr : t.walk follow k c (names.map .normal) = .ok r) : r.2 = c ++ names := by
  obtain ⟨jump, hwalk⟩ := walk_eq_walkWith follow k
  rw [hwalk] at hr
  clear hwalk
  induction names generalizing c with
  | nil =>
      cases hr
      exact (List.append_nil c).symm
  | cons n names ih =>
      rw [List.map_cons] at hr
      cases hnode : t.node c with
      | none => simp [walkWith, hnode] at hr
      | some d =>
          by_cases hdir : d.isDir = true
          · cases hchild : t.node (c ++ [n]) with
            | none => simp [walkWith, hnode, hdir, hchild] at hr
            | some i =>
                rw [walkWith_normal hnode hdir hchild (h.linkless [n] i hchild)] at hr
                rw [ih (h.entry n) hr, List.append_assoc, List.singleton_append]
          · simp [walkWith, hnode, hdir] at hr

theorem resolve_below {c : Canon} (hbase : t.canonicalize base = .ok c) {follow : Bool} {names : List Name}
    (hnames : follow = true ∨ names ≠ []) : ∃ k, t.resolve follow (base ++ names.map .normal) =
      (t.walk follow k c (names.map .normal)).map Prod.snd := by
  obtain ⟨hne, k, hwalk⟩ := resolve_eq_ok.mp hbase
  have hmore : follow = true ∨ names.map Component.normal ≠ [] := hnames.imp_right (by simpa using ·)
  refine ⟨k, ?_⟩
  rw [resolve, if_neg (by simp [hne]), walk_append hmore, hwalk]
  rfl

theorem SameFiles.resolve_eq {c : Canon} (h : SameFiles t t' c) (hbase : t.canonicalize base = .ok c)
    (hbase' : t'.canonicalize base = .ok c) {follow : Bool} {names : List Name} (hnames : follow = true ∨ names ≠ []) :
    t'.resolve follow (base ++ names.map .normal) = t.resolve follow (base ++ names.map .normal) := by
  have hself : SameFiles t t c := ⟨fun _ => rfl, h.linkless⟩
  obtain ⟨k, hk⟩ := resolve_below hbase hnames
  obtain ⟨k', hk'⟩ := resolve_below hbase' hnames
  rw [hk, hk', h.walk_eq follow k k', hself.walk_eq follow k k]

theorem SameFiles.node_eq {c d : Canon} (h : SameFiles t t' c) (hbase : t.canonicalize base = .ok c) {follow : Bool}
    {names : List Name} (hnames : follow = true ∨ names ≠ [])
    (hd : t.resolve follow (base ++ names.map .normal) = .ok d) : t'.node d = t.node d := by
  obtain ⟨k, hk⟩ := resolve_below hbase hnames
  rw [hk] at hd
  cases hwalk : t.walk follow k c (names.map .normal) with
  | error e =>
      rw [hwalk] at hd
      cases hd
  | ok r =>
      rw [hwalk] at hd
      cases hd
      rw [h.walk_end hwalk]
      exact h.same names

/-- A base that leads to such a directory in both trees. -/
theorem SameFiles.agreeBelow {c : Canon} (h : SameFiles t t' c) (hbase : t.canonicalize base = .ok c)
    (hbase' : t'.canonicalize base = .ok c) : AgreeBelow t t' base := by
  have hstat : ∀ {follow : Bool} {names : List Name}, follow = true ∨ names ≠ [] →
      t'.stat follow (base ++ names.map .normal) = t.stat follow (base ++ names.map .normal) := by
    intro follow names hnames
    unfold stat
    rw [h.resolve_eq hbase hbase' hnames]
    cases hd : t.resolve follow (base ++ names.map .normal) with
    | error e => rfl
    | ok d =>
        dsimp only
        rw [h.node_eq hbase hnames hd]
  constructor
  · rintro p ⟨names, rfl⟩
    exact h.resolve_eq hbase hbase' (.inl rfl)
  · rintro p ⟨names, rfl⟩
    exact hstat (.inl rfl)
  · rintro p n ⟨names, rfl⟩
    have hnames : base ++ names.map Component.normal ++ [.normal n] = base ++ (names ++ [n]).map .normal := by simp
    rw [hnames]
    exact hstat (.inr (by simp))

end FileTree

end Posix
