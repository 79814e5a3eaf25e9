import WeaveGate.Lib.Posix.Lemmas.Canonical
import WeaveGate.Static.Theorems.Archive

/-!
# What an archive holds

The archive of a directory without links has one entry for each visible file below it, and a directory comes before
what it holds.
-/

namespace WeaveGate.Static

open Posix (Octets Path Name FileTree Inode Errno Canon)

variable {t : FileTree} {job : ArchiveJob} {n : Name} {d rel : Canon} {p : Pending}

/-! ## Places below the root of an archive -/

def srcAt (job : ArchiveJob) (rel : Canon) : Path := job.srcPath ++ rel.map .normal

def destAt (n : Name) (rel : Canon) : Path := .normal n :: rel.map .normal

/-- No component below the root is a dotfile, when they are ignored. -/
def Visible (job : ArchiveJob) (rel : Canon) : Prop :=
  job.ignoreHidden = true → ∀ name ∈ rel, isDotfile name = false

/-- The entry of a place: a directory, or a regular file with its content. -/
def IsEntryOf (t : FileTree) (d : Canon) (n : Name) (rel : Canon) (e : TarEntry) : Prop :=
  ∃ i, t.node (d ++ rel) = some i ∧
    (i.isDir = true ∧ e = .dir (destAt n rel) ∨
      ∃ content, i.kind = .file content ∧ e = .file (destAt n rel) (d ++ rel) content)

def NoLinksBelow (t : FileTree) (d : Canon) : Prop := ∀ rel i, t.node (d ++ rel) = some i → i.isSymlink = false

/-- What lies on the stack for a place. -/
structure Placed (t : FileTree) (job : ArchiveJob) (d rel : Canon) (p : Pending) : Prop where
  src : p.src = srcAt job rel
  canon : t.canonicalize p.src = .ok (d ++ rel)
  visible : Visible job rel
  isSymlink : p.isSymlink = false
  node : ∃ i, t.node (d ++ rel) = some i ∧ p.isDir = i.isDir ∧
    (i.isDir = false → t.symlinkMetadata p.src = .ok i)

theorem map_normal_injective : Function.Injective (List.map Posix.Component.normal) :=
  List.map_injective_iff.mpr fun a b hab => by cases hab; rfl

theorem srcAt_injective {rel' : Canon} (h : srcAt job rel = srcAt job rel') : rel = rel' :=
  map_normal_injective (List.append_cancel_left h)

theorem srcAt_append (job : ArchiveJob) (rel : Canon) (name : Name) :
    (srcAt job rel).push [.normal name] = srcAt job (rel ++ [name]) := by
  rw [Posix.Path.push_normal, srcAt, srcAt, List.append_assoc, List.map_append]
  rfl

theorem push_dest (n : Name) (rel : Canon) : Posix.Path.push [.normal n] (rel.map .normal) = destAt n rel := by
  have hfilter : (rel.map Posix.Component.normal).filter (· ≠ .curDir) = rel.map .normal :=
    List.filter_eq_self.mpr fun c hc => by
      obtain ⟨name, _, rfl⟩ := List.mem_map.mp hc
      simp
  have hhead : (rel.map Posix.Component.normal).head? ≠ some .rootDir := by cases rel <;> simp
  rw [Posix.Path.push, if_neg hhead, if_neg (by simp), hfilter]
  rfl

/-! ## One turn -/

theorem metadata_of_canonicalize {q : Path} {c : Canon} {i : Inode} (hc : t.canonicalize q = .ok c)
    (hi : t.node c = some i) : t.metadata q = .ok i :=
  Posix.FileTree.stat_eq_ok.mpr ⟨c, hc, hi⟩

theorem readDir_of_canonicalize {q : Path} {c : Canon} {i : Inode} {names : List Name}
    (hc : t.canonicalize q = .ok c) (hi : t.node c = some i) (h : t.readDir q = .ok names) :
    i.entries? = some names := by
  unfold FileTree.readDir at h
  rw [metadata_of_canonicalize hc hi] at h
  dsimp only at h
  cases hentries : i.entries? with
  | none => rw [hentries] at h; cases h
  | some names' => rw [hentries] at h; cases h; rfl

theorem placed_entry (hlinks : NoLinksBelow t d) (hp : Placed t job d rel p) {name : Name} {q : Pending}
    (hvisible : Visible job (rel ++ [name]))
    (hq : (do
      let path := p.src.push [.normal name]
      let metadata ← t.symlinkMetadata path
      return ({ src := path, isDir := metadata.isDir, isSymlink := metadata.isSymlink } : Pending)) = .ok q) :
    Placed t job d (rel ++ [name]) q := by
  obtain ⟨i, hi, hq⟩ := Checked.bind_eq_ok.mp hq
  rw [Checked.pure_eq_ok] at hq
  have hne : p.src ≠ [] := (Posix.FileTree.resolve_eq_ok.mp hp.canon).1
  rw [Posix.Path.push_normal] at hi
  obtain ⟨c, _, hc, _, _, hnode⟩ := Posix.FileTree.symlinkMetadata_entry hne hi
  rw [hp.canon, Except.ok.injEq] at hc
  rw [← hc, List.append_assoc] at hnode
  have hlink := hlinks _ _ hnode
  have hcanon := Posix.FileTree.canonicalize_entry hp.canon hi hlink
  rw [List.append_assoc] at hcanon
  subst hq
  refine ⟨?_, by rwa [Posix.Path.push_normal], hvisible, hlink, i, hnode, rfl, fun _ => by rwa [Posix.Path.push_normal]⟩
  rw [hp.src]
  exact srcAt_append job rel name

/-- The entries that a directory leaves on the stack are placed below it. -/
theorem pendingEntries_placed (hlinks : NoLinksBelow t d) (hp : Placed t job d rel p) {pending : List Pending}
    (h : pendingEntries t job p.src = .ok pending) :
    ∃ i names, t.node (d ++ rel) = some i ∧ i.entries? = some names ∧
      List.Forall₂ (fun name q => Placed t job d (rel ++ [name]) q)
        (names.filter fun name => !(job.ignoreHidden && isDotfile name)) pending := by
  obtain ⟨names, hnames, hmap⟩ := Checked.bind_eq_ok.mp h
  clear h
  obtain ⟨i, hi, hisDir, _⟩ := hp.node
  refine ⟨i, names, hi, readDir_of_canonicalize hp.canon hi hnames, ?_⟩
  rw [Checked.mapM_eq_ok] at hmap
  have hvisible : ∀ name ∈ names.filter fun name => !(job.ignoreHidden && isDotfile name), Visible job (rel ++ [name]) := by
    intro name hname hhidden m hm
    have hdot : isDotfile name = false := by simpa [hhidden] using (List.mem_filter.mp hname).2
    rcases List.mem_append.mp hm with hm | hm
    · exact hp.visible hhidden m hm
    · rwa [List.mem_singleton.mp hm]
  generalize names.filter (fun name => !(job.ignoreHidden && isDotfile name)) = shown at hmap hvisible
  induction hmap with
  | nil => exact .nil
  | cons hq _ ih =>
      obtain ⟨hname, hvisible⟩ := List.forall_mem_cons.mp hvisible
      exact .cons (placed_entry hlinks hp hname hq) (ih hvisible)

/-- A turn for a place: a directory is written and its entries are pushed, a regular file is written. -/
theorem archiveVisit_placed (hpath : job.path = [.normal n]) (hlinks : NoLinksBelow t d) (hp : Placed t job d rel p)
    {pushed : List Pending} {written : List TarEntry} (h : archiveVisit t job p = .ok (pushed, written)) :
    ∃ i names, t.node (d ++ rel) = some i ∧ i.entries?.getD [] = names ∧
      List.Forall₂ (fun name q => Placed t job d (rel ++ [name]) q)
        (names.filter fun name => !(job.ignoreHidden && isDotfile name)).reverse pushed ∧
      ∃ e, written = [e] ∧ IsEntryOf t d n rel e := by
  obtain ⟨rel', hrel, h⟩ := Checked.bind_eq_ok.mp h
  have hrel : rel' = rel.map .normal := by
    have hstrip := Posix.Path.stripPrefix_eq_some.mpr hp.src
    rw [hstrip] at hrel
    cases hrel
    rfl
  subst hrel
  rw [hpath, push_dest] at h
  obtain ⟨i, hi, hisDir, hlstat⟩ := hp.node
  dsimp only at h
  rw [hp.isSymlink, Bool.false_and, Bool.false_and, Bool.or_false] at h
  by_cases hdir : i.isDir = true
  · rw [if_pos (hisDir.trans hdir)] at h
    obtain ⟨pending, hpending, h⟩ := Checked.bind_eq_ok.mp h
    cases h
    obtain ⟨i', names, hi', hnames, hplaced⟩ := pendingEntries_placed hlinks hp hpending
    refine ⟨i', names, hi', by rw [hnames]; rfl, List.forall₂_reverse_iff.mpr hplaced, _, if_pos (by simp [destAt]), ?_⟩
    exact ⟨i, hi, .inl ⟨hdir, rfl⟩⟩
  · rw [if_neg (by rw [hisDir]; exact hdir)] at h
    obtain ⟨e, he, h⟩ := Checked.bind_eq_ok.mp h
    cases h
    have hlink := hlinks _ _ hi
    have hstore : storeFile t p.src (destAt n rel) = .ok e := by
      unfold appendPathWithName at he
      split at he
      · exact he
      · rw [hlstat (by simpa using hdir)] at he
        obtain ⟨kind, mtime, blksize⟩ := i
        cases kind with
        | symlink target => cases hlink
        | file | dir | special => exact he
    obtain ⟨file, hfile, hstore⟩ := Checked.bind_eq_ok.mp hstore
    obtain ⟨_, hcanon, hinode⟩ := Posix.FileTree.open_eq_ok.mp hfile
    rw [hp.canon, Except.ok.injEq] at hcanon
    rw [← hcanon, hi, Option.some.injEq] at hinode
    rw [← hinode, ← hcanon] at hstore
    obtain ⟨kind, mtime, blksize⟩ := i
    cases kind with
    | symlink target => cases hlink
    | dir entries size => exact absurd rfl hdir
    | special => cases hstore
    | file content =>
        cases hstore
        exact ⟨_, [], hi, rfl, .nil, _, rfl, _, hi, .inr ⟨content, rfl, rfl⟩⟩

/-! ## All turns for a place -/

/-- The entries made for what lies on the stack: those of the places at or below its own that are visible. -/
def Describes (t : FileTree) (job : ArchiveJob) (d : Canon) (n : Name) (p : Pending) (out : List TarEntry) : Prop :=
  ∃ rel rels, p.src = srcAt job rel ∧ List.Forall₂ (IsEntryOf t d n) rels out ∧
    rels.Pairwise (fun a b => ¬ b <+: a) ∧
    ∀ r, r ∈ rels ↔ rel <+: r ∧ (t.node (d ++ r)).isSome = true ∧ Visible job r

theorem forall₂_describes {names : List Name} {pushed : List Pending} {outs : List (List TarEntry)}
    (hplaced : List.Forall₂ (fun name q => Placed t job d (rel ++ [name]) q) names pushed)
    (houts : List.Forall₂ (Describes t job d n) pushed outs) :
    ∃ relss, List.Forall₂ (List.Forall₂ (IsEntryOf t d n)) relss outs ∧
      List.Forall₂ (fun name rels => rels.Pairwise (fun a b => ¬ b <+: a) ∧
        ∀ r, r ∈ rels ↔ rel ++ [name] <+: r ∧ (t.node (d ++ r)).isSome = true ∧ Visible job r) names relss := by
  induction hplaced generalizing outs with
  | nil =>
      cases houts
      exact ⟨[], .nil, .nil⟩
  | cons hq _ ih =>
      cases houts with
      | cons hout houts =>
          obtain ⟨rel', rels, hsrc, hentries, hpairwise, hmem⟩ := hout
          obtain rfl := srcAt_injective (hq.src.symm.trans hsrc)
          obtain ⟨relss, hentriess, hmems⟩ := ih houts
          exact ⟨rels :: relss, .cons hentries hentriess, .cons ⟨hpairwise, hmem⟩ hmems⟩

theorem not_prefix_of_ne {x y : Name} {a b : Canon} (hne : x ≠ y) (ha : rel ++ [x] <+: a) (hb : rel ++ [y] <+: b) :
    ¬ b <+: a := by
  intro hab
  obtain ⟨u, rfl⟩ := ha
  obtain ⟨v, hv⟩ := hb.trans hab
  rw [List.append_assoc, List.append_assoc, List.append_cancel_left_eq] at hv
  exact hne (List.cons.inj hv).1.symm

theorem nodup_shown (job : ArchiveJob) {i : Inode} {names : List Name} (hi : t.node (d ++ rel) = some i)
    (hnames : i.entries?.getD [] = names) :
    (names.filter fun name => !(job.ignoreHidden && isDotfile name)).reverse.Nodup := by
  refine List.nodup_reverse.mpr (List.Nodup.filter _ ?_)
  cases hentries : i.entries? with
  | none =>
      rw [hentries] at hnames
      rw [← hnames]
      exact List.nodup_nil
  | some names' =>
      rw [hentries] at hnames
      cases hnames
      exact Posix.FileTree.nodup_entries hi hentries

/-- The way to a visible place below goes through an entry that is shown. -/
theorem shown_of_node {i : Inode} {names : List Name} (hi : t.node (d ++ rel) = some i)
    (hnames : i.entries?.getD [] = names) {name : Name} {rest : List Name}
    (hnode : (t.node (d ++ (rel ++ name :: rest))).isSome = true) (hvisible : Visible job (rel ++ name :: rest)) :
    name ∈ (names.filter fun name => !(job.ignoreHidden && isDotfile name)).reverse := by
  obtain ⟨j, hj⟩ := Option.isSome_iff_exists.mp hnode
  rw [← List.append_assoc] at hj
  obtain ⟨i', names', hi', _, hentries, hname⟩ := Posix.FileTree.node_below hj
  rw [hi] at hi'
  cases hi'
  rw [hentries, Option.getD_some] at hnames
  subst hnames
  rw [List.mem_reverse, List.mem_filter]
  refine ⟨hname, ?_⟩
  cases hhidden : job.ignoreHidden with
  | false => rfl
  | true => simpa using hvisible hhidden name (by simp)

theorem describes_visit (hpath : job.path = [.normal n]) (hlinks : NoLinksBelow t d) (hp : Placed t job d rel p)
    {pushed : List Pending} {written : List TarEntry} (h : archiveVisit t job p = .ok (pushed, written))
    {outs : List (List TarEntry)} (houts : List.Forall₂ (Describes t job d n) pushed outs) :
    Describes t job d n p (written ++ outs.flatten) := by
  obtain ⟨i, names, hi, hnames, hplaced, e, rfl, he⟩ := archiveVisit_placed hpath hlinks hp h
  obtain ⟨relss, hentriess, hmems⟩ := forall₂_describes hplaced houts
  have hnodup := nodup_shown job hi hnames
  have hbelow : ∀ r ∈ relss.flatten, ∃ name, rel ++ [name] <+: r ∧ (t.node (d ++ r)).isSome = true ∧ Visible job r := by
    intro r hr
    obtain ⟨rels, hrels, hr⟩ := List.mem_flatten.mp hr
    obtain ⟨name, _, _, hmem⟩ := Checked.exists_left hmems hrels
    exact ⟨name, (hmem r).mp hr⟩
  refine ⟨rel, rel :: relss.flatten, hp.src, .cons he (List.rel_flatten hentriess), ?_, fun r => ?_⟩
  · refine List.pairwise_cons.mpr ⟨fun r hr hpre => ?_, List.pairwise_flatten.mpr ⟨fun rels hrels => ?_, ?_⟩⟩
    · obtain ⟨name, hname, _⟩ := hbelow r hr
      have hlen := (hname.trans hpre).length_le
      rw [List.length_append, List.length_singleton] at hlen
      omega
    · obtain ⟨_, _, hpairwise, _⟩ := Checked.exists_left hmems hrels
      exact hpairwise
    · exact Checked.pairwise_of_forall₂ hmems hnodup fun x y rels rels' hne hx hy a ha b hb =>
        not_prefix_of_ne hne ((hx.2 a).mp ha).1 ((hy.2 b).mp hb).1
  · rw [List.mem_cons]
    constructor
    · rintro (rfl | hr)
      · exact ⟨List.prefix_rfl, by rw [hi]; rfl, hp.visible⟩
      · obtain ⟨name, hname, hnode, hvisible⟩ := hbelow r hr
        exact ⟨(List.prefix_append _ _).trans hname, hnode, hvisible⟩
    · rintro ⟨⟨rest, rfl⟩, hnode, hvisible⟩
      cases rest with
      | nil => exact .inl (List.append_nil _)
      | cons name rest =>
          right
          have hshown := shown_of_node hi hnames hnode hvisible
          obtain ⟨rels, hrels, _, hmem⟩ := Checked.exists_right hmems hshown
          exact List.mem_flatten.mpr ⟨rels, hrels, (hmem _).mpr ⟨by simp, hnode, hvisible⟩⟩

/-! ## The whole archive -/

/-- How many files lie at or below a path on the stack. -/
def sizeAt (t : FileTree) (p : Pending) : Nat :=
  match t.canonicalize p.src with
  | .ok c => t.nodes.countP fun e => c <+: e.1
  | .error _ => 0

theorem sizeAt_lt {q : Pending} {name : Name} (hp : Placed t job d rel p) (hq : Placed t job d (rel ++ [name]) q) :
    sizeAt t q < sizeAt t p := by
  obtain ⟨i, hi, _⟩ := hp.node
  obtain ⟨before, after, hnodes⟩ := List.append_of_mem (Posix.FileTree.mem_of_node hi)
  have hle : ∀ nodes : List (Canon × Inode), nodes.countP (fun e => d ++ (rel ++ [name]) <+: e.1) ≤
      nodes.countP fun e => d ++ rel <+: e.1 := fun nodes =>
    List.countP_mono_left fun e _ h => by
      rw [decide_eq_true_eq] at h ⊢
      rw [← List.append_assoc] at h
      exact (List.prefix_append _ _).trans h
  have hself : ¬ d ++ (rel ++ [name]) <+: d ++ rel := fun h => by
    have hlen := h.length_le
    rw [List.length_append, List.length_append, List.length_append, List.length_singleton] at hlen
    omega
  unfold sizeAt
  rw [hp.canon, hq.canon]
  dsimp only
  rw [hnodes, List.countP_append, List.countP_append, List.countP_cons, List.countP_cons]
  have hbefore := hle before
  have hafter := hle after
  rw [if_neg (by simpa using hself), if_pos (by simp)]
  omega

theorem placed_root (hd : t.canonicalize job.srcPath = .ok d) {i : Inode} (hi : t.node d = some i)
    (hdir : i.isDir = true) : Placed t job d [] job.root where
  src := (List.append_nil _).symm
  canon := by rwa [List.append_nil]
  visible := fun _ name hname => by cases hname
  isSymlink := rfl
  node := ⟨i, by rwa [List.append_nil], hdir.symm, fun h => by rw [hdir] at h; cases h⟩

/-- When no file operation fails, the task empties its stack and finishes the archive. It has then written one entry
for the directory and one for each visible file below it, under its name and place, and a directory before what it
holds. -/
theorem archive_complete (hpath : job.path = [.normal n]) (hd : t.canonicalize job.srcPath = .ok d)
    (hlinks : NoLinksBelow t d) (hok : Worklist.Succeeds (archiveVisit t job) (Worklist.start job.root)) :
    ∃ k rels, (archive t job k).stack = [] ∧ (archive t job k).done = true ∧
      List.Forall₂ (IsEntryOf t d n) rels (archive t job k).written ∧ rels.Pairwise (fun a b => ¬ b <+: a) ∧
      ∀ rel, rel ∈ rels ↔ (t.node (d ++ rel)).isSome = true ∧ Visible job rel := by
  obtain ⟨i, hi⟩ := Posix.FileTree.node_of_canonicalize hd
  have hdir : i.isDir = true := by
    obtain ⟨⟨pushed, written⟩, hvisit⟩ := hok 0 _ rfl
    obtain ⟨_, _, hvisit⟩ := Checked.bind_eq_ok.mp hvisit
    obtain ⟨pending, hpending, _⟩ := Checked.bind_eq_ok.mp hvisit
    obtain ⟨names, hnames, _⟩ := Checked.bind_eq_ok.mp hpending
    exact Posix.FileTree.isDir_of_entries (readDir_of_canonicalize hd hi hnames)
  obtain ⟨k, out, hrun, rel, rels, hsrc, hentries, hpairwise, hmem⟩ :=
    Worklist.work_off (P := fun p => ∃ rel, Placed t job d rel p) (D := Describes t job d n) Nat.lt_wfRel.wf (sizeAt t)
      (fun p pushed written hvisit ⟨rel, hp⟩ => by
        refine ⟨fun q hq => ?_, fun outs houts => describes_visit hpath hlinks hp hvisit houts⟩
        obtain ⟨_, names, _, _, hplaced, _⟩ := archiveVisit_placed hpath hlinks hp hvisit
        obtain ⟨name, _, hq⟩ := Checked.exists_left hplaced hq
        exact ⟨⟨_, hq⟩, sizeAt_lt hp hq⟩)
      ⟨[], placed_root hd hi hdir⟩ hok
  obtain rfl : rel = [] := srcAt_injective (hsrc.symm.trans (placed_root hd hi hdir).src)
  have hend : archive t job (1 + k) = ⟨[], out, true⟩ := by
    have hstart : Worklist.run (archiveVisit t job) k (Worklist.start job.root) = ⟨[], out, false⟩ := hrun
    rw [archive, Worklist.run_add, hstart]
    rfl
  refine ⟨1 + k, rels, ?_⟩
  rw [hend]
  exact ⟨rfl, rfl, hentries, hpairwise, fun rel => by simp [hmem]⟩

/-- `/srv/d` holds a dotfile and a directory with a file. -/
def plainDownload : FileTree :=
  { nodes :=
      [ ([], sampleDir [named "srv"]),
        ([named "srv"], sampleDir [named "d"]),
        ([named "srv", named "d"], sampleDir [named ".h", named "e"]),
        ([named "srv", named "d", named ".h"], sampleFile []),
        ([named "srv", named "d", named "e"], sampleDir [named "f"]),
        ([named "srv", named "d", named "e", named "f"], sampleFile (named "hello")) ]
    cwd := [], symloopMax := 40, wf := by decide }

def plainJob : ArchiveJob :=
  { path := [.normal (named "d")], srcPath := Posix.canonPath [named "srv", named "d"], followSymlinks := true
    ignoreHidden := true }

theorem archive_complete_plain : ∃ k, (archive plainDownload plainJob k).stack = [] ∧
    (archive plainDownload plainJob k).done = true := by
  have hlinks : NoLinksBelow plainDownload [named "srv", named "d"] := by
    intro rel i hi
    have hall : plainDownload.nodes.all (fun e => !e.2.isSymlink) = true := by decide
    simpa using List.all_eq_true.mp hall _ (Posix.FileTree.mem_of_node hi)
  have hok : Worklist.Succeeds (archiveVisit plainDownload plainJob) (Worklist.start plainJob.root) := by
    intro k p hp
    have hfirst : (List.range 4).all (fun k => (archive plainDownload plainJob k).stack.head?.all fun p =>
        (archiveVisit plainDownload plainJob p).toOption.isSome) = true := by decide +kernel
    have hdone : archive plainDownload plainJob 4 = ⟨[], (archive plainDownload plainJob 4).written, true⟩ := by
      rfl
    by_cases hk : k < 4
    · have hvisit := List.all_eq_true.mp hfirst k (List.mem_range.mpr hk)
      rw [show (archive plainDownload plainJob k).stack.head? = some p from hp] at hvisit
      obtain ⟨r, hr⟩ := Option.isSome_iff_exists.mp hvisit
      exact ⟨r, Checked.toOption_eq_some.mp hr⟩
    · obtain ⟨m, rfl⟩ := Nat.exists_eq_add_of_le' (Nat.le_of_not_lt hk)
      rw [Worklist.run_add, show Worklist.run _ 4 _ = _ from hdone, Worklist.run_done] at hp
      cases hp
  obtain ⟨k, _, hstack, hdone, _⟩ := archive_complete (n := named "d") rfl rfl hlinks hok
  exact ⟨k, hstack, hdone⟩

end WeaveGate.Static
