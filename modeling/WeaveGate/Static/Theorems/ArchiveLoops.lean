import Mathlib.Data.Fintype.EquivFin
import Mathlib.Logic.Relation
import WeaveGate.Static.ArchiveGraph
import WeaveGate.Static.Theorems.ArchiveTree

/-!
# Archives of directories with loops

The archive task follows links by name and keeps no record of where it has been.
-/

namespace WeaveGate.Static

open Posix (Path Name Errno)
open Relation (ReflTransGen TransGen)

namespace DirGraph

variable {g : DirGraph} {job : ArchiveJob} (store : Path → Path → Except Errno TarEntry) {p : Pending} {v w : g.Node}

/-! ## Paths of a graph -/

theorem entry?_of_mem {es : List (Name × Bool × g.Node)} (hes : g.entries v = some es) {name : Name} {link : Bool}
    (h : (name, link, w) ∈ es) : g.entry? v name = some (link, w) := by
  have hnodup := g.nodup v es hes
  unfold entry?
  rw [hes, Option.getD_some]
  clear hes
  induction es with
  | nil => cases h
  | cons e es ih =>
      rw [List.map_cons, List.nodup_cons] at hnodup
      rcases List.mem_cons.mp h with rfl | h
      · rw [List.lookup_cons, beq_self_eq_true]
      · have hne : (name == e.1) = false := by
          rw [beq_eq_false_iff_ne]
          rintro rfl
          exact hnodup.1 (List.mem_map.mpr ⟨_, h, rfl⟩)
        rw [List.lookup_cons, hne]
        exact ih h hnodup.2

theorem rel?_srcAt (job : ArchiveJob) (rel : List Name) : rel? job.srcPath (srcAt job rel) = some rel := by
  have hstrip : Posix.Path.stripPrefix (srcAt job rel) job.srcPath = some (rel.map .normal) :=
    Posix.Path.stripPrefix_eq_some.mpr rfl
  rw [rel?, hstrip, Option.bind_some]
  clear hstrip
  induction rel with
  | nil => rfl
  | cons name rel ih =>
      rw [List.map_cons, List.mapM_cons, ih]
      rfl

theorem walk_append (v : g.Node) (rel : List Name) (name : Name) :
    g.walk v (rel ++ [name]) = (g.walk v rel).bind fun u => (g.entry? u name).map Prod.snd := by
  unfold walk
  rw [List.foldlM_append]
  simp

/-! ## One turn -/

/-- A path on the stack that leads to `v`, with the types its entry has. -/
structure PlacedAt (g : DirGraph) (job : ArchiveJob) (v : g.Node) (p : Pending) : Prop where
  rel : ∃ rel, p.src = srcAt job rel ∧ g.walk g.root rel = some v
  followed : (p.isDir || p.isSymlink && (g.entries v).isSome) = (g.entries v).isSome

theorem PlacedAt.node? (h : PlacedAt g job v p) : g.node? job.srcPath p.src = some v := by
  obtain ⟨rel, hsrc, hwalk⟩ := h.rel
  rw [DirGraph.node?, hsrc, rel?_srcAt, Option.bind_some, hwalk]

theorem placedAt_root (g : DirGraph) (job : ArchiveJob) : PlacedAt g job g.root job.root where
  rel := ⟨[], (List.append_nil _).symm, rfl⟩
  followed := by
    rw [g.root_dir]
    rfl

theorem placedAt_entry (h : PlacedAt g job v p) {es : List (Name × Bool × g.Node)} (hes : g.entries v = some es)
    {name : Name} {link : Bool} (hmem : (name, link, w) ∈ es) : ∃ q,
      (do
        let path := p.src.push [.normal name]
        let fileType ← (g.calls job.srcPath store).fileType path
        return ({ src := path, isDir := fileType.1, isSymlink := fileType.2 } : Pending)) = .ok q ∧
      PlacedAt g job w q := by
  obtain ⟨rel, hsrc, hwalk⟩ := h.rel
  have hentry := entry?_of_mem hes hmem
  have htype : (g.calls job.srcPath store).fileType (srcAt job (rel ++ [name])) =
      .ok (!link && (g.entries w).isSome, link) := by
    unfold calls
    dsimp only
    rw [rel?_srcAt]
    simp [hwalk, hentry]
  rw [hsrc, srcAt_append]
  dsimp only
  rw [htype]
  refine ⟨_, rfl, ⟨rel ++ [name], rfl, by rw [walk_append, hwalk, Option.bind_some, hentry]; rfl⟩, ?_⟩
  cases link <;> cases (g.entries w).isSome <;> rfl

theorem PlacedAt.isDir (h : PlacedAt g job v p) :
    (g.calls job.srcPath store).isDir p.src = (g.entries v).isSome := by
  unfold calls
  dsimp only
  rw [h.node?]
  rfl

theorem PlacedAt.readDir (h : PlacedAt g job v p) {es : List (Name × Bool × g.Node)} (hes : g.entries v = some es) :
    (g.calls job.srcPath store).readDir p.src = .ok (es.map Prod.fst) := by
  unfold calls
  dsimp only
  rw [h.node?, Option.bind_some, hes]
  rfl

theorem PlacedAt.exists_dest (h : PlacedAt g job v p) :
    ∃ rel : List Name, Posix.Path.stripPrefix p.src job.srcPath = some (rel.map .normal) := by
  obtain ⟨rel, hsrc, _⟩ := h.rel
  exact ⟨rel, Posix.Path.stripPrefix_eq_some.mpr hsrc⟩

/-- The visible entries of a directory are what goes on the stack. -/
theorem pending_dir (h : PlacedAt g job v p) {es : List (Name × Bool × g.Node)} (hes : g.entries v = some es) :
    ∃ pending, pendingEntriesWith (g.calls job.srcPath store) job.ignoreHidden p.src = .ok pending ∧
      (∀ q ∈ pending, ∃ w, g.Child job.ignoreHidden v w ∧ PlacedAt g job w q) ∧
      ∀ w, g.Child job.ignoreHidden v w → ∃ q ∈ pending, PlacedAt g job w q := by
  have hall : ∀ name ∈ (es.map Prod.fst).filter fun name => !(job.ignoreHidden && isDotfile name), ∃ q,
      (do
        let path := p.src.push [.normal name]
        let fileType ← (g.calls job.srcPath store).fileType path
        return ({ src := path, isDir := fileType.1, isSymlink := fileType.2 } : Pending)) = .ok q ∧
      ∃ link w, (name, link, w) ∈ es ∧ (job.ignoreHidden && isDotfile name) = false ∧ PlacedAt g job w q := by
    intro name hname
    obtain ⟨hname, hshown⟩ := List.mem_filter.mp hname
    obtain ⟨⟨name', link, w⟩, hmem, rfl⟩ := List.mem_map.mp hname
    obtain ⟨q, hq, hplaced⟩ := placedAt_entry store h hes hmem
    exact ⟨q, hq, link, w, hmem, by rwa [Bool.not_eq_true'] at hshown, hplaced⟩
  obtain ⟨pending, hpending, hplaced⟩ := Checked.exists_mapM_forall₂ hall
  refine ⟨pending, ?_, fun q hq => ?_, fun w hw => ?_⟩
  · unfold pendingEntriesWith
    rw [h.readDir store hes]
    exact hpending
  · obtain ⟨name, _, link, w, hmem, hshown, hplaced⟩ := Checked.exists_left hplaced hq
    exact ⟨w, ⟨es, name, link, hes, hmem, hshown⟩, hplaced⟩
  · obtain ⟨es', name, link, hes', hmem, hshown⟩ := hw
    rw [hes, Option.some.injEq] at hes'
    subst hes'
    have hname : name ∈ (es.map Prod.fst).filter fun name => !(job.ignoreHidden && isDotfile name) :=
      List.mem_filter.mpr ⟨List.mem_map.mpr ⟨_, hmem, rfl⟩, by simp [hshown]⟩
    obtain ⟨q, hq, link', w', hmem', _, hplaced⟩ := Checked.exists_right hplaced hname
    have hsame := (entry?_of_mem hes hmem).symm.trans (entry?_of_mem hes hmem')
    cases hsame
    exact ⟨q, hq, hplaced⟩

theorem visit_dir (hfollow : job.followSymlinks = true) (h : PlacedAt g job v p)
    {es : List (Name × Bool × g.Node)} (hes : g.entries v = some es) :
    ∃ pushed written, archiveVisitWith (g.calls job.srcPath store) job p = .ok (pushed, written) ∧
      (∀ q ∈ pushed, ∃ w, g.Child job.ignoreHidden v w ∧ PlacedAt g job w q) ∧
      ∀ w, g.Child job.ignoreHidden v w → ∃ q ∈ pushed, PlacedAt g job w q := by
  obtain ⟨pending, hpending, hchildren, hall⟩ := pending_dir store h hes
  obtain ⟨rel, hrel⟩ := h.exists_dest
  have hdir : (p.isDir || p.isSymlink && job.followSymlinks && (g.calls job.srcPath store).isDir p.src) = true := by
    have hfollowed := h.followed
    rw [hes] at hfollowed
    rw [hfollow, h.isDir store, hes]
    simpa using hfollowed
  let dest := job.path.push (rel.map .normal)
  refine ⟨pending.reverse, if dest ≠ [] then [.dir dest] else [], ?_, fun q hq => ?_, fun w hw => ?_⟩
  · unfold archiveVisitWith
    rw [hrel]
    show (if _ then _ else _) = _
    rw [if_pos hdir, hpending]
    rfl
  · exact hchildren q (List.mem_reverse.mp hq)
  · obtain ⟨q, hq, hplaced⟩ := hall w hw
    exact ⟨q, List.mem_reverse.mpr hq, hplaced⟩

theorem visit_file (h : PlacedAt g job v p) (hes : g.entries v = none) :
    ∃ dest, archiveVisitWith (g.calls job.srcPath store) job p = (store p.src dest).map fun e => ([], [e]) := by
  obtain ⟨rel, hrel⟩ := h.exists_dest
  have hfile : (p.isDir || p.isSymlink && job.followSymlinks && (g.calls job.srcPath store).isDir p.src) = false := by
    have hfollowed := h.followed
    rw [hes] at hfollowed
    rw [h.isDir store, hes]
    simpa using hfollowed
  refine ⟨job.path.push (rel.map .normal), ?_⟩
  unfold archiveVisitWith
  rw [hrel]
  show (if _ then _ else _) = _
  rw [if_neg (by rw [hfile]; decide)]
  show (store p.src _ >>= _) = _
  cases store p.src (job.path.push (rel.map .normal)) <;> rfl

/-! ## Directories that can be reached again -/

/-- Whether the loop ends from the root. -/
def Ends (g : DirGraph) (job : ArchiveJob) (store : Path → Path → Except Errno TarEntry) : Prop :=
  ∃ k, (Worklist.run (archiveVisitWith (g.calls job.srcPath store) job) k (Worklist.start job.root)).done = true

/-- From `v` on, the way down can be continued without end. -/
def Endless (g : DirGraph) (ignoreHidden : Bool) (v : g.Node) : Prop :=
  ∃ c, ReflTransGen (g.Child ignoreHidden) v c ∧ TransGen (g.Child ignoreHidden) c c

theorem Endless.child {ignoreHidden : Bool} (h : Endless g ignoreHidden v) :
    ∃ w, g.Child ignoreHidden v w ∧ Endless g ignoreHidden w := by
  obtain ⟨c, hreach, hcycle⟩ := h
  rcases hreach.cases_head with rfl | ⟨w, hchild, hreach⟩
  · obtain ⟨w, hchild, hback⟩ := TransGen.head'_iff.mp hcycle
    exact ⟨w, hchild, v, hback, hcycle⟩
  · exact ⟨w, hchild, c, hreach, hcycle⟩

theorem leadsDown_of_endless (hfollow : job.followSymlinks = true) (hv : Endless g job.ignoreHidden v)
    (hp : PlacedAt g job v p) (n : Nat) :
    Worklist.LeadsDown (archiveVisitWith (g.calls job.srcPath store) job) n p := by
  induction n generalizing v p with
  | zero => trivial
  | succ n ih =>
      obtain ⟨w, hchild, hw⟩ := hv.child
      obtain ⟨es, _, _, hes, _⟩ := id hchild
      obtain ⟨pushed, written, hvisit, _, hpushed⟩ := visit_dir store hfollow hp hes
      obtain ⟨q, hq, hplaced⟩ := hpushed w hchild
      exact ⟨pushed, written, hvisit, q, hq, ih hw hplaced⟩

/-- Where a directory comes round again, the loop goes on as long as all files can be stored. -/
theorem not_ends_of_endless (hfollow : job.followSymlinks = true) (h : Endless g job.ignoreHidden g.root)
    (hstore : ∀ src dest, ∃ e, store src dest = .ok e) : ¬ Ends g job store := by
  rintro ⟨k, hdone⟩
  have hvisit : ∀ p, (∃ v, PlacedAt g job v p) → ∃ pushed written,
      archiveVisitWith (g.calls job.srcPath store) job p = .ok (pushed, written) ∧
        ∀ q ∈ pushed, ∃ v, PlacedAt g job v q := by
    rintro p ⟨v, hp⟩
    cases hes : g.entries v with
    | none =>
        obtain ⟨dest, hvisit⟩ := visit_file store hp hes
        obtain ⟨e, he⟩ := hstore p.src dest
        exact ⟨[], [e], by rw [hvisit, he]; rfl, by simp⟩
    | some es =>
        obtain ⟨pushed, written, hvisit, hpushed, _⟩ := visit_dir store hfollow hp hes
        exact ⟨pushed, written, hvisit, fun q hq => (hpushed q hq).imp fun _ h => h.2⟩
  have hroot := placedAt_root g job
  have hrun := Worklist.done_eq_false hvisit (leadsDown_of_endless store hfollow h hroot k)
    (s := Worklist.start job.root) (by simp [Worklist.start])
    (fun q hq => ⟨g.root, by rwa [List.mem_singleton.mp hq]⟩) rfl
  rw [hdone] at hrun
  cases hrun

theorem wellFounded_child {ignoreHidden : Bool} (h : ¬ Endless g ignoreHidden g.root) :
    WellFounded fun w v => g.Child ignoreHidden v w ∧ ReflTransGen (g.Child ignoreHidden) g.root v := by
  have := g.finite
  let down : g.Node → g.Node → Prop :=
    fun w v => g.Child ignoreHidden v w ∧ ReflTransGen (g.Child ignoreHidden) g.root v
  have hirrefl : ∀ v, ¬ TransGen down v v := by
    intro v hv
    obtain ⟨w, _, hlast⟩ := TransGen.tail'_iff.mp hv
    have hswap : TransGen (Function.swap (g.Child ignoreHidden)) v v := TransGen.mono (fun _ _ hd => hd.1) _ _ hv
    exact h ⟨v, hlast.2, Relation.transGen_swap.mp hswap⟩
  have : Std.Irrefl (TransGen down) := ⟨hirrefl⟩
  have hwf : WellFounded (TransGen down) := Finite.wellFounded_of_trans_of_irrefl (TransGen down)
  have hsub : Subrelation down (TransGen down) := fun hd => TransGen.single hd
  exact Subrelation.wf hsub hwf

/-- The node that a path on the stack leads to goes down with every turn. -/
theorem wellFounded_node? {r : g.Node → g.Node → Prop} (wf : WellFounded r) :
    WellFounded fun a b : Option g.Node => ∃ w v, a = some w ∧ b = some v ∧ r w v := by
  have hsome : ∀ v, Acc (fun a b : Option g.Node => ∃ w v, a = some w ∧ b = some v ∧ r w v) (some v) := by
    intro v
    induction v using wf.induction with
    | _ v ih =>
        refine ⟨_, ?_⟩
        rintro _ ⟨w, v', rfl, hv, hlower⟩
        cases hv
        exact ih w hlower
  refine ⟨fun b => ?_⟩
  cases b with
  | some v => exact hsome v
  | none =>
      refine ⟨_, ?_⟩
      rintro _ ⟨_, _, _, hnone, _⟩
      cases hnone

theorem ends_of_not_endless (hfollow : job.followSymlinks = true) (h : ¬ Endless g job.ignoreHidden g.root) :
    Ends g job store := by
  refine Worklist.exists_done (wellFounded_node? (wellFounded_child h)) (fun p => g.node? job.srcPath p.src)
    (P := fun p => ∃ v, PlacedAt g job v p ∧ ReflTransGen (g.Child job.ignoreHidden) g.root v) ?_
    ⟨g.root, placedAt_root g job, .refl⟩
  rintro p pushed written hvisit ⟨v, hp, hreach⟩ q hq
  cases hes : g.entries v with
  | none =>
      obtain ⟨dest, hfile⟩ := visit_file store hp hes
      rw [hfile] at hvisit
      cases hstored : store p.src dest with
      | error e => rw [hstored] at hvisit; cases hvisit
      | ok e =>
          rw [hstored] at hvisit
          cases hvisit
          cases hq
  | some es =>
      obtain ⟨pushed', written', hdir, hpushed, _⟩ := visit_dir store hfollow hp hes
      rw [hvisit] at hdir
      cases hdir
      obtain ⟨w, hchild, hplaced⟩ := hpushed q hq
      exact ⟨⟨w, hplaced, hreach.tail hchild⟩, w, v, hplaced.node?, hp.node?, hchild, hreach⟩

/-- With links followed, the loop ends, however storing files goes, exactly when no directory that is reached through
the entries can be reached again from itself. -/
theorem archive_ends_iff (g : DirGraph) {job : ArchiveJob} (hfollow : job.followSymlinks = true) :
    (∀ store, Ends g job store) ↔ ∀ v, ReflTransGen (g.Child job.ignoreHidden) g.root v →
      ¬ TransGen (g.Child job.ignoreHidden) v v := by
  have hcycle : (∀ v, ReflTransGen (g.Child job.ignoreHidden) g.root v → ¬ TransGen (g.Child job.ignoreHidden) v v) ↔
      ¬ Endless g job.ignoreHidden g.root := by simp [Endless]
  rw [hcycle]
  refine ⟨fun hends hendless => ?_, fun hno store => ends_of_not_endless store hfollow hno⟩
  exact not_ends_of_endless _ hfollow hendless (fun _ dest => ⟨.dir dest, rfl⟩) (hends fun _ dest => .ok (.dir dest))

/-- A directory with one regular file. -/
def withFile (name : Name) : DirGraph where
  Node := Bool
  finite := inferInstance
  entries := fun isDir => if isDir then some [(name, false, false)] else none
  nodup := by
    intro v es hes
    cases v with
    | false => cases hes
    | true => cases hes; simp
  root := true
  root_dir := rfl

theorem archive_ends_withFile : plainJob.followSymlinks = true ∧
    ∀ store, Ends (withFile (named "a.txt")) plainJob store := by
  have hchild : ∀ v w : Bool, (withFile (named "a.txt")).Child true v w → v = true ∧ w = false := by
    rintro v w ⟨es, name, link, hes, hmem, _⟩
    cases v with
    | false => cases hes
    | true =>
        cases hes
        cases List.mem_singleton.mp hmem
        exact ⟨rfl, rfl⟩
  refine ⟨rfl, (archive_ends_iff (withFile (named "a.txt")) rfl).mpr ?_⟩
  rintro v _ hv
  obtain ⟨_, hfirst, _⟩ := TransGen.head'_iff.mp hv
  obtain ⟨_, _, hlast⟩ := TransGen.tail'_iff.mp hv
  exact absurd ((hchild _ _ hfirst).1.symm.trans (hchild _ _ hlast).2) (by decide)

/-- A directory whose only entry is a link to itself. -/
def linkToSelf (name : Name) : DirGraph where
  Node := Unit
  finite := inferInstance
  entries := fun _ => some [(name, true, ())]
  nodup := by
    rintro v es ⟨⟩
    simp
  root := ()
  root_dir := rfl

theorem archive_of_link_to_self_goes_on : plainJob.followSymlinks = true ∧
    ¬ Ends (linkToSelf (named "up")) plainJob fun _ dest => .ok (.dir dest) := by
  have hself : (linkToSelf (named "up")).Child plainJob.ignoreHidden () () :=
    ⟨_, named "up", true, rfl, List.mem_singleton.mpr rfl, by decide⟩
  exact ⟨rfl, not_ends_of_endless _ rfl ⟨(), .refl, .single hself⟩ fun _ dest => ⟨.dir dest, rfl⟩⟩

end DirGraph

end WeaveGate.Static
