import WeaveGate.Static.Lemmas.MemCache
import WeaveGate.Static.Lemmas.Served
import WeaveGate.Static.Theorems.Access

/-!
# Hosts that share a cache

One server serves the files of several hosts and keeps them in one cache. In any run, each host is answered as by a
server that it has for itself.
-/

namespace WeaveGate.Static

open Posix (Octets Path FileTree Below)

variable {crates : Crates} {t t' : FileTree} {store : Store} {base : Path} {opts : HandleOpts} {s s' : Server}

/-! ## Streams of other hosts -/

/-- What the stream adds to the cache does not lie below the base. -/
def Reading.Foreign (base : Path) (r : Reading) : Prop :=
  ∀ memOpts capacity, r.stream.mem = some (memOpts, capacity) → ¬ base <+: memOpts.filePath

theorem Reading.Foreign.pollNext {r : Reading} (h : r.Foreign base) (n : Nat) : (r.pollNext n).Foreign base := h

theorem Reading.entry_key {r : Reading} {n : Nat} {e : Path × MemFile} (h : r.entry n = some e) :
    ∃ memOpts capacity, r.stream.mem = some (memOpts, capacity) ∧ e.1 = memOpts.filePath := by
  unfold Reading.entry at h
  split at h
  · rename_i memOpts capacity buf hmem _
    dsimp only at h
    split at h
    · cases h
      exact ⟨memOpts, capacity, hmem, rfl⟩
    · cases h
  · cases h

/-- Neither directory lies in the other. -/
def Apart (base other : Path) : Prop := ¬ base <+: other ∧ ¬ other <+: base

theorem FileMetadata.checkedPath_isPrefix (m : FileMetadata) : m.checkedPath <+: m.filePath := by
  unfold FileMetadata.checkedPath
  split
  · exact Posix.Path.pop_isPrefix _
  · exact List.prefix_refl _

theorem handle_stream_foreign (hapart : Apart base opts.basePath) {r : StaticFileResponse} {stream : FileStream}
    (h : handle crates t store opts = .ok r) (hs : r.resp.body = .stream stream) :
    (Reading.start stream).Foreign base := by
  intro memOpts capacity hmem hbelow
  change stream.mem = _ at hmem
  rcases handle_ok h with ⟨entry, _, hresp⟩ | ⟨_, hfile⟩
  · rw [hresp] at hs
    rcases entry.responseBody_body opts.headers with hempty | ⟨_, hs', _, hnone⟩
    · cases hempty.symm.trans hs
    · cases hs'.symm.trans hs
      cases hnone.symm.trans hmem
  · obtain ⟨m, _, hcheck, hrespond, _⟩ := handleFile_ok hfile
    obtain ⟨file, modified, range, first, last, _, _, rfl⟩ := respond_stream hrespond hs
    obtain ⟨rel, _, hchecked, _⟩ := checkAccess_ok hcheck
    have hother : opts.basePath <+: m.filePath :=
      List.IsPrefix.trans ⟨rel, hchecked.symm⟩ m.checkedPath_isPrefix
    have hpath : memOpts.filePath = m.filePath := by
      unfold fileStream at hmem
      dsimp only at hmem
      split at hmem
      · cases hmem
        rfl
      · cases hmem
    rw [hpath] at hbelow
    exact (List.prefix_or_prefix_of_prefix hbelow hother).elim hapart.1 hapart.2

/-! ## The streams of a host among those of all -/

inductive OwnReadings (base : Path) : List Reading → List Reading → Prop where
  | nil : OwnReadings base [] []
  | own {r : Reading} {rs rs' : List Reading} (rest : OwnReadings base rs rs') : OwnReadings base (r :: rs) (r :: rs')
  | other {r : Reading} {rs rs' : List Reading} (foreign : r.Foreign base) (rest : OwnReadings base rs rs') :
      OwnReadings base (r :: rs) rs'

namespace OwnReadings

variable {rs rs' : List Reading}

theorem append_own (h : OwnReadings base rs rs') (new : List Reading) : OwnReadings base (rs ++ new) (rs' ++ new) := by
  induction h with
  | nil =>
      induction new with
      | nil => exact .nil
      | cons r new ih => exact .own ih
  | own _ ih => exact .own ih
  | other foreign _ ih => exact .other foreign ih

theorem append_other (h : OwnReadings base rs rs') {new : List Reading} (hnew : ∀ r ∈ new, r.Foreign base) :
    OwnReadings base (rs ++ new) rs' := by
  induction h with
  | nil =>
      induction new with
      | nil => exact .nil
      | cons r new ih =>
          obtain ⟨hr, hnew⟩ := List.forall_mem_cons.mp hnew
          exact .other hr (ih hnew)
  | own _ ih => exact .own ih
  | other foreign _ ih => exact .other foreign ih

/-- A stream that is read is another's, or one of the host's in its place. -/
theorem get (h : OwnReadings base rs rs') {k : Nat} {r : Reading} (hr : rs[k]? = some r) :
    (r.Foreign base ∧ ∀ r₂, r₂.Foreign base → OwnReadings base (rs.set k r₂) rs') ∨
      ∃ k', rs'[k']? = some r ∧ ∀ r₂, OwnReadings base (rs.set k r₂) (rs'.set k' r₂) := by
  induction h generalizing k with
  | nil => cases hr
  | @own first rs rs' rest ih =>
      cases k with
      | zero =>
          cases hr
          exact .inr ⟨0, rfl, fun _ => .own rest⟩
      | succ k =>
          rcases ih hr with ⟨hforeign, hset⟩ | ⟨k', hk', hset⟩
          · exact .inl ⟨hforeign, fun r₂ h₂ => .own (hset r₂ h₂)⟩
          · exact .inr ⟨k' + 1, hk', fun r₂ => .own (hset r₂)⟩
  | @other first rs rs' foreign rest ih =>
      cases k with
      | zero =>
          cases hr
          exact .inl ⟨foreign, fun _ h₂ => .other h₂ rest⟩
      | succ k =>
          rcases ih hr with ⟨hforeign, hset⟩ | ⟨k', hk', hset⟩
          · exact .inl ⟨hforeign, fun r₂ h₂ => .other foreign (hset r₂ h₂)⟩
          · exact .inr ⟨k', hk', fun r₂ => .other foreign (hset r₂)⟩

end OwnReadings

/-! ## One step of the shared server -/

/-- What the host has of the shared server is what it has of its own. -/
structure Shares (base : Path) (s s' : Server) : Prop where
  store : ∀ p, Below base p → s'.store.get? p = s.store.get? p
  readings : OwnReadings base s.readings s'.readings

/-- A request is for the host, or for one whose root lies elsewhere. -/
def Event.ForHosts (base : Path) (e : Event) : Prop := ∀ opts, e = .request opts →
  opts.basePath = base ∧ (∀ index ∈ opts.indexFiles, ∃ n, index = [.normal n]) ∨ Apart base opts.basePath

/-- The answer to a request that is for the host. -/
def answer? (crates : Crates) (base : Path) (t : FileTree) (s : Server) :
    Event → Option (Except Failure StaticFileResponse)
  | .request opts => if opts.basePath = base then some (handle crates t s.store opts) else none
  | .poll _ _ => none
  | .evict _ => none

theorem below_isPrefix {p : Path} (h : Below base p) : base <+: p := by
  obtain ⟨names, rfl⟩ := h
  exact List.prefix_append _ _

/-- A step of the shared server is none of the host's, or is taken by the host's own server as well. -/
theorem Shares.serve (h : Shares base s s') (hserved : SameServed t t' base) {e : Event} (he : e.ForHosts base) :
    (Shares base (serve crates t s e) s' ∧ answer? crates base t s e = none) ∨
      ∃ e', (∀ opts, e' = .request opts → opts.basePath = base) ∧
        Shares base (serve crates t s e) (serve crates t' s' e') ∧
        answer? crates base t' s' e' = answer? crates base t s e := by
  cases e with
  | request opts =>
      rcases he opts rfl with ⟨rfl, hindex⟩ | hapart
      · have halike : handle crates t' s'.store opts = handle crates t s.store opts :=
          handle_agree hserved hindex h.store
        refine .inr ⟨.request opts, fun _ heq => (by cases heq; rfl), ⟨h.store, ?_⟩, ?_⟩
        · unfold Static.serve
          dsimp only
          rw [halike]
          exact h.readings.append_own _
        · rw [answer?, answer?, halike]
      · have hne : opts.basePath ≠ base := fun heq => hapart.1 (heq ▸ List.prefix_refl _)
        refine .inl ⟨⟨h.store, h.readings.append_other fun r hr => ?_⟩, if_neg hne⟩
        rw [Option.mem_toList, Option.map_eq_some_iff] at hr
        obtain ⟨stream, hstream, rfl⟩ := hr
        obtain ⟨answer, hanswer, hbody⟩ := Option.bind_eq_some_iff.mp hstream
        rw [Checked.toOption_eq_some] at hanswer
        exact handle_stream_foreign hapart hanswer (Body.stream?_eq_some.mp hbody)
  | poll k n =>
      unfold Static.serve
      dsimp only
      cases hr : s.readings[k]? with
      | none => exact .inl ⟨h, rfl⟩
      | some r =>
          dsimp only
          rcases h.readings.get hr with ⟨hforeign, hset⟩ | ⟨k', hk', hset⟩
          · refine .inl ⟨⟨fun p hp => ?_, hset _ (hforeign.pollNext n)⟩, rfl⟩
            cases hentry : r.entry n with
            | none => exact h.store p hp
            | some e =>
                obtain ⟨memOpts, capacity, hmem, hkey⟩ := Reading.entry_key hentry
                have hne : e.1 ≠ p := fun heq =>
                  hforeign memOpts capacity hmem (hkey ▸ heq ▸ below_isPrefix hp)
                rw [Option.elim_some, Multimap.get?_insert, if_neg hne]
                exact h.store p hp
          · refine .inr ⟨.poll k' n, fun opts heq => (by cases heq), ?_, rfl⟩
            simp only [hk']
            refine ⟨fun p hp => ?_, hset _⟩
            cases r.entry n with
            | none => exact h.store p hp
            | some e =>
                rw [Option.elim_some, Option.elim_some, Multimap.get?_insert, Multimap.get?_insert, h.store p hp]
  | evict path =>
      refine .inr ⟨.evict path, fun opts heq => (by cases heq), ⟨fun p hp => ?_, h.readings⟩, rfl⟩
      change (s'.store.remove path).get? p = (s.store.remove path).get? p
      rw [Multimap.get?_remove, Multimap.get?_remove, h.store p hp]

/-! ## Runs -/

/-- The answers that the host's clients get in a run. The files may change at any time. -/
def answersOf (crates : Crates) (base : Path) :
    Server → List (FileTree × Event) → List (Except Failure StaticFileResponse)
  | _, [] => []
  | s, (t, e) :: steps => (answer? crates base t s e).toList ++ answersOf crates base (serve crates t s e) steps

/-- Only the host's clients ask, and nothing but these trees is ever read. -/
def OwnRun (base : Path) (trees : List FileTree) (steps : List (FileTree × Event)) : Prop :=
  ∀ step ∈ steps, step.1 ∈ trees ∧ ∀ opts, step.2 = .request opts → opts.basePath = base

theorem OwnRun.later {trees : List FileTree} {steps : List (FileTree × Event)} (h : OwnRun base trees steps)
    (t : FileTree) : OwnRun base (t :: trees) steps :=
  fun step hstep => ⟨List.mem_cons_of_mem t (h step hstep).1, (h step hstep).2⟩

theorem Shares.answersOf_eq (h : Shares base s s') {alone : FileTree → FileTree} {steps : List (FileTree × Event)}
    (hsteps : ∀ step ∈ steps, SameServed step.1 (alone step.1) base ∧ step.2.ForHosts base) :
    ∃ own, OwnRun base (steps.map fun step => alone step.1) own ∧
      answersOf crates base s' own = answersOf crates base s steps := by
  induction steps generalizing s s' with
  | nil => exact ⟨[], fun _ hmem => (by cases hmem), rfl⟩
  | cons step steps ih =>
      obtain ⟨t, e⟩ := step
      obtain ⟨⟨hserved, he⟩, hrest⟩ := List.forall_mem_cons.mp hsteps
      rcases h.serve hserved he with ⟨hnext, hnone⟩ | ⟨e', hrequest, hnext, halike⟩
      · obtain ⟨own, hown, heq⟩ := ih hnext hrest
        refine ⟨own, hown.later (alone t), ?_⟩
        rw [answersOf, hnone, heq]
        rfl
      · obtain ⟨own, hown, heq⟩ := ih hnext hrest
        refine ⟨(alone t, e') :: own, ?_, ?_⟩
        · exact List.forall_mem_cons.mpr ⟨⟨List.mem_cons_self, hrequest⟩, hown.later (alone t)⟩
        · rw [answersOf, answersOf, halike, heq]

/-- Whatever is asked of the shared server and however the files of others change, the clients of a host get the answers
of some run of a server that only they ask and that has none but the host's files. -/
theorem hosts_answered_alone (crates : Crates) (alone : FileTree → FileTree) {steps : List (FileTree × Event)}
    (hsteps : ∀ step ∈ steps, SameServed step.1 (alone step.1) base ∧ step.2.ForHosts base) :
    ∃ own, OwnRun base (steps.map fun step => alone step.1) own ∧
      answersOf crates base .empty own = answersOf crates base .empty steps :=
  Shares.answersOf_eq ⟨fun _ _ => rfl, .nil⟩ hsteps

def hostRoot (host : String) : Path := Posix.canonPath [named "srv", named host]

/-- `/srv/a` and `/srv/b` each hold a page. -/
def sharedTree (edited : Bool) : FileTree :=
  { nodes :=
      [ ([], sampleDir [named "srv"]),
        ([named "srv"], sampleDir [named "a", named "b"]),
        ([named "srv", named "a"], sampleDir [named "page.html"]),
        ([named "srv", named "a", named "page.html"], sampleFile (named "hello")),
        ([named "srv", named "b"], sampleDir [named "page.html"]),
        ([named "srv", named "b", named "page.html"], sampleFile (named (if edited then "new" else "old"))) ]
    cwd := [], symloopMax := 40, wf := by cases edited <;> decide }

/-- Only `/srv/a` is there. -/
def aloneTree : FileTree :=
  { nodes :=
      [ ([], sampleDir [named "srv"]),
        ([named "srv"], sampleDir [named "a"]),
        ([named "srv", named "a"], sampleDir [named "page.html"]),
        ([named "srv", named "a", named "page.html"], sampleFile (named "hello")) ]
    cwd := [], symloopMax := 40, wf := by decide }

def hostOpts (host : String) : HandleOpts :=
  { sampleOpts "/page.html" with basePath := hostRoot host, memoryCache := some { maxFileSize := 1024 } }

/-- Both pages come into the cache, one of them is edited, and both hosts are asked again. -/
def sharedRun : List (FileTree × Event) :=
  [ (sharedTree false, .request (hostOpts "b")), (sharedTree false, .request (hostOpts "a")),
    (sharedTree false, .poll 0 100), (sharedTree false, .poll 1 100),
    (sharedTree true, .request (hostOpts "b")), (sharedTree true, .request (hostOpts "a")) ]

theorem sharedTree_sameServed (edited : Bool) : SameServed (sharedTree edited) aloneTree (hostRoot "a") where
  below := by
    have hsame : (sharedTree edited).SameFiles aloneTree [named "srv", named "a"] :=
      .of_nodes (by cases edited <;> rfl) (by cases edited <;> decide)
    exact hsame.agreeBelow (by cases edited <;> rfl) rfl
  isDir := by cases edited <;> decide
  beside := by cases edited <;> decide

theorem hostOpts_forHosts {host : String} (h : host ∈ ["a", "b"]) :
    (Event.request (hostOpts host)).ForHosts (hostRoot "a") := by
  intro opts heq
  cases heq
  rcases List.mem_pair.mp h with rfl | rfl
  · exact .inl ⟨rfl, List.forall_mem_nil _⟩
  · exact .inr ⟨by decide, by decide⟩

/-- The host asks twice, and is answered as if the other were not there. -/
theorem hosts_answered_alone_cached : ∃ own, OwnRun (hostRoot "a") (sharedRun.map fun _ => aloneTree) own ∧
    answersOf sampleCrates (hostRoot "a") .empty own = answersOf sampleCrates (hostRoot "a") .empty sharedRun ∧
    (answersOf sampleCrates (hostRoot "a") .empty sharedRun).length = 2 := by
  have hpoll : ∀ k n, (Event.poll k n).ForHosts (hostRoot "a") := fun _ _ _ heq => by cases heq
  have hsteps : ∀ step ∈ sharedRun,
      SameServed step.1 aloneTree (hostRoot "a") ∧ step.2.ForHosts (hostRoot "a") := by
    simp only [sharedRun, List.forall_mem_cons]
    exact ⟨⟨sharedTree_sameServed _, hostOpts_forHosts (by decide)⟩,
      ⟨sharedTree_sameServed _, hostOpts_forHosts (by decide)⟩, ⟨sharedTree_sameServed _, hpoll _ _⟩,
      ⟨sharedTree_sameServed _, hpoll _ _⟩, ⟨sharedTree_sameServed _, hostOpts_forHosts (by decide)⟩,
      ⟨sharedTree_sameServed _, hostOpts_forHosts (by decide)⟩, List.forall_mem_nil _⟩
  obtain ⟨own, hown, halike⟩ := hosts_answered_alone sampleCrates (fun _ => aloneTree) hsteps
  exact ⟨own, hown, halike, by decide +kernel⟩

end WeaveGate.Static
