import WeaveGate.Static.Lemmas.MemCache
import WeaveGate.Static.Permit

/-!
# Requests for one file

Which requests the cache can answer once one of them has read the file, what each event can do where there are only
such requests, and what holds in all states.
-/

namespace WeaveGate.Static

open Http
open Posix (Octets Path FileTree)

variable {crates : Crates} {t : FileTree} {p : Path}

/-! ## Requests for one file -/

/-- The stream reads the whole file at the path, and collects it for the cache under this path. -/
def FileStream.fills (p : Path) (s : FileStream) : Bool :=
  s.source.path? = some p && s.bytes ≠ some [] &&
    s.mem.any fun (memOpts, capacity) => memOpts.filePath = p && s.bytes.any (·.length = capacity)

/-- A GET for a file that the cache can hold. -/
def isCacheable (crates : Crates) (t : FileTree) (p : Path) (opts : HandleOpts) : Bool :=
  opts.method = .get && opts.memoryCache.isSome && requestedPath opts = p && isUtf8 p &&
    (flowStream crates t opts).any (FileStream.fills p)

/-! ## Phases -/

def FetchPhase.inLine : FetchPhase → Bool
  | .acquiring | .permitted => true
  | _ => false

/-- Between the miss and the first read. -/
def FetchPhase.before : FetchPhase → Bool
  | .missed | .acquiring | .permitted | .continuing => true
  | _ => false

def FetchPhase.isReading : FetchPhase → Bool
  | .reading _ => true
  | _ => false

/-- Between the miss and the end of the read. -/
def FetchPhase.inFlight (phase : FetchPhase) : Bool := phase.before || phase.isReading

def FetchState.count (s : FetchState) (q : FetchPhase → Bool) : Nat := s.fetches.countP fun f => q f.phase

/-! ## What reading comes to -/

structure FileStream.Fills (p : Path) (s : FileStream) (memOpts : MemFileTempOpts) (content : Octets) : Prop where
  path : s.source.path? = some p
  bytes : s.bytes = some content
  nonempty : content ≠ []
  mem : s.mem = some (memOpts, content.length)
  key : memOpts.filePath = p

theorem FileStream.fills_eq_true {s : FileStream} (h : s.fills p = true) :
    ∃ memOpts content, s.Fills p memOpts content := by
  unfold fills at h
  simp only [Bool.and_eq_true, decide_eq_true_eq, Option.any_eq_true] at h
  obtain ⟨⟨hpath, hne⟩, ⟨memOpts, capacity⟩, hmem, hkey, content, hbytes, hlen⟩ := h
  refine ⟨memOpts, content, hpath, hbytes, ?_, ?_, hkey⟩
  · rintro rfl
    exact hne hbytes
  · rw [hmem, hlen]

/-- A read that is not at its end, with everything read so far in its buffer. -/
structure Reading.Fills (p : Path) (r : Reading) : Prop where
  stream : ∃ memOpts content, r.stream.Fills p memOpts content ∧ r.pos < content.length
  collected : ∃ buf, r.memBuf = some buf ∧ buf.length = r.pos

theorem Reading.Fills.start {s : FileStream} (h : s.fills p = true) : (Reading.start s).Fills p := by
  obtain ⟨memOpts, content, hfills⟩ := FileStream.fills_eq_true h
  refine ⟨⟨memOpts, content, hfills, List.length_pos_iff.mpr hfills.nonempty⟩, [], ?_, rfl⟩
  simp [Reading.start, hfills.mem]

/-- A read comes to its end exactly when it makes an entry, which is that of the path. -/
theorem Reading.Fills.poll {r : Reading} (h : r.Fills p) (n : Nat) :
    (∃ entry, r.entry n = some (p, entry) ∧ (r.pollNext n).atEnd = true) ∨
    (r.entry n = none ∧ (r.pollNext n).atEnd = false ∧ (r.pollNext n).Fills p) := by
  obtain ⟨⟨memOpts, content, hfills, hpos⟩, buf, hbuf, hlen⟩ := h
  have hchunk : (r.chunk n).length ≤ content.length - r.pos := by
    simp only [Reading.chunk, hfills.bytes, Option.getD_some, List.length_take, List.length_drop]
    omega
  have hend : ∀ r' : Reading, r'.stream = r.stream → (r'.atEnd = true ↔ content.length ≤ r'.pos) := by
    intro r' hr'
    simp [Reading.atEnd, hr', hfills.bytes]
  by_cases hlast : content.length ≤ r.pos + (r.chunk n).length
  · have hne : r.chunk n ≠ [] := by
      intro hnil
      rw [hnil, List.length_nil] at hlast
      omega
    refine .inl ⟨{ data := buf ++ r.chunk n, bufSize := r.stream.bufSize, contentType := memOpts.contentType
                   lastModified := memOpts.lastModified }, ?_, (hend (r.pollNext n) rfl).mpr hlast⟩
    have hfull : (buf ++ r.chunk n).length = content.length := by
      rw [List.length_append, hlen]
      omega
    simp only [Reading.entry, hfills.mem, hbuf, hne, hfull, hfills.key, ne_eq, not_false_eq_true, and_self, if_true]
  · have hentry : r.entry n = none := by
      have hfull : (buf ++ r.chunk n).length ≠ content.length := by
        rw [List.length_append, hlen]
        omega
      simp [Reading.entry, hfills.mem, hbuf] at hfull ⊢
      exact fun _ => hfull
    refine .inr ⟨hentry, ?_, ⟨memOpts, content, hfills, by simpa [Reading.pollNext] using hlast⟩,
      buf ++ r.chunk n, ?_, ?_⟩
    · exact Bool.eq_false_of_not_eq_true fun h => hlast ((hend (r.pollNext n) rfl).mp h)
    · simp [Reading.pollNext, hentry, hbuf]
    · simp [Reading.pollNext, hlen]

/-! ## One request alone -/

/-! ## What a step can do -/

/-- What holds in every state of requests for one file. -/
structure FetchState.Sound (crates : Crates) (t : FileTree) (p : Path) (s : FetchState) : Prop where
  cacheable : ∀ f ∈ s.fetches, isCacheable crates t p f.opts = true
  readings : ∀ f ∈ s.fetches, ∀ r, f.phase = .reading r → r.Fills p
  served : s.permit.Serves fun k => s.fetches[k]?.any (·.phase.inLine) = true
  permitted : ∀ k f, s.fetches[k]? = some f → f.phase = .permitted → s.permit.holder = some k
  /-- Who has waited has missed. -/
  waited : ∀ f ∈ s.fetches, f.waited = true → f.phase ≠ .arrived ∧ f.phase ≠ .answered true

/-- What an event can do where all requests are for one file. -/
inductive FetchMove (crates : Crates) (t : FileTree) (p : Path) (s : FetchState) :
    FetchEvent → FetchState → Prop where
  | idle (event : FetchEvent) : FetchMove crates t p s event s
  | arrive {opts : HandleOpts} (cacheable : isCacheable crates t p opts = true) :
      FetchMove crates t p s (.arrive opts) { s with fetches := s.fetches ++ [⟨opts, .arrived, false⟩] }
  | hit {k : Nat} {opts : HandleOpts} {waited : Bool} (fetch : s.fetches[k]? = some ⟨opts, .arrived, waited⟩)
      (stored : (s.store.get? p).isSome = true) :
      FetchMove crates t p s (.lookup k) (s.setFetch k ⟨opts, .answered true, waited⟩)
  | miss {k : Nat} {opts : HandleOpts} {waited : Bool} (fetch : s.fetches[k]? = some ⟨opts, .arrived, waited⟩)
      (absent : (s.store.get? p).isSome = false) :
      FetchMove crates t p s (.lookup k) (s.setFetch k ⟨opts, .missed, waited⟩)
  | acquire {k : Nat} {opts : HandleOpts} {waited : Bool} (fetch : s.fetches[k]? = some ⟨opts, .missed, waited⟩) :
      FetchMove crates t p s (.acquire k)
        ({ s with permit := s.permit.request k }.setFetch k ⟨opts, .acquiring, s.permit.holder.isSome⟩)
  | acquired {k : Nat} {opts : HandleOpts} {waited : Bool} (fetch : s.fetches[k]? = some ⟨opts, .acquiring, waited⟩)
      (holder : s.permit.holder = some k) :
      FetchMove crates t p s (.acquired k) (s.setFetch k ⟨opts, .permitted, waited⟩)
  | dropPermit {k : Nat} {opts : HandleOpts} {waited : Bool}
      (fetch : s.fetches[k]? = some ⟨opts, .permitted, waited⟩) :
      FetchMove crates t p s (.dropPermit k)
        ({ s with permit := s.permit.release }.setFetch k ⟨opts, .continuing, waited⟩)
  | proceed {k : Nat} {opts : HandleOpts} {waited : Bool} {r : Reading}
      (fetch : s.fetches[k]? = some ⟨opts, .continuing, waited⟩) (fills : r.Fills p) :
      FetchMove crates t p s (.proceed k)
        ({ s with opened := s.opened ++ [p] }.setFetch k ⟨opts, .reading r, waited⟩)
  | read {k n : Nat} {opts : HandleOpts} {waited : Bool} {r r' : Reading}
      (fetch : s.fetches[k]? = some ⟨opts, .reading r, waited⟩) (fills : r'.Fills p) :
      FetchMove crates t p s (.poll k n) (s.setFetch k ⟨opts, .reading r', waited⟩)
  | finish {k n : Nat} {opts : HandleOpts} {waited : Bool} {r : Reading} {entry : MemFile}
      (fetch : s.fetches[k]? = some ⟨opts, .reading r, waited⟩) :
      FetchMove crates t p s (.poll k n)
        ({ s with store := s.store.insert p entry }.setFetch k ⟨opts, .answered false, waited⟩)
  | evict {path : Path} (stored : (s.store.get? path).isSome = true) :
      FetchMove crates t p s (.evict path)
        { s with store := s.store.remove path, opened := s.opened.filter (· ≠ path) }

theorem lookupPhase_cacheable {store : Store} {opts : HandleOpts} (h : isCacheable crates t p opts = true) :
    lookupPhase store opts = if (store.get? p).isSome then .answered true else .missed := by
  simp only [isCacheable, Bool.and_eq_true, decide_eq_true_eq] at h
  obtain ⟨⟨⟨⟨hmethod, hcache⟩, hpath⟩, hutf8⟩, _⟩ := h
  have hallowed : isAllowed opts.method = true := by
    rw [hmethod]
    rfl
  obtain ⟨mem, hmem⟩ := Option.isSome_iff_exists.mp hcache
  simp [lookupPhase, hallowed, hmem, hpath, hutf8]

theorem fetchStep_move {s : FetchState} (hs : s.Sound crates t p) (event : FetchEvent)
    (harrive : ∀ opts, event = .arrive opts → isCacheable crates t p opts = true) :
    FetchMove crates t p s event (fetchStep crates t s event) := by
  cases event with
  | arrive opts => exact .arrive (harrive opts rfl)
  | lookup k =>
      simp only [fetchStep]
      split
      · rename_i opts waited hfetch
        rw [lookupPhase_cacheable (hs.cacheable _ (List.mem_of_getElem? hfetch))]
        cases hstored : (s.store.get? p).isSome with
        | true => exact .hit hfetch hstored
        | false => exact .miss hfetch hstored
      · exact .idle _
  | acquire k =>
      simp only [fetchStep]
      split
      · rename_i hfetch
        exact .acquire hfetch
      · exact .idle _
  | acquired k =>
      simp only [fetchStep]
      split
      · rename_i hfetch
        split
        · rename_i hholder
          exact .acquired hfetch hholder
        · exact .idle _
      · exact .idle _
  | dropPermit k =>
      simp only [fetchStep]
      split
      · rename_i hfetch
        exact .dropPermit hfetch
      · exact .idle _
  | proceed k =>
      simp only [fetchStep]
      split
      · rename_i opts waited hfetch
        have hcacheable := hs.cacheable _ (List.mem_of_getElem? hfetch)
        rw [isCacheable, Bool.and_eq_true, Option.any_eq_true] at hcacheable
        obtain ⟨_, stream, hstream, hfills⟩ := hcacheable
        obtain ⟨_, _, hpath⟩ := FileStream.fills_eq_true hfills
        rw [hstream]
        simp only [hpath.path, Option.toList_some]
        exact .proceed hfetch (.start hfills)
      · exact .idle _
  | poll k n =>
      simp only [fetchStep]
      split
      · rename_i opts r waited hfetch
        rcases (hs.readings _ (List.mem_of_getElem? hfetch) r rfl).poll n with
          ⟨entry, hentry, hend⟩ | ⟨hentry, hend, hfills⟩
        · simp only [hentry, Option.elim_some, hend, if_true]
          exact .finish hfetch
        · simp only [hentry, Option.elim_none, hend, Bool.false_eq_true, if_false]
          exact .read hfetch hfills
      · exact .idle _
  | evict path =>
      simp only [fetchStep]
      split
      · rename_i hstored
        exact .evict hstored
      · exact .idle _

/-! ## What holds in every state -/

theorem any_set {fetches : List Fetch} {k : Nat} {f : Fetch} (hfetch : fetches[k]? = some f) (f' : Fetch) (j : Nat)
    (q : Fetch → Bool) : (fetches.set k f')[j]?.any q = if j = k then q f' else fetches[j]?.any q := by
  obtain ⟨hk, _⟩ := List.getElem?_eq_some_iff.mp hfetch
  by_cases h : j = k
  · rw [h, List.getElem?_set_self hk, if_pos rfl, Option.any_some]
  · rw [List.getElem?_set_ne (Ne.symm h), if_neg h]

/-- One request goes on, and the permit is handed on. -/
theorem FetchState.Sound.setFetch {s s' : FetchState} (hs : s.Sound crates t p) {k : Nat} {f f' : Fetch}
    (hfetch : s.fetches[k]? = some f) (hset : s'.fetches = s.fetches.set k f') (hopts : f'.opts = f.opts)
    (hreading : ∀ r, f'.phase = .reading r → r.Fills p)
    (hserved : s'.permit.Serves fun j => (if j = k then f'.phase.inLine else s.fetches[j]?.any (·.phase.inLine)) = true)
    (hpermitted : f'.phase = .permitted → s'.permit.holder = some k)
    (hholder : ∀ j, j ≠ k → s.permit.holder = some j → s'.permit.holder = some j)
    (hwaited : f'.waited = true → f'.phase ≠ .arrived ∧ f'.phase ≠ .answered true) : s'.Sound crates t p := by
  have hmem : ∀ g ∈ s'.fetches, g ∈ s.fetches ∨ g = f' := by
    intro g hg
    rw [hset] at hg
    exact List.mem_or_eq_of_mem_set hg
  refine ⟨fun g hg => ?_, fun g hg => ?_, ?_, fun j g hg hphase => ?_, fun g hg => ?_⟩
  · rcases hmem g hg with hg | rfl
    · exact hs.cacheable g hg
    · rw [hopts]
      exact hs.cacheable f (List.mem_of_getElem? hfetch)
  · rcases hmem g hg with hg | rfl
    · exact hs.readings g hg
    · exact hreading
  · refine hserved.congr fun j => ?_
    rw [hset, any_set hfetch]
  · rw [hset] at hg
    by_cases h : j = k
    · subst h
      obtain ⟨hj, _⟩ := List.getElem?_eq_some_iff.mp hfetch
      rw [List.getElem?_set_self hj] at hg
      cases hg
      exact hpermitted hphase
    · rw [List.getElem?_set_ne (Ne.symm h)] at hg
      exact hholder j h (hs.permitted j g hg hphase)
  · rcases hmem g hg with hg | rfl
    · exact hs.waited g hg
    · exact hwaited

/-- One request goes on, and its place in the line is what it was. -/
theorem FetchState.Sound.goOn {s s' : FetchState} (hs : s.Sound crates t p) {k : Nat} {f f' : Fetch}
    (hfetch : s.fetches[k]? = some f) (hset : s'.fetches = s.fetches.set k f') (hpermit : s'.permit = s.permit)
    (hopts : f'.opts = f.opts) (hreading : ∀ r, f'.phase = .reading r → r.Fills p)
    (hline : f'.phase.inLine = f.phase.inLine) (hpermitted : f'.phase = .permitted → s.permit.holder = some k)
    (hwaited : f'.waited = true → f'.phase ≠ .arrived ∧ f'.phase ≠ .answered true) : s'.Sound crates t p := by
  refine hs.setFetch hfetch hset hopts hreading ?_ (by rwa [hpermit]) (fun j _ hj => by rwa [hpermit]) hwaited
  rw [hpermit]
  refine hs.served.congr fun j => ?_
  by_cases h : j = k
  · rw [if_pos h, h, hfetch, hline, Option.any_some]
  · rw [if_neg h]

theorem FetchState.Sound.arrive {s : FetchState} (hs : s.Sound crates t p) {opts : HandleOpts}
    (hopts : isCacheable crates t p opts = true) :
    { s with fetches := s.fetches ++ [⟨opts, .arrived, false⟩] : FetchState }.Sound crates t p := by
  have hmem : ∀ f ∈ s.fetches ++ [⟨opts, .arrived, false⟩], f ∈ s.fetches ∨ f = ⟨opts, .arrived, false⟩ := by
    intro f hf
    simpa using hf
  refine ⟨fun f hf => ?_, fun f hf r hr => ?_, ?_, fun k f hf hphase => ?_, fun f hf hw => ?_⟩
  · rcases hmem f hf with hf | rfl
    · exact hs.cacheable f hf
    · exact hopts
  · rcases hmem f hf with hf | rfl
    · exact hs.readings f hf r hr
    · cases hr
  · refine hs.served.congr fun k => ?_
    rcases Nat.lt_trichotomy k s.fetches.length with hk | hk | hk
    · simp [List.getElem?_append_left hk]
    · simp [hk, FetchPhase.inLine]
    · simp [List.getElem?_eq_none (Nat.le_of_lt hk), List.getElem?_append_right (Nat.le_of_lt hk),
        Nat.sub_ne_zero_of_lt hk]
  · rw [List.getElem?_append] at hf
    split at hf
    · exact hs.permitted k f hf hphase
    · obtain ⟨_, rfl⟩ := List.getElem?_eq_some_iff.mp hf
      simp at hphase
  · rcases hmem f hf with hf | rfl
    · exact hs.waited f hf hw
    · cases hw

theorem FetchMove.sound {s s' : FetchState} {event : FetchEvent} (h : FetchMove crates t p s event s')
    (hs : s.Sound crates t p) : s'.Sound crates t p := by
  cases h with
  | idle => exact hs
  | arrive cacheable => exact hs.arrive cacheable
  | hit fetch stored =>
      exact hs.goOn fetch rfl rfl rfl (fun r hr => by cases hr) rfl (fun hphase => by cases hphase) fun hw =>
        absurd rfl (hs.waited _ (List.mem_of_getElem? fetch) hw).1
  | miss fetch absent =>
      exact hs.goOn fetch rfl rfl rfl (fun r hr => by cases hr) rfl (fun hphase => by cases hphase) fun hw =>
        absurd rfl (hs.waited _ (List.mem_of_getElem? fetch) hw).1
  | acquire fetch =>
      refine hs.setFetch fetch rfl rfl (fun r hr => by cases hr) (hs.served.request ?_ fun j => ?_)
        (fun hphase => by cases hphase) (fun j _ hj => FairLock.holder_request hj _) fun _ => by simp
      · simp [fetch, FetchPhase.inLine]
      · rename_i k opts waited
        by_cases h : j = k
        · simp [h, FetchPhase.inLine]
        · simp [h]
  | acquired fetch holder =>
      refine hs.goOn fetch rfl rfl rfl (fun r hr => by cases hr) rfl (fun _ => holder) fun _ => by simp
  | dropPermit fetch =>
      have hholder := hs.permitted _ _ fetch rfl
      refine hs.setFetch fetch rfl rfl (fun r hr => by cases hr) (hs.served.release hholder fun j => ?_)
        (fun hphase => by cases hphase) (fun j hne hj => ?_) fun _ => by simp
      · rename_i k opts waited
        by_cases h : j = k
        · simp [h, FetchPhase.inLine]
        · simp [h]
      · cases hholder.symm.trans hj
        exact absurd rfl hne
  | proceed fetch fills =>
      refine hs.goOn fetch rfl rfl rfl (fun r hr => ?_) rfl (fun hphase => by cases hphase) fun _ => by simp
      cases hr
      exact fills
  | read fetch fills =>
      refine hs.goOn fetch rfl rfl rfl (fun r hr => ?_) rfl (fun hphase => by cases hphase) fun _ => by simp
      cases hr
      exact fills
  | finish fetch =>
      exact hs.goOn fetch rfl rfl rfl (fun r hr => by cases hr) rfl (fun hphase => by cases hphase) fun _ => by simp
  | evict stored => exact ⟨hs.cacheable, hs.readings, hs.served, hs.permitted, hs.waited⟩

end WeaveGate.Static
