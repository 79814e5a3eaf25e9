import WeaveGate.Static.Lemmas.Composed
import WeaveGate.Static.Lemmas.Reply
import WeaveGate.Static.MemCache

/-!
# Entries of the cache

When an entry is the complete file at its path, and that such an entry answers as the file would.
-/

namespace WeaveGate.Static

open Http
open Posix (Octets Path Name FileTree Inode Errno Canon)

variable {crates : Crates} {t : FileTree} {store : Store} {opts : HandleOpts}

/-! ## What a client sees -/

/-- Status, header fields and body of an answer. The body is its bytes, or an archive to be written. -/
structure Answer where
  status : StatusCode
  headers : HeaderMap
  bytes : Option Octets
  archive : Option ArchiveJob
deriving DecidableEq

def Body.archive? : Body → Option ArchiveJob
  | .archive job => some job
  | _ => none

def observe (r : Except Failure StaticFileResponse) : Except Failure Answer :=
  r.map fun r => ⟨r.resp.status, r.resp.headers, r.resp.body.bytes, r.resp.body.archive?⟩

theorem Body.stream?_eq_some {b : Body} {s : FileStream} : b.stream? = some s ↔ b = .stream s := by
  cases b <;> simp [Body.stream?]

/-! ## Complete entries -/

/-- The entry is the file at the path, with its whole content, its type and its date. -/
def MemFile.Complete (crates : Crates) (t : FileTree) (p : Path) (entry : MemFile) : Prop :=
  ∃ i, t.metadata p = .ok i ∧ i.kind = .file entry.data ∧ lastModifiedOf i = .ok entry.lastModified ∧
    entry.contentType = crates.mime p

theorem responseBody_of_complete (opts : HandleOpts) {p : Path} {entry : MemFile} (h : entry.Complete crates t p)
    (file : FileTree.OpenFile) {i : Inode} (hi : t.metadata p = .ok i) (hfile : file.inode = i) :
    ∃ resp, responseBody crates file p i (ConditionalHeaders.new crates opts.headers) opts.memoryCache = .ok resp ∧
      resp.status = (entry.responseBody crates opts.headers).status ∧
      resp.headers = (entry.responseBody crates opts.headers).headers ∧
      resp.body.bytes = (entry.responseBody crates opts.headers).body.bytes ∧
      resp.body.archive? = (entry.responseBody crates opts.headers).body.archive? := by
  obtain ⟨i', hi', hkind, hdate, htype⟩ := h
  cases hi.symm.trans hi'
  unfold responseBody MemFile.responseBody
  rw [hdate]
  simp only [bind, Except.bind]
  cases (ConditionalHeaders.new crates opts.headers).check entry.lastModified with
  | noBody resp => exact ⟨resp, rfl, rfl, rfl, rfl, rfl⟩
  | withBody range =>
      have hsize : i.size = entry.data.length := by simp [Inode.size, hkind]
      refine ⟨_, rfl, ?_⟩
      dsimp only
      rw [hsize, htype]
      refine ⟨(rangedResponse_congr _ _ _ _ _ _).1, (rangedResponse_congr _ _ _ _ _ _).2, ?_⟩
      rw [rangedResponse_body, rangedResponse_body]
      cases bytesRange range entry.data.length with
      | none => exact ⟨rfl, rfl⟩
      | some r => exact ⟨by simp [Body.bytes, FileStream.bytes, Source.content, FileTree.OpenFile.content, hfile, hkind],
          rfl⟩

/-- A complete entry answers as the handler does without it, when the request passes the checks that a hit
skips. -/
theorem observe_hit {entry : MemFile} (hentry : entry.Complete crates t (requestedPath opts))
    (hmethod : opts.method ≠ .options) (haccess : checkAccess t opts (requestedPath opts) = .ok ())
    (hvariant : variantOf crates t opts.headers opts.compressionStatic (requestedPath opts) = none) :
    observe (.ok { resp := entry.responseBody crates opts.headers, filePath := requestedPath opts }) =
      observe (handleFile crates t opts) := by
  obtain ⟨i, hi, hkind, _⟩ := id hentry
  have hfile : i.isDir = false := by simp [Inode.isDir, hkind]
  obtain ⟨c, hc, hnode⟩ := Posix.FileTree.stat_eq_ok.mp hi
  have hopen : t.open (requestedPath opts) = .ok ⟨requestedPath opts, c, i⟩ :=
    Posix.FileTree.open_eq_ok.mpr ⟨rfl, hc, hnode⟩
  obtain ⟨resp, hresp, hstatus, hheaders, hbytes, harchive⟩ :=
    responseBody_of_complete opts hentry ⟨requestedPath opts, c, i⟩ hi rfl
  have hm : getComposedFileMetadata crates t opts.headers opts.compressionStatic (requestedPath opts) opts.indexFiles =
      .ok ⟨requestedPath opts, i, false, none⟩ := by
    have hmeta : tryMetadata t (requestedPath opts) = .ok (i, false) := tryMetadata_eq_ok.mpr ⟨hi, hfile⟩
    simp [getComposedFileMetadata, hmeta, FileMetadata.ofFound, hvariant]
  have hrespond : respond crates t opts ⟨requestedPath opts, i, false, none⟩ = .ok resp := by
    simp [respond, hmethod, fileReply, hopen, hresp]
  have hhandle : handleFile crates t opts = .ok ⟨resp, requestedPath opts⟩ := by
    simp [handleFile, hm, FileMetadata.checkedPath, haccess, hrespond, Except.map]
  simp [observe, hhandle, Except.map, hstatus, hheaders, hbytes, harchive]

/-! ## Streams that are being read -/

/-- What was collected is what was read, and the window lies within the size that fills the buffer. -/
structure Reading.Sound (crates : Crates) (t : FileTree) (r : Reading) : Prop where
  collected : ∀ buf, r.memBuf = some buf → buf = (r.stream.bytes.getD []).take r.pos
  window : ∀ memOpts capacity, r.stream.mem = some (memOpts, capacity) →
    r.stream.start + r.stream.subLen ≤ capacity ∧ memOpts.contentType = crates.mime memOpts.filePath
  opened : ∀ f, r.stream.source = .file f → t.open f.path = .ok f

/-- The stream reads the file that it is entered under, with the size and the date of that file. -/
def FileStream.readsItsKey (s : FileStream) : Bool :=
  s.mem.all fun (memOpts, capacity) => match s.source with
    | .file f => f.path = memOpts.filePath ∧ f.inode.size = capacity ∧
        lastModifiedOf f.inode = .ok memOpts.lastModified
    | .cursor _ => false

theorem readsItsKey_file {s : FileStream} (h : s.readsItsKey = true) {memOpts : MemFileTempOpts} {capacity : Nat}
    (hmem : s.mem = some (memOpts, capacity)) : ∃ f, s.source = .file f ∧ f.path = memOpts.filePath ∧
    f.inode.size = capacity ∧ lastModifiedOf f.inode = .ok memOpts.lastModified := by
  rw [FileStream.readsItsKey, hmem, Option.all_some] at h
  dsimp only at h
  split at h
  · rename_i f hf
    exact ⟨f, hf, of_decide_eq_true h⟩
  · cases h

theorem take_append_chunk (r : Reading) (n : Nat) :
    (r.stream.bytes.getD []).take r.pos ++ r.chunk n = (r.stream.bytes.getD []).take (r.pos + (r.chunk n).length) := by
  rw [List.take_add, List.append_right_inj]
  unfold Reading.chunk
  rw [List.take_eq_take_iff, List.length_take]
  omega

theorem Reading.Sound.start {s : FileStream} (hwindow : ∀ memOpts capacity, s.mem = some (memOpts, capacity) →
      s.start + s.subLen ≤ capacity ∧ memOpts.contentType = crates.mime memOpts.filePath)
    (hopened : ∀ f, s.source = .file f → t.open f.path = .ok f) : (Reading.start s).Sound crates t := by
  refine ⟨fun buf hbuf => ?_, hwindow, hopened⟩
  obtain ⟨_, _, rfl⟩ := Option.map_eq_some_iff.mp hbuf
  rfl

theorem Reading.Sound.pollNext {r : Reading} (h : r.Sound crates t) (n : Nat) : (r.pollNext n).Sound crates t := by
  refine ⟨fun buf hbuf => ?_, h.window, h.opened⟩
  unfold Reading.pollNext at hbuf
  dsimp only at hbuf
  split at hbuf
  · cases hbuf
  · obtain ⟨buf', hbuf', rfl⟩ := Option.map_eq_some_iff.mp hbuf
    rw [h.collected buf' hbuf']
    exact take_append_chunk r n

theorem take_window_eq {α : Type} {content : List α} {start subLen k : Nat} (hne : content ≠ [])
    (h : (((content.drop start).take subLen).take k).length = content.length) :
    ((content.drop start).take subLen).take k = content := by
  have hpos := List.length_pos_of_ne_nil hne
  rw [List.length_take, List.length_take, List.length_drop] at h
  have hstart : start = 0 := by omega
  subst hstart
  rw [List.drop_zero, List.take_take]
  exact List.take_of_length_le (by omega)

theorem bytes_of_chunk {r : Reading} {n : Nat} (h : r.chunk n ≠ []) :
    ∃ content, r.stream.source.content = some content ∧
      r.stream.bytes = some ((content.drop r.stream.start).take r.stream.subLen) := by
  unfold Reading.chunk at h
  unfold FileStream.bytes at h ⊢
  split at h
  · simp at h
  · rw [if_neg ‹_›]
    cases hcontent : r.stream.source.content with
    | none => simp [hcontent] at h
    | some content => exact ⟨content, rfl, rfl⟩

/-- What fills the buffer of a stream that reads its key is the complete file. -/
theorem Reading.Sound.entry_complete {r : Reading} (h : r.Sound crates t) (hkey : r.stream.readsItsKey = true) {n : Nat}
    {p : Path} {entry : MemFile} (hentry : r.entry n = some (p, entry)) : entry.Complete crates t p := by
  unfold Reading.entry at hentry
  split at hentry
  · rename_i memOpts capacity buf hmem hbuf
    dsimp only at hentry
    split at hentry
    · rename_i hfull
      cases hentry
      obtain ⟨hchunk, hlen⟩ := hfull
      obtain ⟨f, hf, hpath, hsize, hdate⟩ := readsItsKey_file hkey hmem
      obtain ⟨content, hcontent, hbytes⟩ := bytes_of_chunk hchunk
      rw [hf] at hcontent
      have hkind : f.inode.kind = .file content := by
        simp only [Source.content, FileTree.OpenFile.content] at hcontent
        split at hcontent
        · rename_i hkind
          cases hcontent
          exact hkind
        · cases hcontent
      have hcapacity : content.length = capacity := by simpa [Inode.size, hkind] using hsize
      rw [h.collected buf hbuf, take_append_chunk, hbytes, Option.getD_some] at hlen ⊢
      have hne : content ≠ [] := by
        rintro rfl
        simp [Reading.chunk, hbytes] at hchunk
      rw [take_window_eq hne (hlen.trans hcapacity.symm)]
      obtain ⟨_, hc, hnode⟩ := Posix.FileTree.open_eq_ok.mp (h.opened f hf)
      refine ⟨f.inode, ?_, hkind, hdate, (h.window _ _ hmem).2⟩
      rw [← hpath]
      exact Posix.FileTree.stat_eq_ok.mpr ⟨f.canon, hc, hnode⟩
    · cases hentry
  · cases hentry

/-! ## The server -/

/-- What holds of all entries, and of all streams that are being read. -/
structure Server.All (I : Path → MemFile → Prop) (J : Reading → Prop) (s : Server) : Prop where
  entries : ∀ p entry, s.store.get? p = some entry → I p entry
  readings : ∀ r ∈ s.readings, J r

theorem Server.All.empty {I : Path → MemFile → Prop} {J : Reading → Prop} : Server.empty.All I J :=
  ⟨fun _ _ h => (by cases h), fun _ h => (by cases h)⟩

/-- A step keeps what new streams have, every read keeps, and new entries have. -/
theorem Server.All.serve {I : Path → MemFile → Prop} {J : Reading → Prop} {s : Server} {e : Event} (h : s.All I J)
    (hstart : ∀ opts r stream, handle crates t s.store opts = .ok r → r.resp.body = .stream stream →
      J (Reading.start stream))
    (hnext : ∀ r n, J r → J (r.pollNext n))
    (hentry : ∀ k n r p entry, e = .poll k n → s.readings[k]? = some r → J r → r.entry n = some (p, entry) →
      I p entry) : (serve crates t s e).All I J := by
  cases e with
  | request opts =>
      refine ⟨h.entries, fun r hr => ?_⟩
      rcases List.mem_append.mp hr with hr | hr
      · exact h.readings r hr
      · rw [Option.mem_toList, Option.map_eq_some_iff] at hr
        obtain ⟨stream, hstream, rfl⟩ := hr
        obtain ⟨resp, hresp, hbody⟩ := Option.bind_eq_some_iff.mp hstream
        exact hstart opts resp stream (Checked.toOption_eq_some.mp hresp) (Body.stream?_eq_some.mp hbody)
  | poll k n =>
      unfold Static.serve
      dsimp only
      split
      · exact h
      · rename_i r hr
        have hread := h.readings r (List.mem_of_getElem? hr)
        constructor
        · intro p entry hstored
          cases hnew : r.entry n with
          | none =>
              rw [hnew] at hstored
              exact h.entries p entry hstored
          | some new =>
              obtain ⟨q, new⟩ := new
              rw [hnew, Option.elim_some, Multimap.get?_insert] at hstored
              split at hstored
              · rename_i hq
                cases hstored
                exact hq ▸ hentry k n r q new rfl hr hread hnew
              · exact h.entries p entry hstored
        · intro r' hr'
          rcases List.mem_or_eq_of_mem_set hr' with hr' | rfl
          · exact h.readings r' hr'
          · exact hnext r n hread
  | evict path =>
      refine ⟨fun p entry hstored => ?_, h.readings⟩
      rw [Static.serve, Multimap.get?_remove] at hstored
      split at hstored
      · cases hstored
      · exact h.entries p entry hstored

structure Server.Sound (crates : Crates) (t : FileTree) (s : Server) : Prop where
  entries : ∀ p entry, s.store.get? p = some entry → entry.Complete crates t p
  readings : ∀ r ∈ s.readings, r.Sound crates t

theorem Server.Sound.empty : Server.empty.Sound crates t :=
  ⟨fun _ _ h => (by cases h), fun _ h => (by cases h)⟩

theorem handle_stream_sound {r : StaticFileResponse} {s : FileStream} (h : handle crates t store opts = .ok r)
    (hs : r.resp.body = .stream s) : (Reading.start s).Sound crates t := by
  rcases handle_ok h with ⟨entry, _, hresp⟩ | ⟨_, hfile⟩
  · rw [hresp] at hs
    rcases entry.responseBody_body opts.headers with hempty | ⟨s', hs', hsource, hmem⟩
    · cases hempty.symm.trans hs
    · cases hs'.symm.trans hs
      exact .start (fun _ _ hm => by rw [hmem] at hm; cases hm) (fun _ hf => by rw [hsource] at hf; cases hf)
  · obtain ⟨m, _, _, hresp, _⟩ := handleFile_ok hfile
    obtain ⟨file, modified, range, first, last, hopen, hstreamed, rfl⟩ := respond_stream hresp hs
    obtain ⟨hfirst, hlast⟩ := bytesRange_bounds hstreamed.window
    refine .start (fun memOpts capacity hmem => ?_) (fun f hf => ?_)
    · unfold fileStream at hmem
      dsimp only at hmem
      split at hmem
      · cases hmem
        refine ⟨?_, rfl⟩
        change first + (last - first) ≤ m.metadata.size
        omega
      · cases hmem
    · cases hf
      rw [(Posix.FileTree.open_eq_ok.mp hopen).1, hopen]

/-- What an event has to meet. A hit may not skip anything that the handler would have done, and a stream whose
next bytes make an entry reads the file it is entered under. -/
def Event.Harmless (crates : Crates) (t : FileTree) (s : Server) : Event → Prop
  | .request opts => (cachedFile s.store opts).isSome = true →
      opts.method ≠ .options ∧ checkAccess t opts (requestedPath opts) = .ok () ∧
      variantOf crates t opts.headers opts.compressionStatic (requestedPath opts) = none
  | .poll k n => ∀ r ∈ s.readings[k]?, (r.entry n).isSome = true → r.stream.readsItsKey = true
  | .evict _ => True

instance (s : Server) (e : Event) : Decidable (e.Harmless crates t s) :=
  match e with
  | .request _ => inferInstanceAs (Decidable (_ → _))
  | .poll k _ => inferInstanceAs (Decidable (∀ r ∈ s.readings[k]?, _))
  | .evict _ => isTrue trivial

theorem Server.Sound.serve {s : Server} (h : s.Sound crates t) {e : Event} (he : e.Harmless crates t s) :
    (serve crates t s e).Sound crates t := by
  have hall : s.All (fun p entry => entry.Complete crates t p) (fun r => r.Sound crates t) := ⟨h.entries, h.readings⟩
  obtain ⟨hentries, hreadings⟩ := hall.serve (e := e) (fun opts r stream => handle_stream_sound)
    (fun r n hread => hread.pollNext n) fun k n r p entry hpoll hr hread hnew => by
      subst hpoll
      exact hread.entry_complete (he r hr (by rw [hnew]; rfl)) hnew
  exact ⟨hentries, hreadings⟩

theorem Server.Sound.observe_eq {s : Server} (h : s.Sound crates t)
    (he : (Event.request opts).Harmless crates t s) :
    observe (handle crates t s.store opts) = observe (handle crates t [] opts) := by
  by_cases hallowed : isAllowed opts.method = true
  · rw [handle_eq hallowed, handle_eq hallowed]
    have hempty : cachedFile [] opts = none := by
      unfold cachedFile
      split <;> rfl
    rw [hempty]
    cases hentry : cachedFile s.store opts with
    | none => rfl
    | some entry =>
        obtain ⟨hmethod, haccess, hvariant⟩ := he (by rw [hentry]; rfl)
        refine observe_hit (h.entries _ entry ?_) hmethod haccess hvariant
        unfold cachedFile at hentry
        split at hentry
        · exact hentry
        · cases hentry
  · rw [handle, handle, if_pos (by simpa using hallowed), if_pos (by simpa using hallowed)]

end WeaveGate.Static
