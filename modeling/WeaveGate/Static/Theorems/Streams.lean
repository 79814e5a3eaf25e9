import WeaveGate.Static.Streams
import WeaveGate.Static.Theorems.MemCache
import WeaveGate.Static.Theorems.Ranges

/-!
# What a body delivers, and when it is cached

However its reader divides the bytes, a stream delivers its window. It becomes an entry of the cache at its last
byte, and then as the whole file, unless that is longer than its metadata say.
-/

namespace WeaveGate.Static

open Http
open Posix (Octets Path FileTree Inode)

variable {crates : Crates} {content : Octets} {len : Nat} {s : FileStream}

namespace FileStream

/-- A stream over a part of a file that is said to be `len` bytes long, with a buffer for the cache of that size. -/
structure Selected (content : Octets) (len : Nat) (s : FileStream) : Prop where
  source : s.source.content = some content
  inside : s.start + s.subLen ≤ len
  bufSize : 0 < s.bufSize
  capacity : ∀ memOpts capacity, s.mem = some (memOpts, capacity) → capacity = len

def window (content : Octets) (s : FileStream) : Octets := (content.drop s.start).take s.subLen

theorem length_window (content : Octets) (s : FileStream) :
    (s.window content).length = min s.subLen (content.length - s.start) := by
  rw [window, List.length_take, List.length_drop]

theorem Selected.length_window_le (hs : s.Selected content len) :
    (s.window content).length ≤ s.subLen ∧ (s.window content).length ≤ len := by
  have hinside := hs.inside
  rw [length_window]
  omega

/-- The entry for a file with the content. -/
def entryOf (data : Octets) (s : FileStream) : Option (Path × MemFile) :=
  s.mem.map fun m => (m.1.filePath, { data, bufSize := s.bufSize, contentType := m.1.contentType
                                      lastModified := m.1.lastModified })

/-- The whole length is read, is cached and does not reach the end of the file. -/
def CachesPart (content : Octets) (len : Nat) (s : FileStream) : Prop :=
  s.mem.isSome = true ∧ s.start = 0 ∧ s.subLen = len ∧ 0 < len ∧ len < content.length

/-! ## What one poll can do -/

/-- The stream when it has read `k` bytes. The buffer is gone when it has been filled. -/
def reached (content : Octets) (len : Nat) (s : FileStream) (k : Nat) : Reading :=
  { stream := s, pos := k
    memBuf := if 0 < k ∧ k = len then none else s.mem.map fun _ => (s.window content).take k }

/-- Where `k` bytes have been read, a poll returns none, an error or a chunk. -/
inductive Moves (content : Octets) (len : Nat) (s : FileStream) (k : Nat) : ReadOutcome → Poll → Prop
  | ends (outcome : ReadOutcome) (hk : k = (s.window content).length) :
      Moves content len s k outcome ⟨none, s.reached content len k, none⟩
  | fails (hk : k < s.subLen) : Moves content len s k .fails ⟨some (.error ()), s.reached content len k, none⟩
  | reads (n : Nat) (pos : 0 < n) (chunk : Octets) (hne : chunk ≠ [])
      (hchunk : (s.window content).take k ++ chunk = (s.window content).take (k + chunk.length))
      (hk : k + chunk.length ≤ (s.window content).length) :
      Moves content len s k (.upTo n pos) ⟨some (.ok chunk), s.reached content len (k + chunk.length),
        if k + chunk.length = len then s.entryOf (content.take len) else none⟩

theorem Selected.bytes (hs : s.Selected content len) : s.bytes.getD [] = s.window content := by
  rw [bytes_of_content hs.source]
  rfl

theorem Selected.chunk_reached (hs : s.Selected content len) (k n : Nat) :
    (s.reached content len k).chunk n = ((s.window content).drop k).take (min n s.bufSize) := by
  show ((s.bytes.getD []).drop k).take (min n s.bufSize) = _
  rw [hs.bytes]

theorem Selected.length_chunk (hs : s.Selected content len) (k n : Nat) :
    ((s.reached content len k).chunk n).length = min (min n s.bufSize) ((s.window content).length - k) := by
  rw [hs.chunk_reached, List.length_take, List.length_drop]

theorem Selected.take_append_chunk (hs : s.Selected content len) (k n : Nat) :
    (s.window content).take k ++ (s.reached content len k).chunk n =
      (s.window content).take (k + ((s.reached content len k).chunk n).length) := by
  rw [← hs.bytes]
  exact WeaveGate.Static.take_append_chunk (s.reached content len k) n

/-- A window of the whole length begins where the file does. -/
theorem Selected.window_eq (hs : s.Selected content len) (hlen : len ≤ (s.window content).length) :
    s.start = 0 ∧ s.subLen = len ∧ len ≤ content.length ∧ s.window content = content.take len := by
  have hinside := hs.inside
  rw [length_window] at hlen
  have hstart : s.start = 0 := by omega
  have hsub : s.subLen = len := by omega
  refine ⟨hstart, hsub, by omega, ?_⟩
  rw [window, hstart, hsub, List.drop_zero]

/-- Before the buffer is full it has what was read. -/
theorem memBuf_reached {k : Nat} (h : k < len) :
    (s.reached content len k).memBuf = s.mem.map fun _ => (s.window content).take k := if_neg fun hfull => by omega

theorem memBuf_full {k : Nat} (hpos : 0 < k) (hk : k = len) : (s.reached content len k).memBuf = none :=
  if_pos ⟨hpos, hk⟩

theorem start_eq (content : Octets) (len : Nat) (s : FileStream) : Reading.start s = s.reached content len 0 := by
  rw [Reading.start, reached, if_neg fun h => Nat.lt_irrefl 0 h.1]
  rfl

theorem Selected.chunk_inside (hs : s.Selected content len) {k n : Nat}
    (hne : (s.reached content len k).chunk n ≠ []) : k < k + ((s.reached content len k).chunk n).length ∧
      k + ((s.reached content len k).chunk n).length ≤ (s.window content).length := by
  have hlength := hs.length_chunk k n
  have hpos := List.length_pos_of_ne_nil hne
  omega

theorem Selected.entry_reached (hs : s.Selected content len) {k n : Nat}
    (hne : (s.reached content len k).chunk n ≠ []) : (s.reached content len k).entry n =
      if k + ((s.reached content len k).chunk n).length = len then s.entryOf (content.take len) else none := by
  obtain ⟨hlt, hle⟩ := hs.chunk_inside hne
  have hwindow := hs.length_window_le.2
  have hread : ((s.window content).take (k + ((s.reached content len k).chunk n).length)).length =
      k + ((s.reached content len k).chunk n).length := by
    rw [List.length_take]
    omega
  have hstream : (s.reached content len k).stream = s := rfl
  rw [Reading.entry, memBuf_reached (by omega), hstream, entryOf]
  cases hmem : s.mem with
  | none => simp
  | some m =>
      obtain ⟨memOpts, capacity⟩ := m
      dsimp only [Option.map_some]
      rw [hs.take_append_chunk, hs.capacity memOpts capacity hmem, hread]
      by_cases hfull : k + ((s.reached content len k).chunk n).length = len
      · have hwhole : (s.window content).take (k + ((s.reached content len k).chunk n).length) = content.take len := by
          rw [(hs.window_eq (by omega)).2.2.2, hfull, List.take_take, Nat.min_self]
        rw [if_pos ⟨hne, hfull⟩, if_pos hfull, hwhole]
      · rw [if_neg fun h => hfull h.2, if_neg hfull]

theorem Selected.pollNext_reached (hs : s.Selected content len) {k n : Nat}
    (hne : (s.reached content len k).chunk n ≠ []) : (s.reached content len k).pollNext n =
      s.reached content len (k + ((s.reached content len k).chunk n).length) := by
  obtain ⟨hlt, hle⟩ := hs.chunk_inside hne
  have hwindow := hs.length_window_le.2
  have hbuf : (if ((s.reached content len k).entry n).isSome then none
      else (s.reached content len k).memBuf.map (· ++ (s.reached content len k).chunk n)) =
      (s.reached content len (k + ((s.reached content len k).chunk n).length)).memBuf := by
    rw [hs.entry_reached hne, memBuf_reached (by omega), entryOf]
    by_cases hfull : k + ((s.reached content len k).chunk n).length = len
    · rw [if_pos hfull, memBuf_full (by omega) hfull]
      cases s.mem <;> rfl
    · rw [if_neg hfull, memBuf_reached (by omega), Option.map_map]
      exact congrArg (fun buf => s.mem.map fun _ => buf) (hs.take_append_chunk k n)
  rw [Reading.pollNext, hbuf]
  rfl

theorem Selected.moves (hs : s.Selected content len) {k : Nat} (hk : k ≤ (s.window content).length)
    (outcome : ReadOutcome) : Moves content len s k outcome ((s.reached content len k).poll outcome) := by
  have hwindow := hs.length_window_le.1
  cases outcome with
  | fails =>
      by_cases hend : s.subLen ≤ k
      · have hpoll : (s.reached content len k).poll .fails = ⟨none, s.reached content len k, none⟩ := by
          simp [Reading.poll, reached, hend]
        rw [hpoll]
        exact .ends .fails (by omega)
      · have hpoll : (s.reached content len k).poll .fails = ⟨some (.error ()), s.reached content len k, none⟩ := by
          simp [Reading.poll, reached, hend]
        rw [hpoll]
        exact .fails (by omega)
  | upTo n pos =>
      by_cases hnil : (s.reached content len k).chunk n = []
      · have hend : k = (s.window content).length := by
          have hlength := hs.length_chunk k n
          have hsize := hs.bufSize
          rw [hnil, List.length_nil] at hlength
          omega
        have hentry : (s.reached content len k).entry n = none := by
          rw [Reading.entry]
          split
          · exact if_neg fun h => h.1 hnil
          · rfl
        have hnext : (s.reached content len k).pollNext n = s.reached content len k := by
          rw [Reading.pollNext, hentry, hnil]
          simp
        rw [Reading.poll, if_pos hnil, hentry, hnext]
        exact .ends _ hend
      · rw [Reading.poll, if_neg hnil, hs.entry_reached hnil, hs.pollNext_reached hnil]
        exact .reads n pos _ hnil (hs.take_append_chunk k n) (hs.chunk_inside hnil).2

/-! ## Runs of polls -/

theorem Selected.moves_next (hs : s.Selected content len) {k : Nat} (hk : k ≤ (s.window content).length)
    (outcome : ReadOutcome) : ∃ k', ((s.reached content len k).poll outcome).next = s.reached content len k' ∧
      k ≤ k' ∧ k' ≤ (s.window content).length ∧
      (s.window content).take k ++ ((s.reached content len k).poll outcome).chunk = (s.window content).take k' := by
  have hmoves := hs.moves hk outcome
  generalize (s.reached content len k).poll outcome = p at hmoves ⊢
  cases hmoves with
  | ends => exact ⟨k, rfl, Nat.le_refl k, hk, List.append_nil _⟩
  | fails => exact ⟨k, rfl, Nat.le_refl k, hk, List.append_nil _⟩
  | reads n pos chunk hne hchunk hinside => exact ⟨_, rfl, Nat.le_add_right _ _, hinside, hchunk⟩

variable (reads : Nat → ReadOutcome)

theorem Selected.readingAt_eq (hs : s.Selected content len) (i : Nat) :
    s.readingAt reads i = s.reached content len (s.readingAt reads i).pos ∧
      (s.readingAt reads i).pos ≤ (s.window content).length := by
  refine Run.invariant_stateAt (I := fun r => r = s.reached content len r.pos ∧ r.pos ≤ (s.window content).length) ?_
    ⟨start_eq content len s, Nat.zero_le _⟩ reads i
  rintro r outcome ⟨hr, hk⟩
  obtain ⟨k', hnext, _, hk', _⟩ := hs.moves_next hk outcome
  rw [← hr] at hnext
  rw [hnext]
  exact ⟨rfl, hk'⟩

theorem Selected.movesAt (hs : s.Selected content len) (i : Nat) :
    Moves content len s (s.readingAt reads i).pos (reads i) (s.pollAt reads i) := by
  obtain ⟨hreading, hk⟩ := hs.readingAt_eq reads i
  have hmoves := hs.moves hk (reads i)
  rwa [← hreading] at hmoves

theorem Selected.pos_succ (hs : s.Selected content len) (i : Nat) :
    (s.readingAt reads i).pos ≤ (s.readingAt reads (i + 1)).pos ∧
      (s.window content).take (s.readingAt reads i).pos ++ (s.pollAt reads i).chunk =
        (s.window content).take (s.readingAt reads (i + 1)).pos := by
  obtain ⟨hreading, hk⟩ := hs.readingAt_eq reads i
  obtain ⟨k', hnext, hle, _, hchunk⟩ := hs.moves_next hk (reads i)
  rw [← hreading] at hnext hchunk
  have hpos : (s.readingAt reads (i + 1)).pos = k' := congrArg Reading.pos hnext
  rw [hpos]
  exact ⟨hle, hchunk⟩

theorem Selected.pos_mono (hs : s.Selected content len) : Monotone fun i => (s.readingAt reads i).pos :=
  monotone_nat_of_le_succ fun i => (hs.pos_succ reads i).1

theorem Selected.delivered_eq (hs : s.Selected content len) (k : Nat) :
    s.delivered reads k = (s.window content).take (s.readingAt reads k).pos := by
  induction k with
  | zero => rfl
  | succ k ih =>
      rw [← (hs.pos_succ reads k).2, ← ih, delivered, List.range_succ, List.flatMap_append]
      simp [delivered]

/-- The poll that fills the buffer is the one that reads the last byte. -/
theorem Selected.inserted (hs : s.Selected content len) {i : Nat} {e : Path × MemFile}
    (h : (s.pollAt reads i).inserted = some e) : (s.readingAt reads i).pos < len ∧
      (s.readingAt reads (i + 1)).pos = len ∧ len ≤ (s.window content).length ∧
      s.entryOf (content.take len) = some e := by
  have hmoves := hs.movesAt reads i
  have hnext : (s.readingAt reads (i + 1)).pos = (s.pollAt reads i).next.pos := rfl
  rw [hnext]
  generalize s.pollAt reads i = p at hmoves h ⊢
  generalize reads i = outcome at hmoves
  cases hmoves with
  | ends => cases h
  | fails => cases h
  | reads n pos chunk hne hchunk hk =>
      have hpos := List.length_pos_of_ne_nil hne
      dsimp only at h
      split at h
      · rename_i hfull
        exact ⟨by omega, hfull, by omega, h⟩
      · cases h

theorem Selected.failed (hs : s.Selected content len) {i : Nat} (h : (s.pollAt reads i).item = some (.error ())) :
    (s.readingAt reads i).pos < s.subLen ∧ (s.pollAt reads i).inserted = none := by
  have hmoves := hs.movesAt reads i
  generalize s.pollAt reads i = p at hmoves h ⊢
  generalize reads i = outcome at hmoves
  cases hmoves with
  | ends => cases h
  | fails hk => exact ⟨hk, rfl⟩
  | reads => cases h

theorem Selected.chunk_ne_nil (hs : s.Selected content len) (i : Nat) : (s.pollAt reads i).item ≠ some (.ok []) := by
  have hmoves := hs.movesAt reads i
  generalize s.pollAt reads i = p at hmoves ⊢
  generalize reads i = outcome at hmoves
  cases hmoves with
  | ends => exact nofun
  | fails => exact nofun
  | reads n pos chunk hne =>
      intro h
      cases h
      exact hne rfl

/-- An entry leaves the stream at the end of its window. -/
theorem Selected.pos_of_inserted (hs : s.Selected content len) {i k : Nat} (h : (s.pollAt reads i).inserted ≠ none)
    (hik : i < k) : (s.readingAt reads k).pos = len ∧ s.delivered reads k = content.take len := by
  obtain ⟨e, he⟩ := Option.ne_none_iff_exists'.mp h
  obtain ⟨_, hpos, hwhole, _⟩ := hs.inserted reads he
  have hmono : (s.readingAt reads (i + 1)).pos ≤ (s.readingAt reads k).pos :=
    hs.pos_mono reads (Nat.succ_le_of_lt hik)
  have hle := (hs.readingAt_eq reads k).2
  have hwindow := hs.length_window_le.2
  have hk : (s.readingAt reads k).pos = len := by omega
  exact ⟨hk, by rw [hs.delivered_eq, (hs.window_eq hwhole).2.2.2, hk, List.take_take, Nat.min_self]⟩

/-- A stream that has read the whole length has passed the poll that makes the entry. -/
theorem Selected.exists_inserted (hs : s.Selected content len) (hlen : 0 < len) {k : Nat}
    (hk : (s.readingAt reads k).pos = len) : ∃ i, (s.pollAt reads i).inserted = s.entryOf (content.take len) := by
  induction k with
  | zero => exact absurd hk (Nat.ne_of_lt hlen)
  | succ k ih =>
      have hmoves := hs.movesAt reads k
      have hnext : (s.pollAt reads k).next.pos = len := hk
      generalize hp : s.pollAt reads k = p at hmoves hnext
      generalize reads k = outcome at hmoves
      cases hmoves with
      | ends => exact ih hnext
      | fails => exact ih hnext
      | reads n pos chunk hne hchunk hinside => exact ⟨k, by rw [hp]; exact if_pos hnext⟩

/-- What is cached is the file, unless a part is. -/
theorem Selected.whole_of_inserted (hs : s.Selected content len) (hpart : ¬ s.CachesPart content len) {i : Nat}
    (h : (s.pollAt reads i).inserted ≠ none) : len = content.length ∧ content.take len = content := by
  obtain ⟨e, he⟩ := Option.ne_none_iff_exists'.mp h
  obtain ⟨hlt, _, hwhole, hentry⟩ := hs.inserted reads he
  obtain ⟨hstart, hsub, hle, _⟩ := hs.window_eq hwhole
  have hmem : s.mem.isSome = true := by
    rw [← Option.isSome_map (f := fun m => _), ← entryOf, hentry]
    rfl
  have hlen : len = content.length :=
    Nat.le_antisymm hle (Nat.not_lt.mp fun hshort => hpart ⟨hmem, hstart, hsub, by omega, hshort⟩)
  exact ⟨hlen, List.take_of_length_le (Nat.le_of_eq hlen.symm)⟩

/-- At the end of the window the stream stays where it is. -/
theorem Selected.ended (hs : s.Selected content len) {k : Nat} (hk : k = (s.window content).length)
    (outcome : ReadOutcome) : ((s.reached content len k).poll outcome).next = s.reached content len k ∧
      (outcome ≠ .fails → ((s.reached content len k).poll outcome).item = none) := by
  have hmoves := hs.moves (Nat.le_of_eq hk) outcome
  generalize (s.reached content len k).poll outcome = p at hmoves ⊢
  cases hmoves with
  | ends => exact ⟨rfl, fun _ => rfl⟩
  | fails => exact ⟨rfl, fun hread => absurd rfl hread⟩
  | reads n pos chunk hne _ hinside =>
      have hpos := List.length_pos_of_ne_nil hne
      omega

/-- From any place on, reads that do not fail make up the rest of the window. -/
theorem Selected.exists_chunks (hs : s.Selected content len) {k : Nat} (hk : k ≤ (s.window content).length)
    {reads : Nat → ReadOutcome} (hreads : ∀ i, reads i ≠ .fails) :
    ∃ chunks : List Octets, chunks.flatten = (s.window content).drop k ∧ [] ∉ chunks ∧
      ∀ i, ((Run.stateAt (fun r outcome => (Reading.poll r outcome).next) (s.reached content len k) reads i).poll
        (reads i)).item = chunks[i]?.map .ok := by
  generalize hm : (s.window content).length - k = m
  induction m using Nat.strongRecOn generalizing k reads with
  | ind m ih =>
      have hmoves := hs.moves hk (reads 0)
      by_cases hend : k = (s.window content).length
      · refine ⟨[], ?_, List.not_mem_nil, fun i => ?_⟩
        · rw [hend, List.drop_length]
          rfl
        · have hstays : ∀ r outcome, r = s.reached content len k →
              (Reading.poll r outcome).next = s.reached content len k := by
            rintro r outcome rfl
            exact (hs.ended hend outcome).1
          rw [Run.invariant_stateAt hstays rfl reads i]
          exact (hs.ended hend (reads i)).2 (hreads i)
      · generalize hp : (s.reached content len k).poll (reads 0) = p at hmoves
        generalize ho : reads 0 = outcome at hmoves
        cases hmoves with
        | ends _ hk => exact absurd hk hend
        | fails _ => exact absurd ho (hreads 0)
        | reads n pos chunk hne hchunk hinside =>
            have hpos := List.length_pos_of_ne_nil hne
            obtain ⟨chunks, hflatten, hnonempty, hitems⟩ := ih ((s.window content).length - (k + chunk.length))
              (by omega) hinside (fun i => hreads (i + 1)) rfl
            refine ⟨chunk :: chunks, ?_, ?_, fun i => ?_⟩
            · rw [List.flatten_cons, hflatten]
              rw [← List.append_right_inj ((s.window content).take k), ← List.append_assoc, hchunk,
                List.take_append_drop, List.take_append_drop]
            · rw [List.mem_cons, not_or]
              exact ⟨Ne.symm hne, hnonempty⟩
            · cases i with
              | zero =>
                  show ((s.reached content len k).poll (reads 0)).item = _
                  rw [hp]
                  rfl
              | succ i =>
                  rw [Run.stateAt_succ, hp]
                  exact hitems i

end FileStream

/-! ## Streams of windows -/

structure DeliversWindow (content : Octets) (s : FileStream) : Prop where
  /-- Without an error: chunks that make up the window, and nothing behind them. -/
  chunks : ∀ reads : Nat → ReadOutcome, (∀ i, reads i ≠ .fails) → ∃ chunks : List Octets,
    chunks.flatten = s.window content ∧ [] ∉ chunks ∧ ∀ i, (s.pollAt reads i).item = chunks[i]?.map .ok
  nonempty : ∀ reads i, (s.pollAt reads i).item ≠ some (.ok [])
  inOrder : ∀ reads k, s.delivered reads k <+: s.window content
  entry : ∀ reads i e, (s.pollAt reads i).inserted = some e → s.start = 0 ∧ s.subLen = content.length ∧
    s.delivered reads i ≠ content ∧ s.delivered reads (i + 1) = content ∧ s.entryOf content = some e
  once : ∀ reads i j, (s.pollAt reads i).inserted.isSome = true → (s.pollAt reads j).inserted.isSome = true → i = j
  abandoned : ∀ reads k, s.delivered reads k ≠ content → ∀ i < k, (s.pollAt reads i).inserted = none
  interrupted : ∀ reads k, (s.pollAt reads k).item = some (.error ()) → ∀ i ≤ k, (s.pollAt reads i).inserted = none

/-- Unless it caches a part, a stream delivers its window. -/
theorem FileStream.Selected.delivers (hs : s.Selected content len) (hpart : ¬ s.CachesPart content len) :
    DeliversWindow content s where
  chunks := fun reads hreads => by
    obtain ⟨chunks, hflatten, hnonempty, hitems⟩ := hs.exists_chunks (Nat.zero_le _) hreads
    rw [← FileStream.start_eq] at hitems
    exact ⟨chunks, hflatten, hnonempty, hitems⟩
  nonempty := fun reads i => hs.chunk_ne_nil reads i
  inOrder := fun reads k => by
    rw [hs.delivered_eq]
    exact List.take_prefix _ _
  entry := fun reads i e he => by
    obtain ⟨hlt, _, hwhole, hentry⟩ := hs.inserted reads he
    obtain ⟨hstart, hsub, _, hwindow⟩ := hs.window_eq hwhole
    have hinserted : (s.pollAt reads i).inserted ≠ none := Option.ne_none_iff_exists'.mpr ⟨e, he⟩
    obtain ⟨hlen, hall⟩ := hs.whole_of_inserted reads hpart hinserted
    refine ⟨hstart, hsub.trans hlen, fun hread => ?_, ?_, by rw [← hentry, hall]⟩
    · have hlength := congrArg List.length hread
      rw [hs.delivered_eq, List.length_take] at hlength
      omega
    · rw [(hs.pos_of_inserted reads hinserted (Nat.lt_succ_self i)).2, hall]
  once := fun reads i j hi hj => by
    -- behind an entry nothing is left to read
    have hnot : ∀ i j, (s.pollAt reads i).inserted.isSome = true → (s.pollAt reads j).inserted.isSome = true →
        ¬ i < j := by
      intro i j hi hj hij
      obtain ⟨e, he⟩ := Option.isSome_iff_exists.mp hj
      have hend := (hs.pos_of_inserted reads (Option.isSome_iff_ne_none.mp hi) hij).1
      have hlt := (hs.inserted reads he).1
      omega
    exact Nat.le_antisymm (Nat.not_lt.mp (hnot j i hj hi)) (Nat.not_lt.mp (hnot i j hi hj))
  abandoned := fun reads k hread i hik => by
    by_contra hinserted
    rw [(hs.pos_of_inserted reads hinserted hik).2, (hs.whole_of_inserted reads hpart hinserted).2] at hread
    exact hread rfl
  interrupted := fun reads k herror i hik => by
    obtain ⟨hlt, hnone⟩ := hs.failed reads herror
    have hinside := hs.inside
    rcases Nat.lt_or_eq_of_le hik with hik | rfl
    · by_contra hinserted
      have hend := (hs.pos_of_inserted reads hinserted hik).1
      omega
    · exact hnone

/-- Read to its end, a stream that caches a part makes an entry that is not the file. -/
theorem FileStream.Selected.not_delivers (hs : s.Selected content len) (hpart : s.CachesPart content len) :
    ¬ DeliversWindow content s := by
  intro h
  obtain ⟨hmem, hstart, hsub, hlen, hshort⟩ := hpart
  obtain ⟨chunks, hflatten, _, hitems⟩ := h.chunks (fun _ => .upTo len hlen) (fun _ => nofun)
  have hend : (s.pollAt (fun _ => .upTo len hlen) chunks.length).item = none := by
    rw [hitems, List.getElem?_eq_none (Nat.le_refl _)]
    rfl
  have hpos : (s.readingAt (fun _ => .upTo len hlen) chunks.length).pos = len := by
    have hmoves := hs.movesAt (fun _ => .upTo len hlen) chunks.length
    generalize s.pollAt (fun _ => .upTo len hlen) chunks.length = p at hmoves hend
    cases hmoves with
    | ends _ hk =>
        rw [hk, FileStream.length_window]
        omega
    | reads => cases hend
  obtain ⟨i, hi⟩ := hs.exists_inserted (fun _ => .upTo len hlen) hlen hpos
  obtain ⟨m, hm⟩ := Option.isSome_iff_exists.mp hmem
  rw [FileStream.entryOf, hm] at hi
  have hwhole := (h.entry _ i _ hi).2.1
  omega

/-! ## Bodies of responses -/

theorem selected_of_window {range : Option (List RangeSpec)} {first last : Nat} {source : Source}
    {mem : Option (MemFileTempOpts × Nat)} (hsource : source.content = some content)
    (hwindow : bytesRange range len = some (first, last))
    (hmem : ∀ memOpts capacity, mem = some (memOpts, capacity) → capacity = len) {bufSize : Nat}
    (hsize : 0 < bufSize) :
    FileStream.Selected content len { source, start := first, subLen := last - first, bufSize, mem } := by
  obtain ⟨hfirst, hlast⟩ := bytesRange_bounds hwindow
  refine ⟨hsource, ?_, hsize, hmem⟩
  show first + (last - first) ≤ len
  omega

theorem fileStream_capacity {mc : Option MemCacheOpts} {file : FileTree.OpenFile} {path : Path} {metadata : Inode}
    {modified : Option Nat} {first last : Nat} {memOpts : MemFileTempOpts} {capacity : Nat}
    (h : (fileStream crates mc file path metadata modified first last).mem = some (memOpts, capacity)) :
    capacity = metadata.size := by
  unfold fileStream at h
  dsimp only at h
  split at h
  · cases h
    rfl
  · cases h

theorem fileStream_isSome (crates : Crates) (mc : Option MemCacheOpts) (file : FileTree.OpenFile) (path : Path)
    (metadata : Inode) (modified : Option Nat) (first last : Nat) :
    (fileStream crates mc file path metadata modified first last).mem.isSome =
      (mc.any (metadata.size ≤ ·.maxFileSize) && isUtf8 path) := by
  unfold fileStream
  dsimp only
  cases mc.any (metadata.size ≤ ·.maxFileSize) && isUtf8 path <;> rfl

/-- The bodies of files, with any size of the buffer, deliver their window unless they cache the beginning of a file
that is longer than its metadata say. The bodies of entries always do. -/
theorem streams_deliver_iff (crates : Crates) :
    (∀ (file : FileTree.OpenFile) (content : Octets) (path : Path) (metadata : Inode)
        (conditionals : ConditionalHeaders) (memoryCache : Option MemCacheOpts) (resp : Response Body) (s : FileStream),
      file.content = some content → responseBody crates file path metadata conditionals memoryCache = .ok resp →
      resp.body = .stream s → ∀ bufSize, 0 < bufSize →
      (DeliversWindow content { s with bufSize } ↔
        ¬ ((memoryCache.any (metadata.size ≤ ·.maxFileSize) && isUtf8 path) = true ∧ s.start = 0 ∧
          s.subLen = metadata.size ∧ 0 < metadata.size ∧ metadata.size < content.length))) ∧
    ∀ (entry : MemFile) (headers : HeaderMap) (s : FileStream), (entry.responseBody crates headers).body = .stream s →
      ∀ bufSize, 0 < bufSize → DeliversWindow entry.data { s with bufSize } := by
  constructor
  · intro file content path metadata conditionals memoryCache resp s hcontent hresp hbody bufSize hpos
    obtain ⟨modified, range, first, last, _, _, hwindow, rfl⟩ := responseBody_window hresp hbody
    have hsource : (Source.file file).content = some content := hcontent
    have hs : FileStream.Selected content metadata.size
        { fileStream crates memoryCache file path metadata modified first last with bufSize } :=
      selected_of_window hsource hwindow (fun _ _ hmem => fileStream_capacity hmem) hpos
    rw [← fileStream_isSome crates memoryCache file path metadata modified first last]
    exact ⟨fun h hpart => hs.not_delivers hpart h, fun hpart => hs.delivers hpart⟩
  · intro entry headers s hbody bufSize hpos
    obtain ⟨range, first, last, hwindow, rfl⟩ := MemFile.responseBody_window hbody
    exact (selected_of_window rfl hwindow (fun _ _ hmem => (by cases hmem)) hpos).delivers fun hpart => by cases hpart.1

theorem streams_deliver_iff_whole : ∃ resp s,
    responseBody rangeCrates ⟨[], [], sampleFile (named "abc")⟩ [] (sampleFile (named "abc"))
      (ConditionalHeaders.new rangeCrates []) (some ⟨8388608⟩) = .ok resp ∧ resp.body = .stream s ∧
    DeliversWindow (named "abc") { s with bufSize := 2 } := by
  obtain ⟨resp, s, hresp, hbody⟩ : ∃ resp s,
      responseBody rangeCrates ⟨[], [], sampleFile (named "abc")⟩ [] (sampleFile (named "abc"))
        (ConditionalHeaders.new rangeCrates []) (some ⟨8388608⟩) = .ok resp ∧ resp.body = .stream s := ⟨_, _, rfl, rfl⟩
  exact ⟨resp, s, hresp, hbody, ((streams_deliver_iff rangeCrates).1 _ _ _ _ _ _ _ _ rfl hresp hbody 2 (by decide)).mpr
    fun hpart => absurd hpart.2.2.2.2 (by decide)⟩

/-- A client that accepts gzip reads the variant of `a.html`, and the first byte of it is cached as `a.html`. -/
theorem part_of_variant_cached : ∃ r s,
    handle sampleCrates variantTree [] (cachedOpts "/a.html" [(.acceptEncoding, HeaderValue.fromStatic "gzip")]) =
      .ok r ∧
    r.resp.body = .stream s ∧ s.source.content = some (named "gzip of a") ∧ 0 < s.bufSize ∧
    (s.pollAt (fun _ => .upTo 1 Nat.one_pos) 0).inserted.map (·.2.data) = some (named "g") ∧
    ¬ DeliversWindow (named "gzip of a") s := by
  have hstream : ((handle sampleCrates variantTree []
      (cachedOpts "/a.html" [(.acceptEncoding, HeaderValue.fromStatic "gzip")])).toOption.any fun r =>
        r.resp.body.stream?.any fun s => s.source.content = some (named "gzip of a") ∧ 0 < s.bufSize ∧ s.subLen = 1 ∧
          (s.pollAt (fun _ => .upTo 1 Nat.one_pos) 0).inserted.map (·.2.data) = some (named "g")) = true := by
    decide +kernel
  obtain ⟨r, hr, hr'⟩ := (Option.any_eq_true _ _).mp hstream
  obtain ⟨s, hs, hpolled⟩ := (Option.any_eq_true _ _).mp hr'
  obtain ⟨hsource, hsize, hsub, hdata⟩ := of_decide_eq_true hpolled
  refine ⟨r, s, Checked.toOption_eq_some.mp hr, Body.stream?_eq_some.mp hs, hsource, hsize, hdata, fun h => ?_⟩
  obtain ⟨e, he, _⟩ := Option.map_eq_some_iff.mp hdata
  exact absurd (hsub.symm.trans (h.entry _ 0 e he).2.1) (by decide)

end WeaveGate.Static
