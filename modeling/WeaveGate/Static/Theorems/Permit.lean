import WeaveGate.Lib.Steps
import WeaveGate.Static.Lemmas.Permit
import WeaveGate.Static.Theorems.MemCache

/-!
# How often a file is read

When requests for one file read it once, and what becomes of those that wait for the permit.
-/

namespace WeaveGate.Static

open Http
open Posix (Octets Path FileTree)

variable {crates : Crates} {t : FileTree} {p : Path}

/-! ## Runs in which each miss meets no other request -/

/-- The event is no lookup that misses while another request is between its own miss and the end of its read. -/
def FetchEvent.meetsNone (s : FetchState) : FetchEvent → Bool
  | .lookup k => !s.fetches[k]?.any (fun f => f.phase = .arrived && lookupPhase s.store f.opts = .missed) ||
      s.count FetchPhase.inFlight = 0
  | _ => true

structure FetchState.Quiet (p : Path) (s : FetchState) : Prop where
  flight : s.count FetchPhase.inFlight + (s.store.get? p).isSome.toNat ≤ 1
  opened : s.opened.count p ≤ s.count FetchPhase.isReading + (s.store.get? p).isSome.toNat
  nobody : ∀ f ∈ s.fetches, f.waited = false

theorem FetchState.count_setFetch {s : FetchState} {k : Nat} {f : Fetch} (hfetch : s.fetches[k]? = some f) (f' : Fetch)
    (q : FetchPhase → Bool) : (s.setFetch k f').count q + (q f.phase).toNat = s.count q + (q f'.phase).toNat :=
  Steps.countP_set_add (fun f : Fetch => q f.phase) hfetch f'

/-- One request goes on, and the store stays as it is. -/
theorem FetchState.Quiet.setFetch {s s' : FetchState} (hs : s.Quiet p) {k : Nat} {f f' : Fetch}
    (hfetch : s.fetches[k]? = some f) (hset : s'.fetches = s.fetches.set k f') (hstore : s'.store = s.store)
    (hflight : f'.phase.inFlight.toNat + s.count FetchPhase.inFlight + (s.store.get? p).isSome.toNat ≤
      1 + f.phase.inFlight.toNat)
    (hopened : s'.opened.count p + f.phase.isReading.toNat ≤ s.opened.count p + f'.phase.isReading.toNat)
    (hwaited : f'.waited = false) : s'.Quiet p := by
  have hcount : ∀ q, s'.count q + (q f.phase).toNat = s.count q + (q f'.phase).toNat := by
    intro q
    have hset' := count_setFetch hfetch f' q
    unfold count at *
    rw [hset]
    exact hset'
  have hin := hcount FetchPhase.inFlight
  have hread := hcount FetchPhase.isReading
  have := hs.opened
  refine ⟨by rw [hstore]; omega, by rw [hstore]; omega, fun g hg => ?_⟩
  rw [hset] at hg
  rcases List.mem_or_eq_of_mem_set hg with hg | rfl
  · exact hs.nobody g hg
  · exact hwaited

/-- One request goes on, in flight if it was, and the store stays as it is. -/
theorem FetchState.Quiet.goOn {s s' : FetchState} (hs : s.Quiet p) {k : Nat} {f f' : Fetch}
    (hfetch : s.fetches[k]? = some f) (hset : s'.fetches = s.fetches.set k f') (hstore : s'.store = s.store)
    (hflight : f'.phase.inFlight = f.phase.inFlight)
    (hopened : s'.opened.count p + f.phase.isReading.toNat ≤ s.opened.count p + f'.phase.isReading.toNat)
    (hwaited : f'.waited = false) : s'.Quiet p := by
  have hone := hs.flight
  refine hs.setFetch hfetch hset hstore ?_ hopened hwaited
  rw [hflight]
  omega

theorem two_le_countP {fetches : List Fetch} {j k : Nat} {f g : Fetch} {q : Fetch → Bool} (hne : j ≠ k)
    (hj : fetches[j]? = some g) (hk : fetches[k]? = some f) (hg : q g = true) (hf : q f = true)
    (f' : Fetch) (hf' : q f' = false) : 2 ≤ fetches.countP q := by
  have hcount := Steps.countP_set_add q hk f'
  have hmem : g ∈ fetches.set k f' := by
    refine List.mem_of_getElem? (i := j) ?_
    rw [List.getElem?_set_ne (Ne.symm hne), hj]
  have hpos : 0 < (fetches.set k f').countP q := List.countP_pos_iff.mpr ⟨g, hmem, hg⟩
  rw [hf, hf'] at hcount
  simp only [Bool.toNat_true, Bool.toNat_false] at hcount
  omega

theorem FetchPhase.inFlight_of_inLine {phase : FetchPhase} (h : phase.inLine = true) : phase.inFlight = true := by
  cases phase <;> first | rfl | cases h

/-- Who has missed is alone in flight, so nobody holds the permit. -/
theorem FetchState.Quiet.permit_free {s : FetchState} (hq : s.Quiet p) (hs : s.Sound crates t p) {k : Nat}
    {opts : HandleOpts} {waited : Bool} (fetch : s.fetches[k]? = some ⟨opts, .missed, waited⟩) :
    s.permit.holder.isSome = false := by
  have hflight := hq.flight
  rw [← Bool.not_eq_true]
  intro hsome
  obtain ⟨j, hj⟩ := Option.isSome_iff_exists.mp hsome
  obtain ⟨g, hg, hline⟩ := (Option.any_eq_true _ _).mp (hs.served.of_holder hj)
  have hne : j ≠ k := by
    rintro rfl
    cases hg.symm.trans fetch
    cases hline
  have htwo := two_le_countP (q := fun f => f.phase.inFlight) hne hg fetch (FetchPhase.inFlight_of_inLine hline) rfl
    ⟨opts, .arrived, waited⟩ rfl
  unfold FetchState.count at hflight
  omega

/-- The file that was read is in the store. -/
theorem FetchState.Quiet.finish {s : FetchState} (hq : s.Quiet p) {k : Nat} {opts : HandleOpts} {waited : Bool}
    {r : Reading} (fetch : s.fetches[k]? = some ⟨opts, .reading r, waited⟩) (entry : MemFile) :
    ({ s with store := s.store.insert p entry }.setFetch k ⟨opts, .answered false, waited⟩).Quiet p := by
  have hflight := hq.flight
  have hopened := hq.opened
  have hwaited := hq.nobody _ (List.mem_of_getElem? fetch)
  have hin := FetchState.count_setFetch fetch ⟨opts, .answered false, waited⟩ FetchPhase.inFlight
  have hread := FetchState.count_setFetch fetch ⟨opts, .answered false, waited⟩ FetchPhase.isReading
  have hstored : ((s.store.insert p entry).get? p).isSome = true := by
    rw [Multimap.get?_insert, if_pos rfl, Option.isSome_some]
  simp only [FetchPhase.inFlight, FetchPhase.before, FetchPhase.isReading, Bool.or_true, Bool.or_false,
    Bool.toNat_true, Bool.toNat_false] at hin hread
  refine ⟨?_, ?_, fun f hf => ?_⟩
  · change (s.setFetch k ⟨opts, .answered false, waited⟩).count _ + ((s.store.insert p entry).get? p).isSome.toNat ≤ 1
    rw [hstored, Bool.toNat_true]
    omega
  · change s.opened.count p ≤
      (s.setFetch k ⟨opts, .answered false, waited⟩).count _ + ((s.store.insert p entry).get? p).isSome.toNat
    rw [hstored, Bool.toNat_true]
    omega
  · rcases List.mem_or_eq_of_mem_set hf with hf | rfl
    · exact hq.nobody f hf
    · exact hwaited

theorem FetchState.Quiet.evict {s : FetchState} (hq : s.Quiet p) (path : Path) :
    { s with store := s.store.remove path, opened := s.opened.filter (· ≠ path) : FetchState }.Quiet p := by
  have hflight := hq.flight
  by_cases hpath : path = p
  · subst hpath
    have hlost : ((s.store.remove path).get? path).isSome = false := by
      rw [Multimap.get?_remove, if_pos rfl, Option.isSome_none]
    have hgone : (s.opened.filter (· ≠ path)).count path = 0 := by
      rw [List.count_eq_zero]
      simp
    refine ⟨?_, ?_, hq.nobody⟩
    · rw [hlost]
      exact Nat.le_trans (Nat.add_le_add_left (Nat.zero_le _) _) hflight
    · rw [hgone]
      exact Nat.zero_le _
  · have hkept : (s.store.remove path).get? p = s.store.get? p := by
      rw [Multimap.get?_remove, if_neg hpath]
    have hcount : (s.opened.filter (· ≠ path)).count p = s.opened.count p := by
      simp [List.count_filter, Ne.symm hpath]
    refine ⟨?_, ?_, hq.nobody⟩
    · rw [hkept]
      exact hflight
    · rw [hkept, hcount]
      exact hq.opened

theorem FetchMove.quiet {s s' : FetchState} {event : FetchEvent} (h : FetchMove crates t p s event s')
    (hs : s.Sound crates t p) (hmeets : event.meetsNone s = true) (hq : s.Quiet p) : s'.Quiet p := by
  cases h with
  | idle => exact hq
  | arrive cacheable =>
      refine ⟨?_, ?_, fun f hf => ?_⟩
      · simpa [FetchState.count, FetchPhase.inFlight, FetchPhase.before, FetchPhase.isReading] using hq.flight
      · simpa [FetchState.count, FetchPhase.isReading] using hq.opened
      · rcases List.mem_append.mp hf with hf | hf
        · exact hq.nobody f hf
        · rw [List.mem_singleton.mp hf]
  | hit fetch stored =>
      have hwaited := hq.nobody _ (List.mem_of_getElem? fetch)
      exact hq.goOn fetch rfl rfl rfl (Nat.le_refl _) hwaited
  | miss fetch absent =>
      have hwaited := hq.nobody _ (List.mem_of_getElem? fetch)
      rename_i k opts waited
      have hmiss : lookupPhase s.store opts = .missed := by
        rw [lookupPhase_cacheable (hs.cacheable _ (List.mem_of_getElem? fetch)), absent]
        rfl
      have hnone : s.count FetchPhase.inFlight = 0 := by
        simpa [FetchEvent.meetsNone, fetch, hmiss] using hmeets
      refine hq.setFetch fetch rfl rfl ?_ (Nat.le_refl _) hwaited
      rw [hnone, absent]
      exact Nat.le_refl 1
  | acquire fetch => exact hq.goOn fetch rfl rfl rfl (Nat.le_refl _) (hq.permit_free hs fetch)
  | acquired fetch holder =>
      have hwaited := hq.nobody _ (List.mem_of_getElem? fetch)
      exact hq.goOn fetch rfl rfl rfl (Nat.le_refl _) hwaited
  | dropPermit fetch =>
      have hwaited := hq.nobody _ (List.mem_of_getElem? fetch)
      exact hq.goOn fetch rfl rfl rfl (Nat.le_refl _) hwaited
  | proceed fetch fills =>
      have hwaited := hq.nobody _ (List.mem_of_getElem? fetch)
      refine hq.goOn fetch rfl rfl rfl ?_ hwaited
      simp [FetchState.setFetch, FetchPhase.isReading]
  | read fetch fills =>
      have hwaited := hq.nobody _ (List.mem_of_getElem? fetch)
      exact hq.goOn fetch rfl rfl rfl (Nat.le_refl _) hwaited
  | finish fetch => exact hq.finish fetch _
  | evict stored => exact hq.evict _

/-! ## Every request that has missed comes to read -/

def FetchPhase.left : FetchPhase → Nat
  | .missed => 4
  | .acquiring => 3
  | .permitted => 2
  | .continuing => 1
  | _ => 0

def FetchState.left (s : FetchState) : Nat := (s.fetches.map fun f => f.phase.left).sum

/-- The event lets no request arrive and none look in the store. -/
def FetchEvent.goesOn : FetchEvent → Bool
  | .arrive _ | .lookup _ => false
  | _ => true

/-- A request on its way to its read takes a step. -/
def Advances (crates : Crates) (t : FileTree) (p : Path) (s s' : FetchState) : Prop :=
  s.Sound crates t p ∧ ∃ event : FetchEvent, event.goesOn = true ∧ s' = fetchStep crates t s event ∧
    s'.left < s.left ∧ s'.count FetchPhase.inFlight = s.count FetchPhase.inFlight

theorem advances_setFetch {s : FetchState} (hs : s.Sound crates t p) {event : FetchEvent} {k : Nat} {f f' : Fetch}
    (hevent : event.goesOn = true) (hfetch : s.fetches[k]? = some f)
    (hset : (fetchStep crates t s event).fetches = s.fetches.set k f') (hleft : f'.phase.left < f.phase.left)
    (hflight : f'.phase.inFlight = f.phase.inFlight) : Advances crates t p s (fetchStep crates t s event) := by
  have hsum := Steps.sum_set_add (fun f : Fetch => f.phase.left) hfetch f'
  have hcount := Steps.countP_set_add (fun f : Fetch => f.phase.inFlight) hfetch f'
  rw [hflight] at hcount
  refine ⟨hs, event, hevent, rfl, ?_, ?_⟩
  · unfold FetchState.left
    rw [hset]
    omega
  · unfold FetchState.count
    rw [hset]
    omega

theorem exists_advances {s : FetchState} (hs : s.Sound crates t p) {f : Fetch} (hf : f ∈ s.fetches)
    (hbefore : f.phase.before = true) : ∃ s', Advances crates t p s s' := by
  obtain ⟨k, hk⟩ := List.mem_iff_getElem?.mp hf
  have hacquired : ∀ j opts waited, s.fetches[j]? = some ⟨opts, .acquiring, waited⟩ → s.permit.holder = some j →
      ∃ s', Advances crates t p s s' := by
    intro j opts waited hj hholder
    have hset : (fetchStep crates t s (.acquired j)).fetches = s.fetches.set j ⟨opts, .permitted, waited⟩ := by
      simp only [fetchStep, hj, hholder, if_true, FetchState.setFetch]
    exact ⟨_, advances_setFetch hs rfl hj hset (by simp [FetchPhase.left]) rfl⟩
  have hdrop : ∀ (j : Nat) opts waited, s.fetches[j]? = some ⟨opts, .permitted, waited⟩ →
      ∃ s', Advances crates t p s s' := by
    intro j opts waited hj
    have hset : (fetchStep crates t s (.dropPermit j)).fetches = s.fetches.set j ⟨opts, .continuing, waited⟩ := by
      simp only [fetchStep, hj, FetchState.setFetch]
    exact ⟨_, advances_setFetch hs rfl hj hset (by simp [FetchPhase.left]) rfl⟩
  obtain ⟨opts, phase, waited⟩ := f
  cases phase with
  | missed =>
      have hset : (fetchStep crates t s (.acquire k)).fetches =
          s.fetches.set k ⟨opts, .acquiring, s.permit.holder.isSome⟩ := by
        simp only [fetchStep, hk, FetchState.setFetch]
      exact ⟨_, advances_setFetch hs rfl hk hset (by simp [FetchPhase.left]) rfl⟩
  | acquiring =>
      -- the first in the line has the permit, or has it handed on
      obtain ⟨j, hholder, hj⟩ := hs.served.exists_holder (i := k) (by rw [hk]; rfl)
      obtain ⟨⟨opts', phase', waited'⟩, hj, hline⟩ := (Option.any_eq_true _ _).mp hj
      cases phase' with
      | acquiring => exact hacquired j opts' waited' hj hholder
      | permitted => exact hdrop j opts' waited' hj
      | _ => cases hline
  | permitted => exact hdrop k opts waited hk
  | continuing =>
      have hcacheable := hs.cacheable _ hf
      rw [isCacheable, Bool.and_eq_true, Option.any_eq_true] at hcacheable
      obtain ⟨_, stream, hstream, _⟩ := hcacheable
      have hset : (fetchStep crates t s (.proceed k)).fetches =
          s.fetches.set k ⟨opts, .reading (.start stream), waited⟩ := by
        simp only [fetchStep, hk, hstream, FetchState.setFetch]
      exact ⟨_, advances_setFetch hs rfl hk hset (by simp [FetchPhase.left]) rfl⟩
  | _ => cases hbefore

/-- However many requests have missed, they can all be in their reads at once. -/
theorem exists_all_reading {s : FetchState} (hs : s.Sound crates t p) :
    ∃ more, (∀ event ∈ more, FetchEvent.goesOn event = true) ∧
      (Run.final (fetchStep crates t) s more).count FetchPhase.isReading = s.count FetchPhase.inFlight := by
  have hends : ∃ s', Steps.Reaches (Advances crates t p) s s' ∧ Steps.Stuck (Advances crates t p) s' := by
    refine Steps.exists_stuck FetchState.left ?_ s
    rintro _ _ ⟨_, _, _, _, hleft, _⟩
    exact hleft
  obtain ⟨s', hreaches, hstuck⟩ := hends
  have hrun : s'.Sound crates t p ∧ s'.count FetchPhase.inFlight = s.count FetchPhase.inFlight ∧
      ∃ more, (∀ event ∈ more, FetchEvent.goesOn event = true) ∧ Run.final (fetchStep crates t) s more = s' := by
    refine Steps.invariant (I := fun s' => s'.Sound crates t p ∧
      s'.count FetchPhase.inFlight = s.count FetchPhase.inFlight ∧
      ∃ more, (∀ event ∈ more, FetchEvent.goesOn event = true) ∧ Run.final (fetchStep crates t) s more = s')
      ?_ hreaches ⟨hs, rfl, [], by simp, rfl⟩
    rintro s₁ s₂ ⟨_, event, hevent, rfl, _, hcount⟩ ⟨hsound, hcount₁, more, hmore, rfl⟩
    refine ⟨(fetchStep_move hsound event ?_).sound hsound, hcount.trans hcount₁, more ++ [event], ?_, ?_⟩
    · rintro opts rfl
      cases hevent
    · intro e he
      rcases List.mem_append.mp he with he | he
      · exact hmore e he
      · rw [List.mem_singleton.mp he]
        exact hevent
    · rw [Run.final_append]
      rfl
  obtain ⟨hsound, hcount, more, hmore, rfl⟩ := hrun
  refine ⟨more, hmore, hcount ▸ List.countP_congr fun f hf => ?_⟩
  have hbefore : f.phase.before = false := by
    rw [← Bool.not_eq_true]
    intro hbefore
    obtain ⟨s', hs'⟩ := exists_advances hsound hf hbefore
    exact hstuck s' hs'
  simp [FetchPhase.inFlight, hbefore]

/-! ## All runs -/

/-- One request reads the file at a time, and one until the store loses its entry. Who has waited for the permit is
answered from the store. -/
structure FetchState.ReadOnce (p : Path) (s : FetchState) : Prop where
  one : s.count FetchPhase.isReading ≤ 1
  once : s.opened.count p ≤ 1
  waited : ∀ f ∈ s.fetches, f.waited = true → f.phase.isReading = false ∧ f.phase ≠ .answered false

theorem FetchState.Quiet.readOnce {s : FetchState} (h : s.Quiet p) : s.ReadOnce p := by
  have hle : s.count FetchPhase.isReading ≤ s.count FetchPhase.inFlight :=
    List.countP_mono_left fun f _ hreading => by simp [FetchPhase.inFlight, hreading]
  have hflight := h.flight
  have hopened := h.opened
  refine ⟨by omega, by omega, fun f hf hw => ?_⟩
  rw [h.nobody f hf] at hw
  cases hw

/-- Only requests for the file arrive. -/
def FetchEvent.isFor (crates : Crates) (t : FileTree) (p : Path) : FetchEvent → Bool
  | .arrive opts => isCacheable crates t p opts
  | _ => true

theorem FetchState.sound_new : FetchState.new.Sound crates t p where
  cacheable := by simp [new]
  readings := by simp [new]
  served := FairLock.serves_free fun k => by simp [new]
  permitted := by simp [new]
  waited := by simp [new]

theorem FetchState.Sound.step {s : FetchState} (hs : s.Sound crates t p) {event : FetchEvent}
    (hfor : event.isFor crates t p = true) : (fetchStep crates t s event).Sound crates t p := by
  refine (fetchStep_move hs event ?_).sound hs
  rintro opts rfl
  exact hfor

theorem sound_of_run {events : List FetchEvent} (hfor : ∀ event ∈ events, event.isFor crates t p = true) :
    (Run.final (fetchStep crates t) .new events).Sound crates t p := by
  refine (Run.invariant (I := FetchState.Sound crates t p) (C := fun _ event => event.isFor crates t p = true)
    (fun s event hs h => hs.step h) FetchState.sound_new fun x hx => ?_).2
  obtain ⟨before, after, rfl, _⟩ := Run.exists_append_of_mem_trace hx
  exact hfor _ (by simp)

theorem quiet_of_run {events : List FetchEvent} (hfor : ∀ event ∈ events, event.isFor crates t p = true)
    (hmeets : ∀ x ∈ Run.trace (fetchStep crates t) .new events, x.2.meetsNone x.1 = true) :
    (Run.final (fetchStep crates t) .new events).Quiet p := by
  refine (Run.invariant (I := fun s => s.Sound crates t p ∧ s.Quiet p)
    (C := fun s event => event.isFor crates t p = true ∧ event.meetsNone s = true) (fun s event hs h => ?_) ?_
    fun x hx => ⟨?_, hmeets x hx⟩).2.2
  · refine ⟨hs.1.step h.1, (fetchStep_move hs.1 event ?_).quiet hs.1 h.2 hs.2⟩
    rintro opts rfl
    exact h.1
  · exact ⟨FetchState.sound_new, Nat.zero_le 1, Nat.zero_le _, by simp [FetchState.new]⟩
  · obtain ⟨before, after, rfl, _⟩ := Run.exists_append_of_mem_trace hx
    exact hfor _ (by simp)

/-- A miss that meets another request leads to two reads at once. -/
theorem exists_two_reading {s : FetchState} (hs : s.Sound crates t p) {event : FetchEvent}
    (hmeets : event.meetsNone s = false) :
    ∃ more, (∀ e ∈ more, FetchEvent.goesOn e = true) ∧
      2 ≤ (Run.final (fetchStep crates t) (fetchStep crates t s event) more).count FetchPhase.isReading := by
  cases event with
  | lookup k =>
      simp only [FetchEvent.meetsNone, Bool.or_eq_false_iff, Bool.not_eq_false', decide_eq_false_iff_not,
        Option.any_eq_true, Bool.and_eq_true, decide_eq_true_eq] at hmeets
      obtain ⟨⟨⟨opts, phase, waited⟩, hk, hphase, hmiss⟩, hothers⟩ := hmeets
      dsimp only at hphase hmiss
      subst hphase
      have hstep : fetchStep crates t s (.lookup k) = s.setFetch k ⟨opts, .missed, waited⟩ := by
        simp only [fetchStep, hk, hmiss]
      have hcount := FetchState.count_setFetch hk ⟨opts, .missed, waited⟩ FetchPhase.inFlight
      have hsound : (fetchStep crates t s (.lookup k)).Sound crates t p := hs.step rfl
      obtain ⟨more, hmore, hreading⟩ := exists_all_reading hsound
      refine ⟨more, hmore, ?_⟩
      rw [hreading, hstep]
      simp only [FetchPhase.inFlight, FetchPhase.before, FetchPhase.isReading, Bool.or_self, Bool.true_or,
        Bool.toNat_false, Bool.toNat_true] at hcount
      omega
  | _ => cases hmeets

/-- The file is read once, however the requests go on, exactly in the runs in which no lookup misses while another
request is between its miss and the end of its read. And who has waited for the permit is never answered from the
store, since the store is not looked at again. -/
theorem read_once_iff {events : List FetchEvent} (hfor : ∀ event ∈ events, event.isFor crates t p = true) :
    ((∀ before after more, events = before ++ after → (∀ event ∈ more, FetchEvent.goesOn event = true) →
        (Run.final (fetchStep crates t) .new (before ++ more)).ReadOnce p) ↔
      ∀ x ∈ Run.trace (fetchStep crates t) .new events, x.2.meetsNone x.1 = true) ∧
    ∀ f ∈ (Run.final (fetchStep crates t) .new events).fetches, f.waited = true → f.phase ≠ .answered true := by
  refine ⟨⟨fun hread x hx => ?_, ?_⟩, fun f hf hw => ((sound_of_run hfor).waited f hf hw).2⟩
  · rw [← Bool.not_eq_false]
    intro hmeets
    obtain ⟨before, after, hevents, hstate⟩ := Run.exists_append_of_mem_trace hx
    rw [hstate] at hmeets
    have hsound : (Run.final (fetchStep crates t) .new before).Sound crates t p :=
      sound_of_run fun event hevent => hfor event (by rw [hevents]; exact List.mem_append_left _ hevent)
    obtain ⟨more, hmore, htwo⟩ := exists_two_reading hsound hmeets
    have hone := (hread (before ++ [x.2]) after more (by rw [hevents, List.append_assoc]; rfl) hmore).one
    rw [List.append_assoc, Run.final_append] at hone
    exact absurd hone (Nat.not_le.mpr htwo)
  · rintro hmeets before after more rfl hmore
    have hquiet : (Run.final (fetchStep crates t) .new (before ++ more)).Quiet p := by
      refine quiet_of_run (fun event hevent => ?_) fun x hx => ?_
      · rcases List.mem_append.mp hevent with hevent | hevent
        · exact hfor event (List.mem_append_left _ hevent)
        · have hgo := hmore event hevent
          cases event <;> first | rfl | cases hgo
      · rw [Run.trace_append] at hx
        rcases List.mem_append.mp hx with hx | hx
        · exact hmeets x (by rw [Run.trace_append]; exact List.mem_append_left _ hx)
        · obtain ⟨first, rest, hevents, _⟩ := Run.exists_append_of_mem_trace hx
          have hgo := hmore x.2 (by rw [hevents]; simp)
          obtain ⟨s, event⟩ := x
          cases event <;> first | rfl | cases hgo
    exact hquiet.readOnce

def samplePath : Path := requestedPath (cachedOpts "/c.html" [])

/-- The second request finds in the store what the first has read. -/
def oneAfterAnother : List FetchEvent :=
  [.arrive (cachedOpts "/c.html" []), .arrive (cachedOpts "/c.html" []), .lookup 0, .acquire 0, .acquired 0,
    .dropPermit 0, .proceed 0, .poll 0 100, .lookup 1]

theorem read_once_iff_sequential :
    ((∀ before after more, oneAfterAnother = before ++ after → (∀ event ∈ more, FetchEvent.goesOn event = true) →
        (Run.final (fetchStep sampleCrates variantTree) .new (before ++ more)).ReadOnce samplePath) ↔
      ∀ x ∈ Run.trace (fetchStep sampleCrates variantTree) .new oneAfterAnother, x.2.meetsNone x.1 = true) ∧
    ∀ f ∈ (Run.final (fetchStep sampleCrates variantTree) .new oneAfterAnother).fetches, f.waited = true →
      f.phase ≠ .answered true :=
  read_once_iff (by decide +kernel)

/-- Both look in the store before the file is in it. The second even waits for the permit, and reads then. -/
def sideBySide : List FetchEvent :=
  [.arrive (cachedOpts "/c.html" []), .arrive (cachedOpts "/c.html" []), .lookup 0, .lookup 1, .acquire 0, .acquired 0,
    .acquire 1, .dropPermit 0, .acquired 1, .dropPermit 1, .proceed 0, .proceed 1]

theorem two_read_side_by_side :
    ¬ ∀ events : List FetchEvent, (∀ event ∈ events, event.isFor sampleCrates variantTree samplePath = true) →
      (Run.final (fetchStep sampleCrates variantTree) .new events).ReadOnce samplePath := by
  intro h
  have hread := h sideBySide (by decide +kernel)
  have htwo : (Run.final (fetchStep sampleCrates variantTree) .new sideBySide).count FetchPhase.isReading = 2 := by
    decide +kernel
  have hone := hread.one
  rw [htwo] at hone
  exact absurd hone (by decide)

end WeaveGate.Static
