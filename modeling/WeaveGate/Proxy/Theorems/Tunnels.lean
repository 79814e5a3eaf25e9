import WeaveGate.Proxy.Theorems
import WeaveGate.Proxy.Tunnels

/-!
# The limit on tunnels

Permits are neither lost nor doubled, whatever upgrade requests and tunnels do and in whatever order.
-/

namespace WeaveGate.Proxy

open Http Settings

variable {ι β : Type}

/-! ## The permits that are out -/

def heldPermits (s : TunnelState ι β) : List Nat := s.upgrades.filterMap (·.permit) ++ s.tunnels.filterMap (·.permit)

/-- Every request and every tunnel holds a permit, and the semaphore accounts for all of them. -/
structure Conserved (n : Nat) (s : TunnelState ι β) : Prop where
  accounts : ∃ semaphore, s.semaphore = some semaphore ∧ semaphore.Accounts n (heldPermits s)
  upgrades : ∀ u ∈ s.upgrades, u.permit.isSome = true
  tunnels : ∀ t ∈ s.tunnels, t.permit.isSome = true

theorem perm_cons_eraseP {α : Type} {p : α → Bool} {l : List α} {a : α} (h : l.find? p = some a) :
    l.Perm (a :: l.eraseP p) := by
  induction l with
  | nil => cases h
  | cons b l ih =>
      by_cases hb : p b = true
      · rw [List.find?_cons_of_pos hb] at h
        cases h
        rw [List.eraseP_cons_of_pos hb]
      · rw [List.find?_cons_of_neg hb] at h
        rw [List.eraseP_cons_of_neg hb]
        exact (List.Perm.cons b (ih h)).trans (List.Perm.swap _ _ _)

variable {n : Nat} {s : TunnelState ι β}

/-- A permit that leaves its holder goes back to the semaphore. -/
theorem Conserved.release (h : Conserved n s) {permit : Option Nat} (hsome : permit.isSome = true)
    {upgrades : List (Upgrade ι β)} {tunnels : List (Tunnel ι)} (answers : List (Answer ι β))
    (hheld : (heldPermits s).Perm (permit.toList ++
      (upgrades.filterMap (·.permit) ++ tunnels.filterMap (·.permit))))
    (hupgrades : ∀ u ∈ upgrades, u.permit.isSome = true) (htunnels : ∀ t ∈ tunnels, t.permit.isSome = true) :
    Conserved n ⟨dropPermit s.semaphore permit, upgrades, tunnels, answers⟩ := by
  obtain ⟨serial, rfl⟩ := Option.isSome_iff_exists.mp hsome
  obtain ⟨semaphore, hsem, haccounts⟩ := h.accounts
  refine ⟨⟨semaphore.release serial, ?_, (haccounts.perm hheld).release⟩, hupgrades, htunnels⟩
  rw [hsem]
  rfl

theorem Conserved.finish (h : Conserved n s) {u : Upgrade ι β} {isIt : Upgrade ι β → Bool}
    (hu : s.upgrades.find? isIt = some u) (exchange : Option (Exchange β)) : Conserved n (s.finish u isIt exchange) := by
  have hperm := perm_cons_eraseP hu
  refine h.release (h.upgrades u (List.mem_of_find?_eq_some hu)) _ ?_
    (fun v hv => h.upgrades v (List.mem_of_mem_eraseP hv)) h.tunnels
  have hheld := (hperm.filterMap (·.permit)).append_right (s.tunnels.filterMap (·.permit))
  cases hpermit : u.permit with
  | none => simpa [heldPermits, List.filterMap_cons, hpermit] using hheld
  | some serial => simpa [heldPermits, List.filterMap_cons, hpermit] using hheld

theorem Conserved.acquired (h : Conserved n s) {semaphore semaphore' : Semaphore} {permit : Nat}
    (hsem : s.semaphore = some semaphore) (hacquire : semaphore.tryAcquire = some (permit, semaphore')) (id : ι)
    (call : UpgradeCall β) :
    Conserved n { s with semaphore := some semaphore', upgrades := s.upgrades ++ [⟨id, call, some permit, false⟩] } := by
  obtain ⟨_, hsome, haccounts⟩ := h.accounts
  cases hsem.symm.trans hsome
  refine ⟨⟨semaphore', rfl, (haccounts.tryAcquire hacquire).perm ?_⟩, ?_, h.tunnels⟩
  · simp only [heldPermits, List.filterMap_append, List.filterMap_cons, List.filterMap_nil, List.append_assoc]
    exact List.perm_middle.symm
  · intro u hu
    rcases List.mem_append.mp hu with hu | hu
    · exact h.upgrades u hu
    · cases List.mem_singleton.mp hu
      rfl

theorem Conserved.waits (h : Conserved n s) {u : Upgrade ι β} {isIt : Upgrade ι β → Bool}
    (hu : s.upgrades.find? isIt = some u) :
    Conserved n { s with upgrades := s.upgrades.eraseP isIt ++ [{ u with waiting := true }] } := by
  obtain ⟨semaphore, hsem, haccounts⟩ := h.accounts
  refine ⟨⟨semaphore, hsem, haccounts.perm ?_⟩, ?_, h.tunnels⟩
  · refine List.Perm.append_right _ (((perm_cons_eraseP hu).filterMap (·.permit)).trans ?_)
    rw [List.filterMap_append, List.filterMap_cons]
    cases hpermit : u.permit with
    | none => simp
    | some serial =>
        simp only [List.filterMap_cons, List.filterMap_nil]
        exact (List.perm_append_singleton _ _).symm
  · intro v hv
    rcases List.mem_append.mp hv with hv | hv
    · exact h.upgrades v (List.mem_of_mem_eraseP hv)
    · cases List.mem_singleton.mp hv
      exact h.upgrades u (List.mem_of_find?_eq_some hu)

/-- After a 101 the permit has another holder. -/
theorem Conserved.switched (h : Conserved n s) {u : Upgrade ι β} {isIt : Upgrade ι β → Bool}
    (hu : s.upgrades.find? isIt = some u) (answers : List (Answer ι β)) :
    Conserved n { s with
      upgrades := s.upgrades.eraseP isIt, tunnels := s.tunnels ++ [⟨u.id, u.permit⟩], answers := answers } := by
  obtain ⟨semaphore, hsem, haccounts⟩ := h.accounts
  have hpermit := h.upgrades u (List.mem_of_find?_eq_some hu)
  obtain ⟨serial, hserial⟩ := Option.isSome_iff_exists.mp hpermit
  refine ⟨⟨semaphore, hsem, haccounts.perm ?_⟩, fun v hv => h.upgrades v (List.mem_of_mem_eraseP hv), ?_⟩
  · refine (List.Perm.append_right _ ((perm_cons_eraseP hu).filterMap (·.permit))).trans ?_
    simp only [heldPermits, List.filterMap_cons, List.filterMap_append, List.filterMap_nil, hserial,
      List.cons_append, ← List.append_assoc]
    exact (List.perm_append_singleton _ _).symm
  · intro t ht
    rcases List.mem_append.mp ht with ht | ht
    · exact h.tunnels t ht
    · cases List.mem_singleton.mp ht
      exact hpermit

theorem Conserved.ended (h : Conserved n s) {t : Tunnel ι} {isIt : Tunnel ι → Bool}
    (ht : s.tunnels.find? isIt = some t) :
    Conserved n { s with semaphore := dropPermit s.semaphore t.permit, tunnels := s.tunnels.eraseP isIt } := by
  refine h.release (h.tunnels t (List.mem_of_find?_eq_some ht)) _ ?_ h.upgrades
    (fun t' ht' => h.tunnels t' (List.mem_of_mem_eraseP ht'))
  have hheld := ((perm_cons_eraseP ht).filterMap (·.permit)).append_left (s.upgrades.filterMap (·.permit))
  cases hpermit : t.permit with
  | none => simpa [heldPermits, List.filterMap_cons, hpermit] using hheld
  | some serial =>
      simp only [List.filterMap_cons, hpermit] at hheld
      exact hheld.trans List.perm_middle

variable {parseUri : Str → Option Uri} {empty : β}

/-! ## Refusals -/

section

variable [DecidableEq ι] (parseUri : Str → Option Uri) (empty : β) (s : TunnelState ι β)

inductive Transition : TunnelEvent ι β → TunnelState ι β → Prop where
  | unlimited {id call} (hsem : s.semaphore = none) :
      Transition (.request id call) { s with upgrades := s.upgrades ++ [⟨id, call, none, false⟩] }
  | refused {id call semaphore} (hsem : s.semaphore = some semaphore) (hacquire : semaphore.tryAcquire = none) :
      Transition (.request id call) { s with answers := s.answers ++
        [⟨id, call, ⟨[], .ok ((Response.new empty).withStatus .serviceUnavailable)⟩⟩] }
  | acquired {id call semaphore permit semaphore'} (hsem : s.semaphore = some semaphore)
      (hacquire : semaphore.tryAcquire = some (permit, semaphore')) :
      Transition (.request id call)
        { s with semaphore := some semaphore', upgrades := s.upgrades ++ [⟨id, call, some permit, false⟩] }
  /-- The event names no request or tunnel that it could happen to. -/
  | nobody {event} (hrequest : ∀ id call, event ≠ .request id call) : Transition event s
  | failed {id u e} (hu : s.upgrades.find? (isPreparing id) = some u)
      (he : upstreamUpgradeRequest parseUri u.call.rule u.call.ticket u.call.req u.call.remoteIp = .error e) :
      Transition (.prepared id) (s.finish u (isPreparing id) (some ⟨[], .error e⟩))
  | waits {id u} (hu : s.upgrades.find? (isPreparing id) = some u) :
      Transition (.prepared id)
        { s with upgrades := s.upgrades.eraseP (isPreparing id) ++ [{ u with waiting := true }] }
  | switched {id u outcome} (hu : s.upgrades.find? (isWaiting id) = some u) :
      Transition (.upstream id outcome)
        { s with
          upgrades := s.upgrades.eraseP (isWaiting id)
          tunnels := s.tunnels ++ [⟨u.id, u.permit⟩]
          answers := s.answers ++ [⟨u.id, u.call, forwardUpgradeInner parseUri empty (fun _ => outcome) u.call.rule
            u.call.ticket u.call.req u.call.remoteIp⟩] }
  | answered {id u outcome} (hu : s.upgrades.find? (isWaiting id) = some u) :
      Transition (.upstream id outcome) (s.finish u (isWaiting id) (some (forwardUpgradeInner parseUri empty
        (fun _ => outcome) u.call.rule u.call.ticket u.call.req u.call.remoteIp)))
  | dropped {id u} (hu : s.upgrades.find? (isWaiting id) = some u) :
      Transition (.dropped id) (s.finish u (isWaiting id) none)
  | ended {id how} {t : Tunnel ι} (ht : s.tunnels.find? (·.id = id) = some t) :
      Transition (.tunnelEnded id how)
        { s with semaphore := dropPermit s.semaphore t.permit, tunnels := s.tunnels.eraseP (·.id = id) }

theorem tunnelStep_transition (event : TunnelEvent ι β) :
    Transition parseUri empty s event (tunnelStep parseUri empty s event) := by
  cases event with
  | request id call =>
      simp only [tunnelStep, TunnelState.request]
      split
      · rename_i hsem
        exact .unlimited hsem
      · rename_i semaphore hsem
        split
        · rename_i hacquire
          exact .refused hsem hacquire
        · rename_i hacquire
          exact .acquired hsem hacquire
  | prepared id =>
      simp only [tunnelStep, TunnelState.prepared]
      split
      · exact .nobody fun _ _ h => by cases h
      · rename_i u hu
        split
        · rename_i e he
          exact .failed hu he
        · exact .waits hu
  | upstream id outcome =>
      simp only [tunnelStep, TunnelState.upstream]
      split
      · exact .nobody fun _ _ h => by cases h
      · rename_i u hu
        split
        · exact .switched hu
        · exact .answered hu
  | dropped id =>
      simp only [tunnelStep, TunnelState.dropped]
      split
      · exact .nobody fun _ _ h => by cases h
      · rename_i u hu
        exact .dropped hu
  | tunnelEnded id how =>
      simp only [tunnelStep, TunnelState.tunnelEnded]
      split
      · exact .nobody fun _ _ h => by cases h
      · rename_i t ht
        exact .ended ht

end

variable [DecidableEq ι] {s' : TunnelState ι β} {event : TunnelEvent ι β}

/-! ## Every step -/

theorem Transition.conserved (ht : Transition parseUri empty s event s') (h : Conserved n s) : Conserved n s' := by
  cases ht with
  | unlimited hnone =>
      obtain ⟨semaphore, hsem, _⟩ := h.accounts
      cases hnone.symm.trans hsem
  | refused _ _ => exact ⟨h.accounts, h.upgrades, h.tunnels⟩
  | acquired hsem hacquire => exact h.acquired hsem hacquire _ _
  | nobody _ => exact h
  | failed hu _ => exact h.finish hu _
  | waits hu => exact h.waits hu
  | switched hu => exact h.switched hu _
  | answered hu => exact h.finish hu _
  | dropped hu => exact h.finish hu _
  | ended ht => exact h.ended ht

theorem Conserved.run (h : Conserved n s) (events : List (TunnelEvent ι β)) :
    Conserved n (Run.final (tunnelStep parseUri empty) s events) :=
  (Run.invariant (I := Conserved n) (C := fun _ _ => True)
    (fun s event hs _ => (tunnelStep_transition parseUri empty s event).conserved hs) h fun _ _ => trivial).2

end WeaveGate.Proxy
