import Mathlib.Data.List.Forall2

/-!
# Computations that may fail

How a successful run of a computation in `Except` splits into successful runs of its parts.
-/

namespace Checked

variable {ε α β : Type}

theorem bind_eq_ok {x : Except ε α} {f : α → Except ε β} {b : β} :
    (x >>= f) = .ok b ↔ ∃ a, x = .ok a ∧ f a = .ok b := by
  cases x with
  | error e => simp [bind, Except.bind]
  | ok a => simp [bind, Except.bind]

@[simp] theorem pure_eq_ok {a b : α} : (pure a : Except ε α) = .ok b ↔ a = b := by
  simp [pure, Except.pure]

theorem toOption_eq_some {x : Except ε α} {a : α} : x.toOption = some a ↔ x = .ok a := by
  cases x <;> simp [Except.toOption]

/-- Two computations that cannot be told apart through a map end in the same way. -/
theorem map_eq_map {x x' : Except ε α} {f : α → β} (h : x.map f = x'.map f) :
    (∃ e, x = .error e ∧ x' = .error e) ∨ ∃ a a', x = .ok a ∧ x' = .ok a' ∧ f a = f a' := by
  cases x with
  | error e =>
      cases x' with
      | error e' =>
          cases h
          exact .inl ⟨e, rfl, rfl⟩
      | ok a' => cases h
  | ok a =>
      cases x' with
      | error e' => cases h
      | ok a' => exact .inr ⟨a, a', rfl, rfl, Except.ok.inj h⟩

theorem mapM_eq_ok {f : α → Except ε β} {xs : List α} {ys : List β} :
    xs.mapM f = .ok ys ↔ List.Forall₂ (fun x y => f x = .ok y) xs ys := by
  induction xs generalizing ys with
  | nil => cases ys <;> simp
  | cons x xs ih =>
      rw [List.mapM_cons, bind_eq_ok]
      constructor
      · rintro ⟨y, hy, h⟩
        obtain ⟨ys', hys, h⟩ := bind_eq_ok.mp h
        rw [pure_eq_ok] at h
        subst h
        exact .cons hy (ih.mp hys)
      · intro h
        cases h with
        | cons hy hys => exact ⟨_, hy, bind_eq_ok.mpr ⟨_, ih.mpr hys, rfl⟩⟩

/-- A check that fails in one way only. -/
theorem mapM_eq_ite {f : α → Except ε β} {g : α → β} {p : α → Prop} [DecidablePred p] {e : ε}
    (hf : ∀ x, f x = if p x then .ok (g x) else .error e) (xs : List α) :
    xs.mapM f = if ∀ x ∈ xs, p x then .ok (xs.map g) else .error e := by
  induction xs with
  | nil => rfl
  | cons x xs ih =>
      rw [List.mapM_cons, ih, hf]
      simp only [List.forall_mem_cons]
      by_cases hx : p x
      · simp only [hx, true_and, if_true]
        split <;> rfl
      · simp only [hx, false_and, if_false]
        rfl

theorem mapM_isOk_iff {f : α → Except ε β} {xs : List α} :
    (∃ ys, xs.mapM f = .ok ys) ↔ ∀ x ∈ xs, ∃ y, f x = .ok y := by
  induction xs with
  | nil => simp
  | cons x xs ih =>
      simp only [List.mapM_cons, bind_eq_ok, pure_eq_ok, List.forall_mem_cons, ← ih]
      constructor
      · rintro ⟨_, y, hy, ys, hys, _⟩
        exact ⟨⟨y, hy⟩, ys, hys⟩
      · rintro ⟨⟨y, hy⟩, ys, hys⟩
        exact ⟨_, y, hy, ys, hys, rfl⟩

theorem exists_mapM_forall₂ {f : α → Except ε β} {R : α → β → Prop} {xs : List α}
    (h : ∀ x ∈ xs, ∃ y, f x = .ok y ∧ R x y) : ∃ ys, xs.mapM f = .ok ys ∧ List.Forall₂ R xs ys := by
  induction xs with
  | nil => exact ⟨[], rfl, .nil⟩
  | cons x xs ih =>
      obtain ⟨⟨y, hy, hR⟩, hxs⟩ := List.forall_mem_cons.mp h
      obtain ⟨ys, hys, hRs⟩ := ih hxs
      refine ⟨y :: ys, ?_, .cons hR hRs⟩
      rw [mapM_eq_ok] at hys ⊢
      exact .cons hy hys

/-! ## Lists related place by place -/

section

variable {R : α → β → Prop} {xs : List α} {ys : List β}

theorem exists_left (h : List.Forall₂ R xs ys) {y : β} (hy : y ∈ ys) : ∃ x ∈ xs, R x y := by
  induction h with
  | nil => cases hy
  | cons hxy _ ih =>
      rcases List.mem_cons.mp hy with rfl | hy
      · exact ⟨_, List.mem_cons_self, hxy⟩
      · obtain ⟨x, hx, h⟩ := ih hy
        exact ⟨x, List.mem_cons_of_mem _ hx, h⟩

theorem exists_right (h : List.Forall₂ R xs ys) {x : α} (hx : x ∈ xs) : ∃ y ∈ ys, R x y := by
  induction h with
  | nil => cases hx
  | cons hxy _ ih =>
      rcases List.mem_cons.mp hx with rfl | hx
      · exact ⟨_, List.mem_cons_self, hxy⟩
      · obtain ⟨y, hy, h⟩ := ih hx
        exact ⟨y, List.mem_cons_of_mem _ hy, h⟩

theorem pairwise_of_forall₂ {S : α → α → Prop} {T : β → β → Prop} (h : List.Forall₂ R xs ys) (hxs : xs.Pairwise S)
    (hST : ∀ x x' y y', S x x' → R x y → R x' y' → T y y') : ys.Pairwise T := by
  induction h with
  | nil => exact .nil
  | cons hxy hrest ih =>
      rw [List.pairwise_cons] at hxs
      refine List.pairwise_cons.mpr ⟨fun y' hy' => ?_, ih hxs.2⟩
      obtain ⟨x', hx', hxy'⟩ := exists_left hrest hy'
      exact hST _ _ _ _ (hxs.1 x' hx') hxy hxy'

end

theorem mapM_mem {f : α → Except ε β} {xs : List α} {ys : List β} (h : xs.mapM f = .ok ys) {y : β} (hy : y ∈ ys) :
    ∃ x ∈ xs, f x = .ok y :=
  exists_left (mapM_eq_ok.mp h) hy

theorem exists_of_mapM_mem {f : α → Except ε β} {xs : List α} {ys : List β} (h : xs.mapM f = .ok ys) {x : α}
    (hx : x ∈ xs) : ∃ y ∈ ys, f x = .ok y :=
  exists_right (mapM_eq_ok.mp h) hx

/-- Searching the results of a map is searching its inputs, when the tests agree. -/
theorem find?_forall₂ {R : α → β → Prop} {p : α → Bool} {q : β → Bool} {xs : List α} {ys : List β}
    (h : List.Forall₂ R xs ys) (hpq : ∀ x y, R x y → q y = p x) (y : β) :
    ys.find? q = some y → ∃ x, xs.find? p = some x ∧ R x y := by
  induction h with
  | nil => simp
  | cons hxy _ ih =>
      intro hy
      rename_i x y' xs ys _
      have hq := hpq _ _ hxy
      by_cases hp : p x = true
      · rw [List.find?_cons_of_pos (by rw [hq, hp])] at hy
        cases hy
        exact ⟨x, List.find?_cons_of_pos hp, hxy⟩
      · rw [List.find?_cons_of_neg (by rw [hq]; exact hp)] at hy
        rw [List.find?_cons_of_neg hp]
        exact ih hy

theorem find?_forall₂_isSome {R : α → β → Prop} {p : α → Bool} {q : β → Bool} {xs : List α} {ys : List β}
    (h : List.Forall₂ R xs ys) (hpq : ∀ x y, R x y → q y = p x) :
    (ys.find? q).isSome = (xs.find? p).isSome := by
  induction h with
  | nil => rfl
  | cons hxy _ ih =>
      rename_i x y' xs ys _
      have hq := hpq _ _ hxy
      by_cases hp : p x = true
      · rw [List.find?_cons_of_pos hp, List.find?_cons_of_pos (by rw [hq, hp])]
        rfl
      · rw [List.find?_cons_of_neg hp, List.find?_cons_of_neg (by rw [hq]; exact hp)]
        exact ih

end Checked
