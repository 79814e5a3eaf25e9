import Mathlib.Data.List.Basic

/-!
# Ordered multimaps

A key may have several values, in the order they were added. `insert` replaces all of them, `append` adds one
more. Only the values of each key and their order are observable, through `getAll`.
-/

/-- The entries of a multimap, oldest first. -/
abbrev Multimap (κ υ : Type) := List (κ × υ)

namespace Multimap

variable {κ υ : Type} [DecidableEq κ]

def getAll (m : Multimap κ υ) (k : κ) : List υ := (m.filter (·.1 = k)).map Prod.snd

def get? (m : Multimap κ υ) (k : κ) : Option υ := (m.getAll k).head?

def contains (m : Multimap κ υ) (k : κ) : Bool := m.any (·.1 = k)

def remove (m : Multimap κ υ) (k : κ) : Multimap κ υ := m.filter (·.1 ≠ k)

/-- Adds a value after the values the key already has. -/
def append (m : Multimap κ υ) (k : κ) (v : υ) : Multimap κ υ := m ++ [(k, v)]

/-- Makes `v` the only value of the key. -/
def insert (m : Multimap κ υ) (k : κ) (v : υ) : Multimap κ υ := (m.remove k).append k v

@[simp] theorem getAll_nil (k : κ) : getAll ([] : Multimap κ υ) k = [] := rfl

@[simp] theorem getAll_cons (e : κ × υ) (m : Multimap κ υ) (k : κ) :
    getAll (e :: m) k = if e.1 = k then e.2 :: getAll m k else getAll m k := by
  unfold getAll
  by_cases h : e.1 = k <;> simp [h]

@[simp] theorem getAll_append_list (m m' : Multimap κ υ) (k : κ) :
    getAll (m ++ m') k = getAll m k ++ getAll m' k := by
  simp [getAll]

theorem getAll_append (m : Multimap κ υ) (k k' : κ) (v : υ) :
    (m.append k v).getAll k' = if k = k' then m.getAll k' ++ [v] else m.getAll k' := by
  simp only [append, getAll_append_list, getAll_cons, getAll_nil]
  split <;> simp

theorem getAll_remove (m : Multimap κ υ) (k k' : κ) :
    (m.remove k).getAll k' = if k = k' then [] else m.getAll k' := by
  induction m with
  | nil => simp [remove]
  | cons e m ih =>
      unfold remove at ih ⊢
      by_cases he : e.1 = k
      · simp only [he, ne_eq, not_true_eq_false, decide_false, Bool.false_eq_true, not_false_eq_true,
          List.filter_cons_of_neg, ih, getAll_cons]
        split <;> rfl
      · simp only [ne_eq, he, not_false_eq_true, decide_true, List.filter_cons_of_pos, getAll_cons, ih]
        by_cases hk : k = k'
        · subst hk; simp [he]
        · simp [hk]

theorem getAll_insert (m : Multimap κ υ) (k k' : κ) (v : υ) :
    (m.insert k v).getAll k' = if k = k' then [v] else m.getAll k' := by
  simp only [insert, getAll_append, getAll_remove]
  split <;> simp

@[simp] theorem getAll_insert_self (m : Multimap κ υ) (k : κ) (v : υ) : (m.insert k v).getAll k = [v] := by
  simp [getAll_insert]

theorem getAll_insert_of_ne {m : Multimap κ υ} {k k' : κ} {v : υ} (h : k ≠ k') :
    (m.insert k v).getAll k' = m.getAll k' := by
  simp [getAll_insert, h]

theorem get?_insert (m : Multimap κ υ) (k k' : κ) (v : υ) :
    (m.insert k v).get? k' = if k = k' then some v else m.get? k' := by
  rw [get?, get?, getAll_insert]
  split <;> rfl

theorem get?_remove (m : Multimap κ υ) (k k' : κ) :
    (m.remove k).get? k' = if k = k' then none else m.get? k' := by
  rw [get?, get?, getAll_remove]
  split <;> rfl

theorem get?_map_snd {υ' : Type} (f : υ → υ') (m : Multimap κ υ) (k : κ) :
    get? (m.map fun e => (e.1, f e.2)) k = (m.get? k).map f := by
  induction m with
  | nil => rfl
  | cons e m ih =>
      simp only [get?, List.map_cons, getAll_cons] at ih ⊢
      split
      · rfl
      · exact ih

theorem forall_key_insert {P : κ → Prop} {m : Multimap κ υ} {k : κ} (v : υ) (hk : P k) (hm : ∀ e ∈ m, P e.1) :
    ∀ e ∈ m.insert k v, P e.1 := by
  intro e he
  rcases List.mem_append.mp he with hold | hnew
  · exact hm e (List.mem_of_mem_filter hold)
  · rw [List.mem_singleton.mp hnew]
    exact hk

/-! ## Inserting every entry of another multimap -/

def insertAll (p : κ → Bool) (src dst : Multimap κ υ) : Multimap κ υ :=
  src.foldl (fun m e => if p e.1 then m.insert e.1 e.2 else m) dst

/-- Each insertion replaces the one before it, so of the values of a key only the last one arrives. -/
theorem getAll_insertAll (p : κ → Bool) (src dst : Multimap κ υ) (k : κ) :
    (insertAll p src dst).getAll k =
      if p k then ((src.getAll k).getLast?.map ([·])).getD (dst.getAll k) else dst.getAll k := by
  induction src generalizing dst with
  | nil => simp [insertAll]
  | cons e src ih =>
      have hstep : insertAll p (e :: src) dst =
          insertAll p src (if p e.1 then dst.insert e.1 e.2 else dst) := rfl
      rw [hstep, ih]
      by_cases hk : e.1 = k
      · subst hk
        by_cases hp : p e.1 = true
        · simp [hp, List.getLast?_cons, Option.getD_map]
        · simp [hp]
      · by_cases hp : p e.1 = true <;> simp [hp, hk, getAll_insert_of_ne hk]

/-! ## Removing several keys -/

def removeAll (ks : List κ) (m : Multimap κ υ) : Multimap κ υ := ks.foldl remove m

theorem getAll_removeAll (ks : List κ) (m : Multimap κ υ) (k : κ) :
    (removeAll ks m).getAll k = if k ∈ ks then [] else m.getAll k := by
  induction ks generalizing m with
  | nil => simp [removeAll]
  | cons k' ks ih =>
      have hstep : removeAll (k' :: ks) m = removeAll ks (m.remove k') := rfl
      rw [hstep, ih, getAll_remove]
      by_cases hk : k' = k
      · simp [hk]
      · simp [hk, Ne.symm hk]

end Multimap
