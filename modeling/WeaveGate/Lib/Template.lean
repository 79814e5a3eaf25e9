import Mathlib.Algebra.GroupWithZero.Nat
import Mathlib.Algebra.Order.BigOperators.Group.List
import Mathlib.Algebra.Order.Group.Nat
import Mathlib.Data.List.Infix

/-!
# Texts with references

A reference is a mark with a numeral behind it. How much of the text behind the mark is read as its numeral is up to
a reader. Values are put in for references from the left, and the values themselves are not read again.
-/

namespace Template

variable {α : Type} [DecidableEq α]

/-- The index that the text behind a mark refers to and the number of elements it takes, none when the mark stands
for itself. -/
abbrev Reader (α : Type) := List α → Option (Nat × Nat)

/-- The first `skip` elements belong to a reference that has been expanded. -/
def expandFrom (mark : α) (read : Reader α) (vals : List (List α)) : Nat → List α → List α
  | _, [] => []
  | skip + 1, _ :: s => expandFrom mark read vals skip s
  | 0, c :: s =>
      if c = mark then
        match read s with
        | some (k, n) => vals.getD k [] ++ expandFrom mark read vals n s
        | none => c :: expandFrom mark read vals 0 s
      else c :: expandFrom mark read vals 0 s

def expand (mark : α) (read : Reader α) (vals : List (List α)) (s : List α) : List α :=
  expandFrom mark read vals 0 s

/-- What follows the marks of a text, one after the other. -/
def behindMarks (mark : α) : List α → List (List α)
  | [] => []
  | c :: s => if c = mark then s :: behindMarks mark s else behindMarks mark s

theorem mem_behindMarks {mark : α} {s rest : List α} :
    rest ∈ behindMarks mark s ↔ ∃ before, s = before ++ mark :: rest := by
  induction s with
  | nil => simp [behindMarks]
  | cons c s ih =>
      unfold behindMarks
      constructor
      · intro h
        split at h
        · rename_i hc
          rcases List.mem_cons.mp h with rfl | h
          · exact ⟨[], by rw [hc]; rfl⟩
          · obtain ⟨before, rfl⟩ := ih.mp h
            exact ⟨c :: before, rfl⟩
        · obtain ⟨before, rfl⟩ := ih.mp h
          exact ⟨c :: before, rfl⟩
      · rintro ⟨before, h⟩
        cases before with
        | nil =>
            cases h
            rw [if_pos rfl]
            exact List.mem_cons_self
        | cons b before =>
            cases h
            have hmem := ih.mpr ⟨before, rfl⟩
            split
            · exact List.mem_cons_of_mem _ hmem
            · exact hmem

/-! ## Readers that agree -/

theorem expandFrom_congr {mark : α} {read read' : Reader α} {vals : List (List α)} {s : List α}
    (h : ∀ rest ∈ behindMarks mark s, read rest = read' rest) (skip : Nat) :
    expandFrom mark read vals skip s = expandFrom mark read' vals skip s := by
  induction s generalizing skip with
  | nil => cases skip <;> rfl
  | cons c s ih =>
      have htail : ∀ rest ∈ behindMarks mark s, read rest = read' rest := fun rest hrest => by
        obtain ⟨before, rfl⟩ := mem_behindMarks.mp hrest
        exact h rest (mem_behindMarks.mpr ⟨c :: before, rfl⟩)
      cases skip with
      | succ skip => exact ih htail skip
      | zero =>
          unfold expandFrom
          by_cases hc : c = mark
          · have hread : read s = read' s := h s (mem_behindMarks.mpr ⟨[], by rw [hc]; rfl⟩)
            rw [if_pos hc, if_pos hc, hread]
            cases read' s with
            | none => simp only [ih htail]
            | some ref => simp only [ih htail]
          · rw [if_neg hc, if_neg hc, ih htail]

/-! ## What empty values leave -/

/-- A reader stays within the text, and never takes a mark. -/
structure Proper (mark : α) (read : Reader α) : Prop where
  bounded : ∀ {s k n}, read s = some (k, n) → n ≤ s.length
  unmarked : ∀ {s k n}, read s = some (k, n) → mark ∉ s.take n

/-- How much a mark takes away with its reference. -/
def taken (read : Reader α) (rest : List α) : Nat := (read rest).elim 0 fun ref => ref.2 + 1

variable {mark : α} {read read' : Reader α}

omit [DecidableEq α] in
theorem getD_nil_of_empty {vals : List (List α)} (hempty : ∀ v ∈ vals, v = []) (k : Nat) : vals.getD k [] = [] := by
  rw [List.getD_eq_getElem?_getD]
  cases hk : vals[k]? with
  | none => rfl
  | some v => exact hempty v (List.mem_of_getElem? hk)

/-- The marks that are left are those that stand for themselves. -/
theorem count_expandFrom (hread : Proper mark read) {vals : List (List α)} (hempty : ∀ v ∈ vals, v = [])
    {skip : Nat} {s : List α} (hskip : mark ∉ s.take skip) :
    (expandFrom mark read vals skip s).count mark = (behindMarks mark s).countP fun rest => (read rest).isNone := by
  induction s generalizing skip with
  | nil => cases skip <;> rfl
  | cons c s ih =>
      unfold behindMarks
      cases skip with
      | succ skip =>
          rw [List.take_succ_cons, List.mem_cons, not_or] at hskip
          rw [if_neg (Ne.symm hskip.1)]
          exact ih hskip.2
      | zero =>
          unfold expandFrom
          by_cases hc : c = mark
          · rw [if_pos hc, if_pos hc, List.countP_cons]
            cases hs : read s with
            | none =>
                simp only [hc, List.count_cons_self, Option.isNone_none, if_true]
                rw [ih (by simp)]
            | some ref =>
                obtain ⟨k, n⟩ := ref
                simp only [getD_nil_of_empty hempty, List.nil_append, Option.isNone_some, Bool.false_eq_true, if_false]
                rw [ih (hread.unmarked hs), Nat.add_zero]
          · rw [if_neg hc, if_neg hc, List.count_cons_of_ne hc, ih (by simp)]

theorem length_expandFrom (hread : Proper mark read) {vals : List (List α)} (hempty : ∀ v ∈ vals, v = [])
    {skip : Nat} {s : List α} (hskip : mark ∉ s.take skip) (hlen : skip ≤ s.length) :
    (expandFrom mark read vals skip s).length + skip + ((behindMarks mark s).map (taken read)).sum = s.length := by
  induction s generalizing skip with
  | nil =>
      rw [List.length_nil, Nat.le_zero] at hlen
      subst hlen
      rfl
  | cons c s ih =>
      unfold behindMarks
      cases skip with
      | succ skip =>
          rw [List.take_succ_cons, List.mem_cons, not_or] at hskip
          rw [if_neg (Ne.symm hskip.1)]
          have hrest := ih hskip.2 (Nat.le_of_succ_le_succ hlen)
          rw [expandFrom, List.length_cons]
          omega
      | zero =>
          unfold expandFrom
          by_cases hc : c = mark
          · rw [if_pos hc, if_pos hc, List.map_cons, List.sum_cons, taken]
            cases hs : read s with
            | none =>
                have hrest := @ih 0 (by simp) (Nat.zero_le _)
                simp only [Option.elim_none, List.length_cons]
                omega
            | some ref =>
                obtain ⟨k, n⟩ := ref
                have hrest := ih (hread.unmarked hs) (hread.bounded hs)
                simp only [getD_nil_of_empty hempty, List.nil_append, Option.elim_some, List.length_cons]
                omega
          · have hrest := @ih 0 (by simp) (Nat.zero_le _)
            rw [if_neg hc, if_neg hc, List.length_cons, List.length_cons]
            omega

/-! ## Readers that give the same texts -/

theorem eq_of_sum_eq {β : Type} {f g : β → Nat} {xs : List β} (hle : ∀ x ∈ xs, f x ≤ g x)
    (hsum : (xs.map f).sum = (xs.map g).sum) : ∀ x ∈ xs, f x = g x := by
  induction xs with
  | nil => simp
  | cons x xs ih =>
      obtain ⟨hx, hxs⟩ := List.forall_mem_cons.mp hle
      have htail : (xs.map f).sum ≤ (xs.map g).sum := List.sum_le_sum hxs
      rw [List.map_cons, List.map_cons, List.sum_cons, List.sum_cons] at hsum
      exact List.forall_mem_cons.mpr ⟨by omega, ih hxs (by omega)⟩

theorem eq_of_countP_eq {β : Type} {p q : β → Bool} {xs : List β} (himp : ∀ x ∈ xs, p x = true → q x = true)
    (hcount : xs.countP p = xs.countP q) : ∀ x ∈ xs, p x = q x := by
  induction xs with
  | nil => simp
  | cons x xs ih =>
      obtain ⟨hx, hxs⟩ := List.forall_mem_cons.mp himp
      have htail : xs.countP p ≤ xs.countP q := List.countP_mono_left hxs
      rw [List.countP_cons, List.countP_cons] at hcount
      cases hp : p x with
      | true =>
          rw [hp, hx hp] at hcount
          exact List.forall_mem_cons.mpr ⟨by rw [hp, hx hp], ih hxs (by omega)⟩
      | false =>
          cases hq : q x with
          | true =>
              rw [hp, hq, if_pos rfl, if_neg (by decide)] at hcount
              omega
          | false =>
              rw [hp, hq] at hcount
              exact List.forall_mem_cons.mpr ⟨by rw [hp, hq], ih hxs (by omega)⟩

/-- Two readers, of which the second reads no more marks than the first but at least as much behind each. When they
give the same text for empty values, they take the same amounts. -/
theorem taken_eq_of_expand_eq (hread : Proper mark read) (hread' : Proper mark read') {vals : List (List α)}
    (hempty : ∀ v ∈ vals, v = []) (hnone : ∀ s, read s = none → read' s = none)
    (hmore : ∀ s k n k' n', read s = some (k, n) → read' s = some (k', n') → n ≤ n') {s : List α}
    (h : expand mark read vals s = expand mark read' vals s) :
    ∀ rest ∈ behindMarks mark s, taken read rest = taken read' rest := by
  have hskip : mark ∉ s.take 0 := by simp
  have hcount : (behindMarks mark s).countP (fun rest => (read rest).isNone) =
      (behindMarks mark s).countP fun rest => (read' rest).isNone := by
    rw [← count_expandFrom hread hempty hskip, ← count_expandFrom hread' hempty hskip]
    exact congrArg (List.count mark) h
  have hsame : ∀ rest ∈ behindMarks mark s, (read rest).isNone = (read' rest).isNone :=
    eq_of_countP_eq (fun rest _ hn => by
      rw [Option.isNone_iff_eq_none] at hn ⊢
      exact hnone rest hn) hcount
  have hle : ∀ rest ∈ behindMarks mark s, taken read rest ≤ taken read' rest := fun rest hrest => by
    have hboth := hsame rest hrest
    unfold taken
    cases hr : read rest with
    | none => exact Nat.zero_le _
    | some ref =>
        cases hr' : read' rest with
        | none =>
            rw [hr, hr'] at hboth
            cases hboth
        | some ref' => exact Nat.succ_le_succ (hmore rest ref.1 ref.2 ref'.1 ref'.2 hr hr')
  refine eq_of_sum_eq hle ?_
  have hlen := length_expandFrom hread hempty hskip (Nat.zero_le _)
  have hlen' := length_expandFrom hread' hempty hskip (Nat.zero_le _)
  have hout : (expandFrom mark read vals 0 s).length = (expandFrom mark read' vals 0 s).length :=
    congrArg List.length h
  omega

end Template
