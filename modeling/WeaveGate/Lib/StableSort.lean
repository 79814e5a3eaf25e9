import Mathlib.Data.List.Basic

/-!
# The first match in a stably sorted list

A stable sort keeps tied elements in their order. So scanning the sorted list for the first element with a
property finds, in the unsorted list, the first of the elements with the property that sort before all others.
-/

namespace StableSort

variable {α : Type} {le : α → α → Bool}

theorem filter_mergeSort_of_tied (trans : ∀ a b c, le a b = true → le b c = true → le a c = true)
    (total : ∀ a b, (le a b || le b a) = true) (q : α → Bool) (l : List α)
    (tied : ∀ a ∈ l, ∀ b ∈ l, q a = true → q b = true → le a b = true) :
    (l.mergeSort le).filter q = l.filter q := by
  have hsorted : (l.filter q).Pairwise (fun a b => le a b = true) := by
    rw [List.pairwise_iff_forall_sublist]
    intro a b hab
    have ha : a ∈ l.filter q := hab.subset (by simp)
    have hb : b ∈ l.filter q := hab.subset (by simp)
    rw [List.mem_filter] at ha hb
    exact tied a ha.1 b hb.1 ha.2 hb.2
  have hsub : (l.filter q).Sublist ((l.mergeSort le).filter q) := by
    have h := (List.sublist_mergeSort trans total hsorted List.filter_sublist).filter q
    simpa only [List.filter_filter, Bool.and_self] using h
  have hlen : ((l.mergeSort le).filter q).length = (l.filter q).length :=
    ((List.mergeSort_perm l le).filter q).length_eq
  exact (hsub.eq_of_length hlen.symm).symm

/-- `a` has the property and sorts no later than any element that has it. -/
def IsBest (le : α → α → Bool) (p : α → Bool) (l : List α) (a : α) : Prop :=
  p a = true ∧ ∀ b ∈ l, p b = true → le a b = true

instance (p : α → Bool) (l : List α) (a : α) : Decidable (IsBest le p l a) :=
  inferInstanceAs (Decidable (_ ∧ _))

/-- The first match after sorting is the first of the best matches before sorting. -/
theorem find?_mergeSort (trans : ∀ a b c, le a b = true → le b c = true → le a c = true)
    (total : ∀ a b, (le a b || le b a) = true) (p : α → Bool) (l : List α) :
    (l.mergeSort le).find? p = l.find? (fun a => decide (IsBest le p l a)) := by
  have htied : ∀ a ∈ l, ∀ b ∈ l, decide (IsBest le p l a) = true → decide (IsBest le p l b) = true →
      le a b = true := by
    intro a _ b hb ha' hb'
    exact (of_decide_eq_true ha').2 b hb (of_decide_eq_true hb').1
  have hfilter := filter_mergeSort_of_tied trans total (fun a => decide (IsBest le p l a)) l htied
  rw [← List.head?_filter (p := fun a => decide (IsBest le p l a)), ← hfilter, List.head?_filter]
  cases h : (l.mergeSort le).find? p with
  | none =>
      symm
      rw [List.find?_eq_none] at h ⊢
      intro a ha hbest
      exact h a ha (of_decide_eq_true hbest).1
  | some a =>
      obtain ⟨hpa, pre, post, hs, hpre⟩ := List.find?_eq_some_iff_append.mp h
      have hpw : (pre ++ a :: post).Pairwise (fun x y => le x y = true) := by
        rw [← hs]; exact List.pairwise_mergeSort trans total l
      have hbest : IsBest le p l a := by
        refine ⟨hpa, fun b hb hpb => ?_⟩
        have hb' : b ∈ pre ++ a :: post := by
          rw [← hs]; exact List.mem_mergeSort.mpr hb
        rcases List.mem_append.mp hb' with hb' | hb'
        · have := hpre b hb'
          simp [hpb] at this
        · rcases List.mem_cons.mp hb' with rfl | hb'
          · simpa using total b b
          · exact List.rel_of_pairwise_cons (List.pairwise_append.mp hpw).2.1 hb'
      symm
      rw [List.find?_eq_some_iff_append]
      refine ⟨decide_eq_true hbest, pre, post, hs, fun b hb => ?_⟩
      have := hpre b hb
      simp only [Bool.not_eq_true'] at this ⊢
      exact decide_eq_false fun hbb => by simp [hbb.1] at this

/-! ## Searching a sorted list -/

/-- What a search of a sorted list comes upon first precedes all other elements that it would stop at. -/
theorem findSome?_of_pairwise {β : Type} {r : α → α → Prop} (refl : ∀ a, r a a) {l : List α} (h : l.Pairwise r)
    {f : α → Option β} {b : β} (hb : l.findSome? f = some b) :
    ∃ a ∈ l, f a = some b ∧ ∀ x ∈ l, (f x).isSome = true → r a x := by
  obtain ⟨pre, a, post, rfl, ha, hpre⟩ := List.findSome?_eq_some_iff.mp hb
  refine ⟨a, by simp, ha, fun x hx hfx => ?_⟩
  rcases List.mem_append.mp hx with hx | hx
  · rw [hpre x hx] at hfx
    cases hfx
  · rcases List.mem_cons.mp hx with rfl | hx
    · exact refl x
    · exact List.rel_of_pairwise_cons (List.pairwise_append.mp h).2.1 hx

end StableSort
