import Mathlib.Data.Int.CardIntervalMod
import Mathlib.Order.Interval.Finset.Nat

/-!
# Round robin

Picks among `n` places by the remainder of a counter. They are fair as long as the counter does not start over at
a value that `n` does not divide.
-/

namespace RoundRobin

/-- Any `n` picks in a row name every place once, and no place is ahead of another by more than one. -/
structure Fair (n : Nat) (picks : List Nat) : Prop where
  window : ∀ i, i + n ≤ picks.length → ((picks.drop i).take n).Perm (List.range n)
  counts : ∀ s < n, ∀ t < n, picks.count s ≤ picks.count t + 1

/-- The first `m` picks by a counter that starts over at `wrap`. -/
def picks (n wrap m : Nat) : List Nat := (List.range m).map fun i => i % wrap % n

@[simp] theorem length_picks (n wrap m : Nat) : (picks n wrap m).length = m := by
  simp [picks]

variable {n wrap m : Nat}

/-! ## Without a jump -/

theorem picks_eq_mod (h : m ≤ wrap ∨ n ∣ wrap) : picks n wrap m = (List.range m).map (· % n) := by
  refine List.map_congr_left fun i hi => ?_
  rcases h with h | h
  · rw [Nat.mod_eq_of_lt ((List.mem_range.mp hi).trans_le h)]
  · exact Nat.mod_mod_of_dvd i h

theorem range'_mod_perm (i n : Nat) : ((List.range' i n).map (· % n)).Perm (List.range n) := by
  have h := Nat.multiset_Ico_map_mod i n
  have hico : Multiset.Ico i (i + n) = ↑(List.range' i n) := by
    rw [Multiset.Ico, Nat.Ico_eq_range', Nat.add_sub_cancel_left]
  rw [hico] at h
  exact Multiset.coe_eq_coe.mp h

theorem count_mod {t : Nat} (ht : t < n) :
    ((List.range m).map (· % n)).count t = m / n + if t < m % n then 1 else 0 := by
  have h := Nat.count_modEq_card m (Nat.zero_lt_of_lt ht) t
  rw [Nat.mod_eq_of_lt ht] at h
  rw [← h, Nat.count, List.count_eq_countP, List.countP_map]
  exact List.countP_congr fun i _ => by simp [Nat.ModEq, Nat.mod_eq_of_lt ht]

theorem fair_mod (n m : Nat) : Fair n ((List.range m).map (· % n)) where
  window := fun i hi => by
    rw [List.length_map, List.length_range] at hi
    have hwindow : (((List.range m).map (· % n)).drop i).take n = (List.range' i n).map (· % n) :=
      List.ext_getElem (by simp; omega) (by simp)
    rw [hwindow]
    exact range'_mod_perm i n
  counts := fun s hs t ht => by
    rw [count_mod hs, count_mod ht]
    split <;> split <;> omega

/-! ## Over a jump -/

/-- Two picks in one window differ. -/
theorem Fair.ne_of_window {picks : List Nat} (h : Fair n picks) {s i j : Nat} (hi : s ≤ i) (hij : i < j) (hj : j < s + n)
    (hs : s + n ≤ picks.length) : picks[i]? ≠ picks[j]? := by
  have hnodup : ((picks.drop s).take n).Nodup := (h.window s hs).nodup_iff.mpr List.nodup_range
  have hlen : ((picks.drop s).take n).length = n := by
    simp
    omega
  have hne := List.pairwise_iff_getElem.mp hnodup (i - s) (j - s) (by omega) (by omega) (by omega)
  simp only [List.getElem_take, List.getElem_drop, Nat.add_sub_cancel' hi, Nat.add_sub_cancel' (hi.trans hij.le)] at hne
  rw [List.getElem?_eq_getElem (by omega), List.getElem?_eq_getElem (by omega)]
  exact fun heq => hne (Option.some.inj heq)

theorem getElem?_picks {i : Nat} (h : i < m) : (picks n wrap m)[i]? = some (i % wrap % n) := by
  simp [picks, h]

/-- Fewer than `n` picks before the jump, the pick of place 0 comes again. -/
theorem not_fair_of_lt (hm : wrap < m) (h0 : 0 < n) (hn : n < wrap) (hdvd : ¬ n ∣ wrap) :
    ¬ Fair n (picks n wrap m) := by
  intro h
  have hr : 0 < wrap % n := Nat.pos_of_ne_zero fun h0 => hdvd (Nat.dvd_of_mod_eq_zero h0)
  have hlt : wrap % n < n := Nat.mod_lt _ h0
  have hle : wrap % n ≤ wrap := Nat.mod_le _ _
  have hdiv : (wrap - wrap % n) % n = 0 := Nat.sub_mod_eq_zero_of_mod_eq (Nat.mod_mod _ _).symm
  have hbefore : (wrap - wrap % n) % wrap = wrap - wrap % n := Nat.mod_eq_of_lt (by omega)
  -- The window that ends with the first pick after the jump.
  refine h.ne_of_window (s := wrap - n + 1) (i := wrap - wrap % n) (j := wrap) (by omega) (by omega) (by omega)
    (by rw [length_picks]; omega) ?_
  rw [getElem?_picks (by omega), getElem?_picks hm, Nat.mod_self, Nat.zero_mod, hbefore, hdiv]

/-- With more places than values before the jump, some place is never picked. -/
theorem not_fair_of_gt (hw : 0 < wrap) (hm : wrap < m) (hn : wrap < n) : ¬ Fair n (picks n wrap m) := by
  intro h
  have hcount := h.counts 0 (by omega) wrap hn
  have hnever : (picks n wrap m).count wrap = 0 := by
    refine List.count_eq_zero_of_not_mem fun hmem => ?_
    obtain ⟨i, _, hi⟩ := List.mem_map.mp hmem
    have hlt := Nat.mod_lt i hw
    rw [Nat.mod_eq_of_lt (hlt.trans hn)] at hi
    omega
  have htwice : 2 ≤ (picks n wrap m).count 0 := by
    have hsub : ((List.range (wrap + 1)).map fun i => i % wrap % n).Sublist (picks n wrap m) :=
      (List.range_sublist.mpr hm).map _
    refine le_trans ?_ (hsub.count_le 0)
    obtain ⟨k, rfl⟩ := Nat.exists_eq_succ_of_ne_zero hw.ne'
    rw [List.range_succ, List.range_succ_eq_map]
    simp
  omega

theorem fair_picks_iff (hn : 0 < n) (hw : 0 < wrap) : Fair n (picks n wrap m) ↔ m ≤ wrap ∨ n ∣ wrap := by
  constructor
  · intro h
    by_contra hcond
    rw [not_or, Nat.not_le] at hcond
    obtain ⟨hm, hdvd⟩ := hcond
    rcases Nat.lt_trichotomy n wrap with hlt | rfl | hgt
    · exact not_fair_of_lt hm hn hlt hdvd h
    · exact hdvd (Nat.dvd_refl _)
    · exact not_fair_of_gt hw hm hgt h
  · intro hcond
    rw [picks_eq_mod hcond]
    exact fair_mod n m

end RoundRobin
