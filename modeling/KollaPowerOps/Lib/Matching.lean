import Mathlib.Data.List.Perm.Basic
import Mathlib.Data.List.Forall2
import Mathlib.Data.List.Nodup
import Mathlib.Order.Lattice

/-!
# Lib.Matching

Two lists whose items can be paired off, in whatever order.

* `Matched R xs ys` : the items of `xs` in some order stand in the relation `R` to those of `ys`.
* `Matched.countP`  : what `R` decides on both sides is counted alike on both sides.
* `all_of_countP_eq` : a predicate that is counted like a weaker one is the weaker one.
* `sortBy`, `sortBy_eq_iff` : lists with different keys are the same sorted if they are permutations.
* `sortBy_reverse_ne` : where two items have one key, their order stays.
-/

namespace KollaPowerOps

variable {α β : Type*} {R : α → β → Prop} {xs : List α} {ys : List β}

def Matched (R : α → β → Prop) (xs : List α) (ys : List β) : Prop :=
  ∃ l, l.Perm xs ∧ List.Forall₂ R l ys

/-- Each item of `ys` is paired with the one that was made for it. -/
theorem matched_map {f : β → α} (hperm : xs.Perm (ys.map f)) (h : ∀ y ∈ ys, R (f y) y) :
    Matched R xs ys := by
  refine ⟨ys.map f, hperm.symm, ?_⟩
  rw [List.forall₂_map_left_iff, List.forall₂_same]
  exact h

namespace Matched

theorem length (h : Matched R xs ys) : xs.length = ys.length := by
  obtain ⟨l, hperm, hall⟩ := h
  rw [← hperm.length_eq, hall.length_eq]

theorem countP (h : Matched R xs ys) {p : α → Bool} {q : β → Bool}
    (hpq : ∀ x y, R x y → p x = q y) : xs.countP p = ys.countP q := by
  obtain ⟨l, hperm, hall⟩ := h
  rw [← hperm.countP_eq]
  clear hperm
  induction hall with
  | nil => rfl
  | @cons x y l ys hxy _ ih =>
    rw [List.countP_cons, List.countP_cons, ih, hpq x y hxy]

/-- Every item of `ys` has its partner. -/
theorem partner (h : Matched R xs ys) {y : β} (hy : y ∈ ys) : ∃ x ∈ xs, R x y := by
  obtain ⟨l, hperm, hall⟩ := h
  have hfound : ∃ x ∈ l, R x y := by
    clear hperm
    induction hall with
    | nil => cases hy
    | @cons x y' l ys hxy _ ih =>
      rcases List.mem_cons.mp hy with rfl | hy
      · exact ⟨x, List.mem_cons_self, hxy⟩
      · obtain ⟨x', hx', hR⟩ := ih hy
        exact ⟨x', List.mem_cons_of_mem _ hx', hR⟩
  obtain ⟨x, hx, hR⟩ := hfound
  exact ⟨x, hperm.mem_iff.mp hx, hR⟩

end Matched

theorem all_of_countP_eq {p q : α → Bool} (hpq : ∀ x ∈ xs, p x = true → q x = true)
    (h : xs.countP p = xs.countP q) : ∀ x ∈ xs, q x = true → p x = true := by
  induction xs with
  | nil => intro x hx; cases hx
  | cons x xs ih =>
    obtain ⟨hx, hxs⟩ := List.forall_mem_cons.mp hpq
    have hle : xs.countP p ≤ xs.countP q := List.countP_mono_left hxs
    rw [List.countP_cons, List.countP_cons] at h
    refine List.forall_mem_cons.mpr ⟨fun hq => ?_, ih hxs ?_⟩
    · by_contra hp
      rw [if_pos hq, if_neg hp] at h
      omega
    · by_cases hp : p x = true
      · rw [if_pos hp, if_pos (hx hp)] at h
        omega
      · rw [if_neg hp] at h
        split at h <;> omega

/-! ## Pairs in a list -/

theorem pair_sublist_of_mem {x y : α} (hx : x ∈ xs) (hy : y ∈ xs) (hne : x ≠ y) :
    List.Sublist [x, y] xs ∨ List.Sublist [y, x] xs := by
  obtain ⟨l, l', rfl⟩ := List.append_of_mem hx
  rcases List.mem_append.mp hy with hy | hy
  · have hxs : List.Sublist [x] (x :: l') := List.singleton_sublist.mpr List.mem_cons_self
    exact .inr ((List.singleton_sublist.mpr hy).append hxs)
  · have hy' : y ∈ l' := (List.mem_cons.mp hy).resolve_left hne.symm
    have hxys : List.Sublist [x, y] (x :: l') := (List.singleton_sublist.mpr hy').cons_cons x
    exact .inl ((List.nil_sublist l).append hxys)

/-- Of two items of a list without repetition one only comes before the other. -/
theorem eq_of_pair_sublists {x y : α} (hxs : xs.Nodup) (hxy : List.Sublist [x, y] xs)
    (hyx : List.Sublist [y, x] xs) : x = y := by
  induction xs with
  | nil => cases hxy
  | cons z xs ih =>
    obtain ⟨hz, hxs⟩ := List.nodup_cons.mp hxs
    rcases List.sublist_cons_iff.mp hxy with hforth | ⟨_, heq, -⟩
    · rcases List.sublist_cons_iff.mp hyx with hback | ⟨_, heq, -⟩
      · exact ih hxs hforth hback
      · obtain ⟨rfl, rfl⟩ := List.cons.inj heq
        exact absurd (hforth.subset (List.mem_cons_of_mem _ List.mem_cons_self)) hz
    · obtain ⟨rfl, rfl⟩ := List.cons.inj heq
      rcases List.sublist_cons_iff.mp hyx with hback | ⟨_, heq, -⟩
      · exact absurd (hback.subset (List.mem_cons_of_mem _ List.mem_cons_self)) hz
      · exact (List.cons.inj heq).1.symm

/-! ## Sorting by a key -/

section SortBy

variable {κ : Type*} [LinearOrder κ] (key : α → κ)

/-- `sorted(xs, key=key)` -/
def sortBy (xs : List α) : List α := xs.mergeSort fun x y => decide (key x ≤ key y)

theorem sortBy_perm (xs : List α) : (sortBy key xs).Perm xs := List.mergeSort_perm xs _

theorem key_trans (x y z : α) (hxy : decide (key x ≤ key y) = true)
    (hyz : decide (key y ≤ key z) = true) : decide (key x ≤ key z) = true := by
  rw [decide_eq_true_eq] at hxy hyz ⊢
  exact le_trans hxy hyz

theorem key_total (x y : α) : (decide (key x ≤ key y) || decide (key y ≤ key x)) = true := by
  rw [Bool.or_eq_true, decide_eq_true_eq, decide_eq_true_eq]
  exact le_total (key x) (key y)

theorem pairwise_sortBy (xs : List α) : (sortBy key xs).Pairwise fun x y => key x ≤ key y := by
  have hsorted := List.pairwise_mergeSort (key_trans key) (key_total key) xs
  exact hsorted.imp fun h => of_decide_eq_true h

/-- Items of one key, or in order, keep their places. -/
theorem pair_sublist_sortBy {x y : α} {xs : List α} (hxy : key x ≤ key y)
    (h : List.Sublist [x, y] xs) : List.Sublist [x, y] (sortBy key xs) :=
  List.pair_sublist_mergeSort (key_trans key) (key_total key) (decide_eq_true hxy) h

/-- Two items of one key come out as they went in. -/
theorem sortBy_reverse_ne {x y : α} {xs : List α} (hxs : xs.Nodup) (hx : x ∈ xs) (hy : y ∈ xs)
    (hne : x ≠ y) (hkey : key x = key y) : sortBy key xs ≠ sortBy key xs.reverse := by
  intro heq
  have hboth : ∀ {x y : α}, key x = key y → List.Sublist [x, y] xs →
      List.Sublist [x, y] (sortBy key xs) ∧ List.Sublist [y, x] (sortBy key xs) := by
    intro x y hkey hsub
    refine ⟨pair_sublist_sortBy key (le_of_eq hkey) hsub, ?_⟩
    rw [heq]
    exact pair_sublist_sortBy key (ge_of_eq hkey) (List.reverse_sublist.mpr hsub)
  have hnodup : (sortBy key xs).Nodup := (sortBy_perm key xs).nodup_iff.mpr hxs
  rcases pair_sublist_of_mem hx hy hne with hsub | hsub
  · exact hne (eq_of_pair_sublists hnodup (hboth hkey hsub).1 (hboth hkey hsub).2)
  · exact hne (eq_of_pair_sublists hnodup (hboth hkey.symm hsub).2 (hboth hkey.symm hsub).1)

variable {key}

theorem sortBy_eq_iff {xs ys : List α} (hkeys : (xs.map key).Nodup) :
    sortBy key xs = sortBy key ys ↔ xs.Perm ys := by
  constructor
  · intro h
    have hys := sortBy_perm key ys
    rw [← h] at hys
    exact (sortBy_perm key xs).symm.trans hys
  · intro h
    refine List.Perm.eq_of_pairwise (fun x y hx hy hxy hyx => ?_) (pairwise_sortBy key xs)
      (pairwise_sortBy key ys) ((sortBy_perm key xs).trans (h.trans (sortBy_perm key ys).symm))
    have hx' : x ∈ xs := (sortBy_perm key xs).mem_iff.mp hx
    have hy' : y ∈ xs := h.mem_iff.mpr ((sortBy_perm key ys).mem_iff.mp hy)
    exact List.inj_on_of_nodup_map hkeys hx' hy' (le_antisymm hxy hyx)

/-- Distinct items that are the same for membership are a permutation. -/
theorem sortBy_eq_iff_mem {xs ys : List α} (hxs : (xs.map key).Nodup) (hys : (ys.map key).Nodup) :
    sortBy key xs = sortBy key ys ↔ ∀ x, x ∈ xs ↔ x ∈ ys := by
  rw [sortBy_eq_iff hxs]
  exact List.perm_ext_iff_of_nodup (List.Nodup.of_map _ hxs) (List.Nodup.of_map _ hys)

end SortBy

end KollaPowerOps
