import Mathlib.Data.List.Chain
import Mathlib.Data.List.Nodup
import Mathlib.Data.List.Range
import Mathlib.Data.Multiset.Bind
import Mathlib.Order.Basic

/-!
# Lib.Spacing

Points on a cycle, as a list of natural numbers in any order, with repetitions.

* `Spaced`        : neighbours on the cycle, the last and the first among them, are at least some
  distance and less than twice that distance apart.
* `block`         : an arithmetic progression. Progressions one after the other, and a single one
  around the cycle, are spaced (`spaced_blocks`, `spaced_block_iff`).
* `strides_perm`  : numbers dealt out to several hands in turn.
-/

namespace KollaPowerOps
namespace Spacing

/-- The points in order, and the first of the next turn. -/
def turn (p : Nat) (points : List Nat) : List Nat :=
  points.mergeSort ++ (points.mergeSort.head?.map (· + p)).toList

/-- At least `t` and less than `2 * t` further on. -/
def Apart (t x y : Nat) : Prop := x + t ≤ y ∧ y < x + 2 * t

def Spaced (p t : Nat) (points : List Nat) : Prop := (turn p points).IsChain (Apart t)

theorem mergeSort_sorted (l : List Nat) : l.mergeSort.Pairwise (· ≤ ·) := by
  have h : (l.mergeSort fun a b => decide (a ≤ b)).Pairwise fun a b => decide (a ≤ b) = true := by
    refine List.pairwise_mergeSort (fun a b c => ?_) (fun a b => ?_) l
    · simp only [decide_eq_true_eq]
      omega
    · simp only [Bool.or_eq_true, decide_eq_true_eq]
      omega
  exact h.imp of_decide_eq_true

/-- The order of the points does not matter. -/
theorem mergeSort_eq {l l' : List Nat} (h : l.Perm l') (hsorted : l'.Pairwise (· ≤ ·)) :
    l.mergeSort = l' :=
  ((List.mergeSort_perm l _).trans h).eq_of_pairwise (fun _ _ _ _ => le_antisymm)
    (mergeSort_sorted l) hsorted

theorem spaced_perm {p t : Nat} {l l' : List Nat} (h : l.Perm l') : Spaced p t l ↔ Spaced p t l' := by
  have hsame : l.mergeSort = l'.mergeSort :=
    mergeSort_eq (h.trans (List.mergeSort_perm l' _).symm) (mergeSort_sorted l')
  rw [Spaced, Spaced, turn, turn, hsame]

theorem chain_sorted {t : Nat} {l : List Nat} (h : l.IsChain (Apart t)) : l.Pairwise (· ≤ ·) := by
  have hle : l.IsChain (· ≤ ·) := h.imp fun _ _ hxy => by have := hxy.1; omega
  exact hle.pairwise

/-- Spacing of a list that is in order, from its first point on. -/
theorem spaced_iff_chain {p t x : Nat} {l : List Nat} (hx : l.head? = some x)
    (hsorted : l.Pairwise (· ≤ ·)) : Spaced p t l ↔ (l ++ [x + p]).IsChain (Apart t) := by
  rw [Spaced, turn, mergeSort_eq (List.Perm.refl l) hsorted, hx]
  rfl

/-- Any two points are at least the distance apart. -/
theorem Spaced.apart {p t : Nat} {l : List Nat} (h : Spaced p t l) :
    l.Pairwise fun x y => x + t ≤ y ∨ y + t ≤ x := by
  have hchain : l.mergeSort.IsChain fun x y => x + t ≤ y :=
    (List.IsChain.left_of_append h).imp fun _ _ hxy => hxy.1
  have htrans : Trans (fun x y : Nat => x + t ≤ y) (fun x y => x + t ≤ y) (fun x y => x + t ≤ y) :=
    ⟨fun hxy hyz => by omega⟩
  have hpair : l.mergeSort.Pairwise fun x y => x + t ≤ y ∨ y + t ≤ x :=
    hchain.pairwise.imp fun hxy => .inl hxy
  exact ((List.mergeSort_perm l _).pairwise_iff fun hxy => hxy.symm).mp hpair

/-! ## Progressions -/

/-- `k` points from `b` on, `s` apart. -/
def block (k s b : Nat) : List Nat := (List.range k).map fun i => b + i * s

theorem block_head {k s b : Nat} (hk : 0 < k) : (block k s b).head? = some b := by
  obtain ⟨k, rfl⟩ := Nat.exists_eq_succ_of_ne_zero (by omega : k ≠ 0)
  simp [block, List.range_succ_eq_map]

theorem block_last {k s b : Nat} (hk : 0 < k) :
    (block k s b).getLast? = some (b + (k - 1) * s) := by
  obtain ⟨k, rfl⟩ := Nat.exists_eq_succ_of_ne_zero (by omega : k ≠ 0)
  simp [block, List.range_succ]

theorem block_chain {k s b t : Nat} :
    (block k s b).IsChain (Apart t) ↔ (2 ≤ k → t ≤ s ∧ s < 2 * t) := by
  have hstep : ∀ i, Apart t (b + i * s) (b + (i + 1) * s) ↔ t ≤ s ∧ s < 2 * t := by
    intro i
    rw [Apart, Nat.add_mul, Nat.one_mul]
    omega
  rw [block, List.isChain_map, List.isChain_range]
  constructor
  · intro h hk
    exact (hstep 0).mp (h 0 (by omega))
  · intro h i hi
    exact (hstep i).mpr (h (by omega))

theorem block_sorted (k s b : Nat) : (block k s b).Pairwise (· ≤ ·) := by
  rw [block, List.pairwise_map]
  refine List.pairwise_lt_range.imp fun hij => ?_
  exact Nat.add_le_add_left (Nat.mul_le_mul_right s (Nat.le_of_lt hij)) b

/-- One progression around the cycle. -/
theorem spaced_block_iff {p t k s : Nat} (hk : 0 < k) :
    Spaced p t (block k s 0) ↔
      (2 ≤ k → t ≤ s ∧ s < 2 * t) ∧ (k - 1) * s + t ≤ p ∧ p < (k - 1) * s + 2 * t := by
  rw [spaced_iff_chain (block_head hk) (block_sorted k s 0), List.isChain_append, block_chain,
    block_last hk]
  simp [Apart]

/-- Progressions one after the other, each in a part of length `c` of the cycle. -/
theorem blocks_chain {t k s c : Nat} (hk : 0 < k) (hs : 2 ≤ k → t ≤ s ∧ s < 2 * t)
    (hc : (k - 1) * s + t ≤ c ∧ c < (k - 1) * s + 2 * t) (q : Nat) :
    ∀ b, ((List.range' b q).flatMap (fun i => block k s (i * c)) ++ [(b + q) * c]).IsChain (Apart t) ∧
      ((List.range' b q).flatMap (fun i => block k s (i * c)) ++ [(b + q) * c]).head? =
        some (b * c) := by
  induction q with
  | zero => intro b; simp
  | succ q ih =>
    intro b
    obtain ⟨hrest, hhead⟩ := ih (b + 1)
    have hend : b + 1 + q = b + (q + 1) := by omega
    rw [hend] at hrest hhead
    rw [List.range'_succ, List.flatMap_cons, List.append_assoc]
    constructor
    · refine List.IsChain.append (block_chain.mpr hs) hrest ?_
      rw [block_last hk, hhead]
      intro x hx y hy
      cases hx
      cases hy
      rw [Apart, Nat.add_mul, Nat.one_mul]
      omega
    · rw [List.head?_append, block_head hk]
      rfl

theorem spaced_blocks {t k s c q : Nat} (hk : 0 < k) (hs : 2 ≤ k → t ≤ s ∧ s < 2 * t)
    (hc : (k - 1) * s + t ≤ c ∧ c < (k - 1) * s + 2 * t) (hq : 0 < q) :
    Spaced (q * c) t ((List.range q).flatMap fun i => block k s (i * c)) := by
  obtain ⟨hchain, hhead⟩ := blocks_chain hk hs hc q 0
  rw [← List.range_eq_range'] at hchain hhead
  have hhead' : ((List.range q).flatMap fun i => block k s (i * c)).head? = some 0 := by
    obtain ⟨q, rfl⟩ := Nat.exists_eq_succ_of_ne_zero (by omega : q ≠ 0)
    rw [List.range_succ_eq_map, List.flatMap_cons, List.head?_append, block_head hk]
    simp
  rw [spaced_iff_chain hhead' (chain_sorted hchain.left_of_append), Nat.zero_add]
  rwa [Nat.zero_add] at hchain

/-! ## Dealing out -/

/-- How many of the numbers below `m` are dealt to hand `i` of `n`. -/
def share (m n i : Nat) : Nat := (m - i + n - 1) / n

theorem share_spec {m n i : Nat} (hn : 0 < n) : ∀ j, j < share m n i ↔ i + n * j < m := by
  intro j
  rw [share, Nat.lt_div_iff_mul_lt hn, Nat.mul_comm]
  omega

/-- The numbers below `m`, dealt out to `n` hands in turn. -/
theorem strides_perm {m n : Nat} (hn : 0 < n) :
    ((List.range n).flatMap fun i => List.range' i (share m n i) n).Perm (List.range m) := by
  have hmem : ∀ i a, a ∈ List.range' i (share m n i) n → a % n = i % n ∧ a < m := by
    intro i a ha
    obtain ⟨j, hj, rfl⟩ := List.mem_range'.mp ha
    exact ⟨Nat.add_mul_mod_self_left i n j, (share_spec hn j).mp hj⟩
  rw [List.perm_ext_iff_of_nodup _ List.nodup_range]
  · intro a
    rw [List.mem_flatMap, List.mem_range]
    constructor
    · rintro ⟨i, _, ha⟩
      exact (hmem i a ha).2
    · intro ha
      have hdiv : a % n + n * (a / n) = a := Nat.mod_add_div a n
      refine ⟨a % n, List.mem_range.mpr (Nat.mod_lt a hn), List.mem_range'.mpr ⟨a / n, ?_, hdiv.symm⟩⟩
      rw [share_spec hn, hdiv]
      exact ha
  · rw [List.nodup_flatMap]
    refine ⟨fun i _ => List.nodup_range' n hn, ?_⟩
    refine List.nodup_range.imp_of_mem fun {i j} hi hj hij => ?_
    intro a hai haj
    have hsame := (hmem i a hai).1.symm.trans (hmem j a haj).1
    rw [Nat.mod_eq_of_lt (List.mem_range.mp hi), Nat.mod_eq_of_lt (List.mem_range.mp hj)] at hsame
    exact hij hsame

/-- Two nested loops can be exchanged. -/
theorem loops_perm {α β γ : Type} (f : α → β → γ) (l : List α) (l' : List β) :
    (l.flatMap fun a => l'.map fun b => f a b).Perm (l'.flatMap fun b => l.map fun a => f a b) := by
  have h := Multiset.bind_map_comm (l : Multiset α) (l' : Multiset β) (f := f)
  simp only [Multiset.map_coe, Multiset.coe_bind] at h
  exact Multiset.coe_eq_coe.mp h

end Spacing
end KollaPowerOps
