import KollaPowerOps.StablePoll

/-!
# Observed

An Ironic that answers the polls of one host from an infinite stream of observations of its node,
and how `StablePoll.run` ends on it: after at most as many observations as it has attempts, and
normally exactly if some beginning of the stream is clean and ends in a long enough streak
(`outcome_run`).
-/

namespace KollaPowerOps

open Effect Streak

/-- The nodes that Ironic lists, exactly one of them under the name of the host, and what the
successive observations of that node return. -/
structure Feed (host : String) where
  nodes : List Node
  node : Node
  sole : (nodes.filter fun node => node.name = some host) = [node]
  stream : Nat → Node

namespace Feed

variable {host : String} {ρ : Type}

/-- The answers of this Ironic. Its state is the number of observations so far. -/
def answer (F : Feed host) : Simulator Call Exn Nat
  | i, _, .nodes => (.ok F.nodes, i)
  | i, _, .getNode _ => (.ok (F.stream i), i + 1)
  | i, _, .setNodePowerState _ _ => (.ok (), i)
  | i, _, .sleep _ => (.ok (), i)
  | i, _, _ => (.error (.raised "unexpected call"), i)

/-- How a program ends on this Ironic, and how many observations it makes. -/
def outcome {α : Type} (F : Feed host) (p : Op α) : Except Exn α × Nat := p.outcome F.answer 0

/-- The first observations. -/
def first (F : Feed host) (i : Nat) : List Node := (List.range i).map F.stream

@[simp] theorem first_zero (F : Feed host) : F.first 0 = [] := rfl

@[simp] theorem first_length (F : Feed host) (i : Nat) : (F.first i).length = i := by
  simp [first]

@[simp] theorem first_succ (F : Feed host) (i : Nat) :
    F.first (i + 1) = F.first i ++ [F.stream i] := by
  simp [first, List.range_succ]

theorem forall_mem_first_drop {F : Feed host} {i k : Nat} {P : Node → Prop} :
    (∀ o ∈ (F.first i).drop k, P o) ↔ ∀ j, k ≤ j → j < i → P (F.stream j) := by
  have hdrop : (F.first i).drop k = (List.range' k (i - k)).map F.stream := by
    rw [first, List.range_eq_range', ← List.map_drop, List.drop_range']
    simp
  rw [hdrop, List.forall_mem_map]
  constructor
  · intro h j hk hj
    exact h j (List.mem_range'_1.mpr ⟨hk, by omega⟩)
  · intro h j hj
    obtain ⟨hk, hlt⟩ := List.mem_range'_1.mp hj
    exact h j hk (by omega)

@[simp] theorem outcome_sleepBetween (F : Feed host) (n : Nat) (interval : Int) (i : Nat) :
    (sleepBetween n interval).outcome F.answer i = (.ok (), i) := by
  unfold sleepBetween
  split <;> rfl

/-- The loop, taken up after the first `i` observations with `n` attempts left. -/
theorem outcome_run (F : Feed host) (P : StablePoll ρ) (n : Nat) :
    ∀ (node : Node) (i : Nat),
      ((P.run n node (streak P.atTarget (F.first i))).outcome F.answer i).2 ≤ i + n ∧
      ((∃ r, ((P.run n node (streak P.atTarget (F.first i))).outcome F.answer i).1 = .ok r) ↔
        ∃ j, i < j ∧ j ≤ i + n ∧ (∀ m, i ≤ m → m < j → P.Clean (F.stream m)) ∧
          P.stableObservations ≤ (streak P.atTarget (F.first j) : Int)) := by
  induction n with
  | zero =>
    intro node i
    refine ⟨by simp [StablePoll.run], ?_⟩
    constructor
    · rintro ⟨r, hr⟩
      simp [StablePoll.run] at hr
    · rintro ⟨j, hlt, hle, _⟩
      omega
  | succ n ih =>
    intro node i
    have hget : F.answer i (.getNode node) = (.ok (F.stream i), i + 1) := rfl
    have hstreak : (if (F.stream i).powerState = some P.target
        then streak P.atTarget (F.first i) + 1 else 0) = streak P.atTarget (F.first (i + 1)) := by
      simp [next, StablePoll.atTarget]
    simp only [StablePoll.run, Prog.bind_def, Prog.bind_request, Prog.outcome_call, hget, hstreak]
    -- an observation that ends the loop is one of those that have to be clean
    by_cases hclean : P.Clean (F.stream i)
    · rw [if_neg (by simp [hclean.1]), if_neg (by simp [hclean.2])]
      split
      · rename_i hk
        refine ⟨by simp, ?_⟩
        refine iff_of_true ⟨_, rfl⟩ ⟨i + 1, by omega, by omega, ?_, hk⟩
        intro m hm hlt
        obtain rfl : m = i := by omega
        exact hclean
      · rename_i hk
        rw [Prog.outcome_bind, outcome_sleepBetween]
        obtain ⟨hcount, hiff⟩ := ih (F.stream i) (i + 1)
        refine ⟨by dsimp only; omega, hiff.trans ?_⟩
        constructor
        · rintro ⟨j, hlt, hle, hall, hj⟩
          refine ⟨j, by omega, by omega, fun m hm hmj => ?_, hj⟩
          rcases Nat.lt_or_eq_of_le hm with hm | rfl
          · exact hall m hm hmj
          · exact hclean
        · rintro ⟨j, hlt, hle, hall, hj⟩
          have hne : j ≠ i + 1 := by
            rintro rfl
            exact hk hj
          exact ⟨j, by omega, by omega, fun m hm hmj => hall m (by omega) hmj, hj⟩
    · have hno : ¬ ∃ j, i < j ∧ j ≤ i + (n + 1) ∧ (∀ m, i ≤ m → m < j → P.Clean (F.stream m)) ∧
          P.stableObservations ≤ (streak P.atTarget (F.first j) : Int) := by
        rintro ⟨j, hlt, _, hall, _⟩
        exact hclean (hall i le_rfl hlt)
      by_cases herr : truthy (F.stream i).lastError = true
      · rw [if_pos herr]
        exact ⟨by simp, iff_of_false (by simp) hno⟩
      · have hconf : P.conflicting (F.stream i) = true := by
          by_contra h
          exact hclean ⟨by simpa using herr, by simpa using h⟩
        rw [if_neg herr, if_pos hconf]
        exact ⟨by simp, iff_of_false (by simp) hno⟩

/-- The whole loop: it ends normally exactly if, within the attempts, some first observations are
all clean and their last ones, as many as are asked for, all show the target. -/
theorem outcome_poll (F : Feed host) (P : StablePoll ρ) (n : Nat) (node : Node) {k : Nat}
    (hk : P.stableObservations = k) (hpos : 0 < k) :
    ((P.run n node 0).outcome F.answer 0).2 ≤ n ∧
    ((∃ r, ((P.run n node 0).outcome F.answer 0).1 = .ok r) ↔
      ∃ i ≤ n, (∀ j < i, P.Clean (F.stream j)) ∧ k ≤ i ∧
        ∀ j, i - k ≤ j → j < i → (F.stream j).powerState = some P.target) := by
  obtain ⟨hcount, hiff⟩ := F.outcome_run P n node 0
  refine ⟨by simpa using hcount, hiff.trans ?_⟩
  constructor
  · rintro ⟨j, _, hle, hall, hj⟩
    rw [hk, Int.ofNat_le, le_streak_iff, first_length, forall_mem_first_drop] at hj
    exact ⟨j, by omega, fun m hm => hall m (Nat.zero_le m) hm, hj.1,
      fun m hm hlt => by simpa [StablePoll.atTarget] using hj.2 m hm hlt⟩
  · rintro ⟨i, hle, hall, hki, hlast⟩
    refine ⟨i, by omega, by omega, fun m _ hm => hall m hm, ?_⟩
    rw [hk, Int.ofNat_le, le_streak_iff, first_length, forall_mem_first_drop]
    exact ⟨hki, fun m hm hlt => by simpa [StablePoll.atTarget] using hlast m hm hlt⟩

end Feed
end KollaPowerOps
