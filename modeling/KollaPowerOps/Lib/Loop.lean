import KollaPowerOps.Lib.Runs

/-!
# Lib.Loop

A task that is repeated for the items of a list: every item has a run of its own, and one that fails
does not keep the others from theirs.

* `LoopRuns`          : the runs of the items, one after the other.
* `LoopRuns.keeps`    : what every item keeps, the loop keeps.
* `LoopRuns.settles`  : what an item brings about and the later ones keep, holds for all of them.
* `LoopRuns.settled`  : where no item has anything to do, the loop does nothing.
-/

namespace KollaPowerOps
namespace Effect

variable {Op : Type → Type} {ε α W ι : Type}

/-- The items in their order, each with its trace and its result. -/
inductive LoopRuns (env : Env Op ε W) (body : ι → Prog Op ε α) :
    W → List ι → List (List (Event Op ε)) → List (Except ε α) → W → Prop where
  | nil {w : W} : LoopRuns env body w [] [] [] w
  | cons {w w₁ w₂ : W} {item : ι} {items : List ι} {tr : List (Event Op ε)}
      {trs : List (List (Event Op ε))} {r : Except ε α} {rs : List (Except ε α)} :
      Runs env w (body item) tr r w₁ → LoopRuns env body w₁ items trs rs w₂ →
      LoopRuns env body w (item :: items) (tr :: trs) (r :: rs) w₂

/-- No item has failed. -/
def AllReturn (rs : List (Except ε α)) : Prop := ∀ r ∈ rs, ∃ a, r = .ok a

namespace LoopRuns

variable {env : Env Op ε W} {body : ι → Prog Op ε α} {w w' : W} {items : List ι}
  {trs : List (List (Event Op ε))} {rs : List (Except ε α)}

theorem length (h : LoopRuns env body w items trs rs w') : rs.length = items.length := by
  induction h with
  | nil => rfl
  | cons _ _ ih => rw [List.length_cons, List.length_cons, ih]

/-- An assertion that every successful item keeps. -/
theorem keeps {Q : W → Prop} (h : LoopRuns env body w items trs rs w') (hall : AllReturn rs)
    (hstep : ∀ item ∈ items, ∀ u tr a u', Q u → Runs env u (body item) tr (.ok a) u' → Q u') :
    Q w → Q w' := by
  induction h with
  | nil => exact id
  | cons hrun _ ih =>
    intro hw
    obtain ⟨⟨a, rfl⟩, hrest⟩ := List.forall_mem_cons.mp hall
    obtain ⟨hfirst, hsteps⟩ := List.forall_mem_cons.mp hstep
    exact ih hrest hsteps (hfirst _ _ _ _ hw hrun)

/-- What every successful item brings about, and the others keep, in the states with `I`. -/
theorem settles {I : W → Prop} {P : ι → W → Prop} {R : ι → ι → Prop}
    (h : LoopRuns env body w items trs rs w') (hall : AllReturn rs) (hpair : items.Pairwise R)
    (hitem : ∀ item ∈ items, ∀ u tr a u', I u → Runs env u (body item) tr (.ok a) u' →
      I u' ∧ P item u')
    (hframe : ∀ item ∈ items, ∀ other ∈ items, R item other → ∀ u tr a u', I u → P item u →
      Runs env u (body other) tr (.ok a) u' → P item u')
    (hw : I w) : I w' ∧ ∀ item ∈ items, P item w' := by
  induction h with
  | nil => exact ⟨hw, List.forall_mem_nil _⟩
  | @cons w w₁ w₂ item items tr trs r rs hrun hloop ih =>
    obtain ⟨⟨a, rfl⟩, hrest⟩ := List.forall_mem_cons.mp hall
    rw [List.pairwise_cons] at hpair
    have hitems : ∀ other ∈ items, ∀ u tr a u', I u → Runs env u (body other) tr (.ok a) u' →
        I u' ∧ P other u' := fun other hother => hitem other (List.mem_cons_of_mem _ hother)
    obtain ⟨hw₁, hfirst⟩ := hitem item List.mem_cons_self _ _ _ _ hw hrun
    obtain ⟨hw₂, hothers⟩ := ih hrest hpair.2 hitems
      (fun i hi j hj => hframe i (List.mem_cons_of_mem _ hi) j (List.mem_cons_of_mem _ hj)) hw₁
    refine ⟨hw₂, List.forall_mem_cons.mpr ⟨?_, hothers⟩⟩
    -- The first item is settled before the loop over the others, and each of them keeps it so.
    refine (hloop.keeps (Q := fun u => I u ∧ P item u) hrest ?_ ⟨hw₁, hfirst⟩).2
    intro other hother u tr b u' hu hrun'
    have hkept := hframe item List.mem_cons_self other (List.mem_cons_of_mem _ hother)
      (hpair.1 other hother) u tr b u' hu.1 hu.2 hrun'
    exact ⟨(hitems other hother u tr b u' hu.1 hrun').1, hkept⟩

/-- Items that have nothing to do. -/
theorem settled {Q : Except ε α → Prop} {quiet : Event Op ε → Prop}
    (h : LoopRuns env body w items trs rs w')
    (hitem : ∀ item ∈ items, ∀ tr r w₁, Runs env w (body item) tr r w₁ →
      Q r ∧ (∀ ev ∈ tr, quiet ev) ∧ w₁ = w) :
    (∀ r ∈ rs, Q r) ∧ (∀ tr ∈ trs, ∀ ev ∈ tr, quiet ev) ∧ w' = w := by
  induction h with
  | nil => exact ⟨List.forall_mem_nil _, List.forall_mem_nil _, rfl⟩
  | cons hrun _ ih =>
    obtain ⟨hfirst, hrest⟩ := List.forall_mem_cons.mp hitem
    obtain ⟨hr, htr, rfl⟩ := hfirst _ _ _ hrun
    obtain ⟨hrs, htrs, rfl⟩ := ih hrest
    exact ⟨List.forall_mem_cons.mpr ⟨hr, hrs⟩, List.forall_mem_cons.mpr ⟨htr, htrs⟩, rfl⟩

end LoopRuns

end Effect
end KollaPowerOps
