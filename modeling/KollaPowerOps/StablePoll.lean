import KollaPowerOps.Lib.Streak
import KollaPowerOps.OpenStack

/-!
# StablePoll

Polling a node for a stable power state. The fence driver and the power actions share this loop:
an error of the BMC or a conflicting target ends it, and it returns after as many successive
observations of the target as it is asked for.

* `pollBound` : how many attempts fit into a timeout.
* `StablePoll.run` : the loop.
* `StablePoll.evidence` : what a normal return proves about the observations.
-/

namespace KollaPowerOps

open Effect Streak

/-- `⌈timeout / interval⌉ + 1` -/
def pollBound (timeout interval : Int) : Nat := (-((-timeout) / interval)).toNat + 1

theorem pollBound_pos (timeout interval : Int) : 0 < pollBound timeout interval :=
  Nat.succ_pos _

/-- The pauses between that many attempts last at least the timeout, and less than one pause
more. -/
theorem pollBound_covers {timeout interval : Int} (ht : 0 < timeout) (hi : 0 < interval) :
    timeout ≤ ((pollBound timeout interval - 1 : Nat) : Int) * interval ∧
      ((pollBound timeout interval - 1 : Nat) : Int) * interval < timeout + interval := by
  have hdiv := Int.mul_ediv_add_emod (-timeout) interval
  have hmod := Int.emod_nonneg (-timeout) hi.ne'
  have hlt := Int.emod_lt_of_pos (-timeout) hi
  have hneg : (-timeout) / interval < 0 := Int.ediv_neg_of_neg_of_pos (by omega) hi
  have hcast : ((pollBound timeout interval - 1 : Nat) : Int) = -((-timeout) / interval) := by
    unfold pollBound
    omega
  have hmul : -((-timeout) / interval) * interval = -(interval * ((-timeout) / interval)) := by
    rw [Int.neg_mul, Int.mul_comm]
  rw [hcast, hmul]
  omega

/-- What the two loops do differently: what they count, when they give up, and what they return. -/
structure StablePoll (ρ : Type) where
  target : String
  interval : Int
  stableObservations : Int
  conflicting : Node → Bool
  bmcError : Exn
  conflict : Exn
  timeout : Exn
  result : Node → Nat → ρ

/-- What the successive `get_node` calls of a trace returned. -/
def observations (tr : Trace) : List Node :=
  tr.filterMap fun
    | ⟨.getNode _, .ok node⟩ => some node
    | _ => none

@[simp] theorem observations_nil : observations [] = [] := rfl

@[simp] theorem observations_append (tr₁ tr₂ : Trace) :
    observations (tr₁ ++ tr₂) = observations tr₁ ++ observations tr₂ := by
  simp [observations]

@[simp] theorem observations_getNode (node node' : Node) (tr : Trace) :
    observations (⟨.getNode node, .ok node'⟩ :: tr) = node' :: observations tr := rfl

def isObservation {τ : Type} : Call τ → Bool
  | .getNode _ => true
  | _ => false

theorem observations_of_uses {α : Type} {p q : Op α} {tr : Trace}
    (hp : p.Uses fun op => isObservation op = false) (h : Steps p tr q) :
    observations tr = [] := by
  have hops := (h.within hp).2
  rw [observations, List.filterMap_eq_nil_iff]
  rintro ⟨op, r⟩ hev
  have hop := hops _ hev
  cases op <;> first | rfl | cases hop

namespace StablePoll

variable {ρ : Type}

/-- The loop, with the number of attempts left and the stable observations so far. -/
def run (P : StablePoll ρ) : Nat → Node → Nat → Op ρ
  | 0, _, _ => raise P.timeout
  | n + 1, node, stable => do
    let node ← Connection.getNode node
    if truthy node.lastError then
      raise P.bmcError
    else if P.conflicting node then
      raise P.conflict
    else
      let stable := if node.powerState = some P.target then stable + 1 else 0
      if P.stableObservations ≤ (stable : Int) then
        pure (P.result node stable)
      else do
        sleepBetween n P.interval
        P.run n node stable

def atTarget (P : StablePoll ρ) (node : Node) : Bool := node.powerState = some P.target

/-- An observation that does not end the loop. -/
def Clean (P : StablePoll ρ) (node : Node) : Prop :=
  truthy node.lastError = false ∧ P.conflicting node = false

/-- The loop observes nodes and sleeps, and makes no other call. -/
theorem run_uses (P : StablePoll ρ) {Q : ∀ {τ : Type}, Call τ → Prop}
    (hget : ∀ node, Q (.getNode node)) (hsleep : Q (.sleep P.interval)) (n : Nat) :
    ∀ (node : Node) (stable : Nat), (P.run n node stable).Uses Q := by
  induction n with
  | zero => intro node stable; trivial
  | succ n ih =>
    intro node stable
    refine ⟨hget node, fun node' => ?_⟩
    simp only [Prog.bind]
    split
    · trivial
    split
    · trivial
    generalize (if node'.powerState = some P.target then stable + 1 else 0) = stable'
    split
    · trivial
    · exact Prog.Uses.bind (sleepBetween_uses hsleep) fun _ => ih _ _

/-- A normal return of the loop: every observation it made was clean, and its streak, taken on from
the one it started with, has reached the number of stable observations. -/
theorem run_returns (P : StablePoll ρ) (n : Nat) :
    ∀ (node : Node) (seen : List Node) (tr : Trace) (r : ρ),
      Returns (P.run n node (streak P.atTarget seen)) tr r →
      (∀ o ∈ observations tr, P.Clean o) ∧
        P.stableObservations ≤ (streak P.atTarget (seen ++ observations tr) : Int) := by
  induction n with
  | zero => intro node seen tr r h; simp [run] at h
  | succ n ih =>
    intro node seen tr r h
    simp only [run, Prog.bind_def, Prog.bind_request, returns_call] at h
    obtain ⟨node', tr', rfl, h⟩ := h
    split at h
    · simp at h
    rename_i herr
    split at h
    · simp at h
    rename_i hconf
    have hclean : P.Clean node' := ⟨by simpa using herr, by simpa using hconf⟩
    have hstreak : (if node'.powerState = some P.target then streak P.atTarget seen + 1 else 0) =
        streak P.atTarget (seen ++ [node']) := by
      simp [next, atTarget]
    rw [hstreak] at h
    split at h
    · -- the streak is long enough: this was the last observation
      rename_i hk
      simp only [Prog.pure_def, returns_ok] at h
      obtain ⟨rfl, rfl⟩ := h
      exact ⟨by simpa using hclean, by simpa using hk⟩
    · simp only [returns_bind] at h
      obtain ⟨u, tr₁, tr₂, rfl, hsleep, hrest⟩ := h
      have hobs : observations tr₁ = [] := by
        rcases returns_sleepBetween hsleep with rfl | rfl <;> rfl
      obtain ⟨hall, hge⟩ := ih node' (seen ++ [node']) tr₂ r hrest
      simp only [observations_getNode, observations_append, hobs, List.nil_append]
      exact ⟨List.forall_mem_cons.mpr ⟨hclean, hall⟩, by simpa using hge⟩

/-- When the loop returns, its last observations, as many as were asked for, all show the target,
and all its observations were clean. -/
theorem evidence (P : StablePoll ρ) {n : Nat} {node : Node} {tr : Trace} {r : ρ}
    (h : Returns (P.run n node 0) tr r) :
    P.stableObservations.toNat ≤ (observations tr).length ∧
      (∀ o ∈ (observations tr).drop ((observations tr).length - P.stableObservations.toNat),
        o.powerState = some P.target) ∧
      ∀ o ∈ observations tr, P.Clean o := by
  obtain ⟨hclean, hstable⟩ := P.run_returns n node [] tr r h
  rw [List.nil_append] at hstable
  have hle : P.stableObservations.toNat ≤ streak P.atTarget (observations tr) := by omega
  obtain ⟨hlen, hlast⟩ := last_of_le_streak hle
  exact ⟨hlen, fun o ho => by simpa [atTarget] using hlast o ho, hclean⟩

end StablePoll
end KollaPowerOps
