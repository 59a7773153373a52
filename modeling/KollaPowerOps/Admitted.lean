import KollaPowerOps.Actions.Options
import KollaPowerOps.Actions.Power
import KollaPowerOps.Fence.Task

/-!
# Admitted

Which of the configurations that the declared options admit can succeed at all. On a node that
shows the target in every observation, `wait_power` and `IronicFenceTask.execute` succeed exactly
if `⌈power_timeout / poll_interval⌉ + 1` attempts are as many as the observations asked for
(`succeeds_iff`). The minima of the options do not say so: two attempts are the least they leave.
-/

namespace KollaPowerOps

open Effect

/-- At the target, without a pending target and without an error. -/
def Steady (target : String) (node : Node) : Prop :=
  node.powerState = some target ∧ truthy node.targetPowerState = false ∧
    truthy node.lastError = false

/-- Steady in the listing of the nodes and in every observation. -/
structure Feed.Steady {host : String} (F : Feed host) (target : String) : Prop where
  node : KollaPowerOps.Steady target F.node
  stream : ∀ i, KollaPowerOps.Steady target (F.stream i)

/-- A node of this name at the target. -/
def steadyNode (host target : String) : Node :=
  { id := "node-1", name := host, powerState := target }

def steadyFeed (host target : String) : Feed host where
  nodes := [steadyNode host target]
  node := steadyNode host target
  sole := by simp [steadyNode]
  stream := fun _ => steadyNode host target

theorem steadyFeed_steady (host target : String) : (steadyFeed host target).Steady target :=
  ⟨⟨rfl, rfl, rfl⟩, fun _ => ⟨rfl, rfl, rfl⟩⟩

/-- On a steady stream the loop needs as many attempts as observations are asked for. -/
theorem Feed.Steady.poll {host : String} {ρ : Type} {F : Feed host} {P : StablePoll ρ}
    (hF : F.Steady P.target) (hconf : ∀ i, P.conflicting (F.stream i) = false) {k : Nat}
    (hk : P.stableObservations = k) (hpos : 0 < k) (n : Nat) (node : Node) :
    (∃ r, ((P.run n node 0).outcome F.answer 0).1 = .ok r) ↔ k ≤ n := by
  rw [(F.outcome_poll P n node hk hpos).2]
  constructor
  · rintro ⟨i, hin, _, hki, _⟩
    exact hki.trans hin
  · intro hkn
    exact ⟨n, le_rfl, fun j _ => ⟨(hF.stream j).2.2, hconf j⟩, hkn, fun j _ _ => (hF.stream j).1⟩

namespace Actions

/-- With this configuration the wait succeeds on every steady stream. -/
def Options.Succeeds (o : Options) : Prop :=
  ∀ (host target : String) (F : Feed host), F.Steady target →
    ∃ r, (F.outcome (waitPower host target o.powerTimeout o.pollInterval o.stableObservations)).1 =
      .ok r

theorem Options.succeeds_iff (o : Options) :
    o.Succeeds ↔ o.stableObservations ≤ pollBound o.powerTimeout o.pollInterval := by
  have hk := o.stableObservations_min
  have htimeout := o.powerTimeout_min
  have hinterval := o.pollInterval_min
  have hcast : o.stableObservations = (o.stableObservations.toNat : Int) := by omega
  have hrun : ∀ (host target : String) (F : Feed host), F.Steady target →
      ((∃ r, (F.outcome (waitPower host target o.powerTimeout o.pollInterval
        o.stableObservations)).1 = .ok r) ↔
          o.stableObservations.toNat ≤ pollBound o.powerTimeout o.pollInterval) := by
    intro host target F hF
    rw [outcome_waitPower F target (by omega) (by omega) hk]
    refine Feed.Steady.poll hF (fun i => ?_) hcast (by omega) _ _
    exact conflictsWith_eq_false_iff.mpr fun h => h.2 (hF.stream i).1
  constructor
  · intro h
    have hle := (hrun _ _ _ (steadyFeed_steady "compute-01" "power off")).mp
      (h _ _ _ (steadyFeed_steady "compute-01" "power off"))
    omega
  · intro hle host target F hF
    exact (hrun host target F hF).mpr (by omega)

end Actions

namespace Fence

variable {host : String}

@[simp] theorem outcome_exactNode (F : Feed host) (i : Nat) :
    (exactNode host).outcome F.answer i = (.ok F.node, i) := by
  have hnodes : F.answer i .nodes = (.ok F.nodes, i) := rfl
  simp only [exactNode, Prog.bind_def, Prog.bind_request, Prog.outcome_call, hnodes, F.sole]
  rfl

/-- On a node that is off already the task is its polling loop. -/
theorem outcome_execute {F : Feed host} (hF : F.node.powerState = some "power off")
    (o : Options) :
    F.outcome (execute o host) = F.outcome (poll o host (attempts o) F.node 0) := by
  have hconf : ¬ conflictingTarget F.node = true := by simp [conflictingTarget, hF]
  have hoff : requestOff F.node = pure () := by simp [requestOff, hF]
  simp only [Feed.outcome, execute, Prog.bind_def, Prog.outcome_bind, outcome_exactNode,
    if_neg hconf, hoff]
  rfl

theorem attempts_eq (o : Options) : attempts o = pollBound o.powerTimeout o.pollInterval :=
  Nat.max_eq_right (pollBound_pos _ _)

/-- With this configuration the task succeeds on every node that is steadily off. -/
def Options.Succeeds (o : Options) : Prop :=
  ∀ (host : String) (F : Feed host), F.Steady "power off" →
    ∃ r, (F.outcome (execute o host)).1 = .ok r

theorem Options.succeeds_iff (o : Options) :
    o.Succeeds ↔ o.stableOffObservations ≤ pollBound o.powerTimeout o.pollInterval := by
  have hk := o.stableOffObservations_min
  have hcast : o.stableOffObservations = (o.stableOffObservations.toNat : Int) := by omega
  have hrun : ∀ (host : String) (F : Feed host), F.Steady "power off" →
      ((∃ r, (F.outcome (execute o host)).1 = .ok r) ↔
        o.stableOffObservations.toNat ≤ pollBound o.powerTimeout o.pollInterval) := by
    intro host F hF
    rw [outcome_execute hF.node.1, attempts_eq]
    refine Feed.Steady.poll hF (fun i => ?_) hcast (by omega) _ _
    simp [conflictingTarget, (hF.stream i).1]
  constructor
  · intro h
    have hle := (hrun _ _ (steadyFeed_steady "compute-01" "power off")).mp
      (h _ _ (steadyFeed_steady "compute-01" "power off"))
    omega
  · intro hle host F hF
    exact (hrun host F hF).mpr (by omega)

end Fence

end KollaPowerOps
