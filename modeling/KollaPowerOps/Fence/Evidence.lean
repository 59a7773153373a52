import KollaPowerOps.Fence.Task

/-!
# Fence.Evidence

What a normal return of `IronicFenceTask.execute` proves about the node. The poll loop counts a
streak of `power off` observations; it returns when the streak is long enough, so the last
observations of a successful run are all `power off` and free of errors (`execute_evidence`).

A pending target is looked at only while the node is not off yet: an observation that is already
`power off` counts whatever its target is (`Settled`).
-/

namespace KollaPowerOps
namespace Fence

open Effect

/-- The targets of the `set_node_power_state` calls of a trace, however they were answered. -/
def powerTargets (tr : Trace) : List String :=
  tr.filterMap fun
    | ⟨.setNodePowerState _ target, _⟩ => some target
    | _ => none

@[simp] theorem powerTargets_append (tr₁ tr₂ : Trace) :
    powerTargets (tr₁ ++ tr₂) = powerTargets tr₁ ++ powerTargets tr₂ := by
  simp [powerTargets]

/-- No error, and no conflicting target while the node is not off. -/
def Clean (node : Node) : Prop :=
  truthy node.lastError = false ∧ conflictingTarget node = false

/-- Off, without an error. -/
def Settled (node : Node) : Prop :=
  node.powerState = some "power off" ∧ truthy node.lastError = false

/-! ## The one power request -/

def isPowerRequest {τ : Type} : Call τ → Bool
  | .setNodePowerState _ _ => true
  | _ => false

theorem powerTargets_of_uses {α : Type} {p q : Op α} {tr : Trace}
    (hp : p.Uses fun op => isPowerRequest op = false) (h : Steps p tr q) :
    powerTargets tr = [] := by
  have hops := (h.within hp).2
  rw [powerTargets, List.filterMap_eq_nil_iff]
  rintro ⟨op, r⟩ hev
  have hop := hops _ hev
  cases op <;> first | rfl | cases hop

theorem exactNode_uses (hostName : String) :
    (exactNode hostName).Uses fun op => isPowerRequest op = false :=
  ⟨rfl, fun _ => exactlyOne_within.mono (fun _ h => h) fun _ _ => trivial⟩

theorem poll_uses (options : Options) (hostName : String) (n : Nat) (node : Node)
    (stable : Nat) :
    (poll options hostName n node stable).Uses fun op => isPowerRequest op = false :=
  StablePoll.run_uses _ (fun _ => rfl) (by rfl) n node stable

theorem requestOff_targets {node : Node} {tr : Trace} {p : Op Unit}
    (h : Steps (requestOff node) tr p) : powerTargets tr = [] ∨ powerTargets tr = ["power off"] := by
  unfold requestOff at h
  split at h
  · cases tr with
    | nil => exact .inl rfl
    | cons ev tr =>
      obtain ⟨_, rfl, hk⟩ | ⟨_, rfl, rfl, _⟩ := Steps.call_inv h
      · obtain ⟨rfl, _⟩ := hk.done_inv; exact .inr rfl
      · exact .inr rfl
  · obtain ⟨rfl, _⟩ := h.done_inv; exact .inl rfl

/-- In every run, however far it has got, at most one power request was issued, for `power off`. -/
theorem execute_power_targets {options : Options} {hostName : String} {tr : Trace}
    {p : Op FenceResult} (h : Steps (execute options hostName) tr p) :
    powerTargets tr = [] ∨ powerTargets tr = ["power off"] := by
  obtain ⟨_, _, h⟩ | ⟨node, tr₁, tr₂, rfl, h₁, h⟩ := Steps.bind_inv h
  · exact .inl (powerTargets_of_uses (exactNode_uses hostName) h)
  have hnone := powerTargets_of_uses (exactNode_uses hostName) h₁
  rw [powerTargets_append, hnone, List.nil_append]
  split at h
  · obtain ⟨rfl, _⟩ := h.done_inv; exact .inl rfl
  obtain ⟨_, _, h⟩ | ⟨_, tr₃, tr₄, rfl, h₃, h⟩ := Steps.bind_inv h
  · exact requestOff_targets h
  · rw [powerTargets_append, powerTargets_of_uses (poll_uses _ _ _ _ _) h, List.append_nil]
    exact requestOff_targets h₃

/-! ## The evidence of a successful run -/

theorem exactNode_unobserved (hostName : String) :
    (exactNode hostName).Uses fun op => isObservation op = false :=
  ⟨rfl, fun _ => exactlyOne_within.mono (fun _ h => h) fun _ _ => trivial⟩

theorem requestOff_unobserved (node : Node) :
    (requestOff node).Uses fun op => isObservation op = false := by
  unfold requestOff
  split
  · exact ⟨rfl, fun _ => trivial⟩
  · trivial

/-- The number of stable observations that the options ask for. -/
def Options.stable (options : Options) : Nat := options.stableOffObservations.toNat

/-- A normal return of the task is one of the poll loop, and only the loop observes the node. -/
theorem execute_returns {options : Options} {hostName : String} {tr : Trace} {r : FenceResult}
    (h : Returns (execute options hostName) tr r) :
    ∃ n node tr', Returns (poll options hostName n node 0) tr' r ∧
      observations tr = observations tr' := by
  simp only [execute, Prog.bind_def, returns_bind] at h
  obtain ⟨node, tr₁, tr₂, rfl, h₁, h⟩ := h
  split at h
  · simp at h
  simp only [returns_bind] at h
  obtain ⟨_, tr₃, tr₄, rfl, h₃, h₄⟩ := h
  refine ⟨_, node, tr₄, h₄, ?_⟩
  rw [observations_append, observations_append,
    observations_of_uses (exactNode_unobserved hostName) h₁,
    observations_of_uses (requestOff_unobserved node) h₃]
  rfl

/-- **What fencing proves.** In every run at most one power request is issued, for `power off`.
When the task returns, the last observations it made, as many as the options ask for, all show the
node off and free of errors; and no observation of the run shows an error, or a pending target
other than `power off` on a node that is not off. -/
theorem execute_evidence (options : Options) (hostName : String) (tr : Trace) (p : Op FenceResult)
    (h : Steps (execute options hostName) tr p) :
    (powerTargets tr = [] ∨ powerTargets tr = ["power off"]) ∧
      ∀ r, p = .done (.ok r) →
        options.stable ≤ (observations tr).length ∧
        (∀ o ∈ (observations tr).drop ((observations tr).length - options.stable), Settled o) ∧
        ∀ o ∈ observations tr, Clean o := by
  refine ⟨execute_power_targets h, ?_⟩
  rintro r rfl
  obtain ⟨n, node, tr', hpoll, hobs⟩ := execute_returns h
  obtain ⟨hlen, hlast, hclean⟩ := StablePoll.evidence _ hpoll
  rw [hobs]
  exact ⟨hlen, fun o ho => ⟨hlast o ho, (hclean o (List.mem_of_mem_drop ho)).1⟩, hclean⟩

/-- An Ironic with one node, which stays as it is. -/
def ironicWith (node : Node) : Answers Call Exn
  | _, .nodes => .ok [node]
  | _, .getNode _ => .ok node
  | _, .sleep _ => .ok ()
  | _, _ => .error (.raised "unexpected call")

/-- A configuration that asks for two observations. -/
def twoObservations : Options := { stableOffObservations := 2 }

/-- The task on an Ironic with this node. -/
def runOn (node : Node) : Trace × Op FenceResult :=
  (execute twoObservations "compute-01").run (List.replicate 4 (ironicWith node))

theorem execute_evidence_off :
    let node : Node := { id := "node-1", name := "compute-01", powerState := "power off" }
    (runOn node).2 = .done (.ok ⟨"compute-01", "node-1", "power off", 2⟩) ∧
      ∀ o ∈ observations (runOn node).1, Settled o := by
  intro node
  have hret : (runOn node).2 = .done (.ok ⟨"compute-01", "node-1", "power off", 2⟩) := rfl
  obtain ⟨_, hok⟩ := execute_evidence twoObservations "compute-01" (runOn node).1 (runOn node).2
    (Prog.run_steps _ _)
  obtain ⟨_, hlast, _⟩ := hok _ hret
  exact ⟨hret, hlast⟩

/-! ## A node that is off and about to be powered on -/

/-- Off, without an error and without a pending target other than `power off`. -/
def Unthreatened (node : Node) : Prop :=
  Settled node ∧ (truthy node.targetPowerState = true → node.targetPowerState = some "power off")

/-- A node that is off while Ironic is about to power it on. -/
def poweringOn : Node :=
  { id := "node-1", name := "compute-01", powerState := "power off",
    targetPowerState := "power on" }

/-- Two observations of such a node are enough for a configuration that asks for two. -/
theorem execute_counts_powering_on :
    ¬ ∀ (options : Options) (hostName : String) (tr : Trace) (r : FenceResult),
      Returns (execute options hostName) tr r →
        ∀ o ∈ (observations tr).drop ((observations tr).length - options.stable),
          Unthreatened o := by
  intro h
  have hrun : Returns (execute twoObservations "compute-01") (runOn poweringOn).1
      ⟨"compute-01", "node-1", "power off", 2⟩ := Prog.run_steps _ _
  have hobs : observations (runOn poweringOn).1 = [poweringOn, poweringOn] := rfl
  have hpending := (h twoObservations "compute-01" _ _ hrun poweringOn
    (by rw [hobs]; simp [Options.stable, twoObservations])).2
  exact absurd (hpending (by decide)) (by decide)

end Fence
end KollaPowerOps
