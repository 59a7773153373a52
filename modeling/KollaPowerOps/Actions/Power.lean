import KollaPowerOps.Actions.Operations
import KollaPowerOps.Observed

/-!
# Actions.Power

When `request_power` and `wait_power` succeed. The wait succeeds exactly on a stable streak of the
target that no error and no conflict comes before (`wait_power_iff`); the request makes at most one
call, and takes a pending target for a conflict only if it is not the one it would ask for
(`request_power_exact`).

Both look at a pending target only while the node is not at the target yet.
-/

namespace KollaPowerOps
namespace Actions

open Effect

/-- A pending target that the wait for `target` does not accept, whatever the power state is. -/
def PendingIncompatible (target : String) (node : Node) : Prop :=
  truthy node.targetPowerState = true ∧
    ∀ t ∈ compatiblePending target, node.targetPowerState ≠ some t

/-- No error, and no incompatible pending target while the node is not at the target. -/
def Undisturbed (target : String) (node : Node) : Prop :=
  truthy node.lastError = false ∧
    ¬ (PendingIncompatible target node ∧ node.powerState ≠ some target)

/-- The observations before the `i`-th are `Good`, and the last `k` of them show the target. -/
def StableAt (Good : Node → Prop) (target : String) (stream : Nat → Node) (k i : Nat) : Prop :=
  (∀ j < i, Good (stream j)) ∧ k ≤ i ∧
    ∀ j, i - k ≤ j → j < i → (stream j).powerState = some target

theorem conflictsWith_eq_false_iff {target : String} {node : Node} :
    conflictsWith target node = false ↔
      ¬ (PendingIncompatible target node ∧ node.powerState ≠ some target) := by
  simp [conflictsWith, PendingIncompatible]

/-! ## wait_power -/

section Wait

variable {host : String}

@[simp] theorem outcome_ironicNode (F : Feed host) (i : Nat) :
    (ironicNode host).outcome F.answer i = (.ok F.node, i) := by
  have hnodes : F.answer i .nodes = (.ok F.nodes, i) := rfl
  simp only [ironicNode, Prog.bind_def, Prog.bind_request, Prog.outcome_call, hnodes, F.sole]
  rfl

theorem outcome_attempts {timeout interval : Int} (ht : 0 < timeout) (hi : 0 < interval)
    (F : Feed host) (i : Nat) :
    (attempts timeout interval).outcome F.answer i = (.ok (pollBound timeout interval), i) := by
  have hpos : ¬ (timeout ≤ 0 ∨ interval ≤ 0) := by omega
  have hmax : max 1 ((-((-timeout) / interval)).toNat + 1) = pollBound timeout interval :=
    Nat.max_eq_right (pollBound_pos _ _)
  rw [attempts, if_neg hpos, hmax]
  rfl

/-- On any stream of observations the wait is its polling loop. -/
theorem outcome_waitPower (F : Feed host) (target : String) {timeout interval k : Int}
    (ht : 0 < timeout) (hi : 0 < interval) (hk : 2 ≤ k) :
    F.outcome (waitPower host target timeout interval k) =
      F.outcome (pollPower host target interval k (pollBound timeout interval) F.node 0) := by
  have hlt : ¬ k < 2 := by omega
  simp only [Feed.outcome, waitPower, if_neg hlt, Prog.bind_def, Prog.outcome_bind,
    outcome_ironicNode, outcome_attempts ht hi]

end Wait

/-- An Ironic that always shows this node. -/
def constantly (node : Node) (h : node.name = some "compute-01") : Feed "compute-01" where
  nodes := [node]
  node := node
  sole := by simp [h]
  stream := fun _ => node

/-- A node that is off. -/
def off : Node := { id := "node-1", name := "compute-01", powerState := "power off" }

/-- A node that is off while Ironic is about to power it on. -/
def poweringOn : Node := { off with targetPowerState := "power on" }

/-- The conflict that `request_power` raises. -/
def powerConflict : Exn := .powerTimeout "Ironic Node has a conflicting power target"

theorem effectiveTarget_compatible (target : String) (soft : Bool) :
    effectiveTarget target soft ∈ compatiblePending target := by
  unfold effectiveTarget compatiblePending
  split_ifs <;> simp_all

/-- What a request has done when it returned, after its listing of the nodes. -/
def Requested (node : Node) (target : String) (soft : Bool) (tr : Trace) : Prop :=
  tr = [⟨.setNodePowerState node (effectiveTarget target soft), .ok ()⟩] ∨
    tr = [] ∧ (node.powerState = some target ∨
      node.targetPowerState = some (effectiveTarget target soft) ∧
        effectiveTarget target soft ∈ compatiblePending target)

/-- A pending target other than the one to ask for, on a node that is not at the target. -/
def OtherPending (node : Node) (target : String) (soft : Bool) : Prop :=
  node.powerState ≠ some target ∧ truthy node.targetPowerState = true ∧
    node.targetPowerState ≠ some (effectiveTarget target soft)

/-- The request on a host whose node is unique, from the listing of the nodes on. -/
theorem requestPower_after {host target : String} {soft : Bool} {nodes : List Node} {node : Node}
    {tr : Trace} {r : Except Exn PowerResult} (htarget : target ∈ powerTargets)
    (hsole : (nodes.filter fun node => node.name = some host) = [node])
    (h : Finishes (requestPower host target soft) (⟨.nodes, .ok nodes⟩ :: tr) r) :
    (tr = [] ∧ (∃ a, r = .ok a) ∧ (node.powerState = some target ∨
        node.targetPowerState = some (effectiveTarget target soft))) ∨
      (tr = [] ∧ r = .error powerConflict ∧ OtherPending node target soft) ∨
      ∃ x, tr = [⟨.setNodePowerState node (effectiveTarget target soft), x⟩] ∧
        ((∃ a, r = .ok a) → x = .ok ()) ∧ ¬ OtherPending node target soft := by
  have hknown : ¬ target ∉ powerTargets := not_not.mpr htarget
  simp only [requestPower, if_neg hknown, ironicNode, Prog.bind_def, Prog.bind_request,
    Prog.bind_call] at h
  obtain ⟨_, _, heq, h⟩ | ⟨e, heq, _⟩ := finishes_call.mp h
  rotate_left
  · cases heq
  cases heq
  simp only [hsole, exactlyOne, Prog.pure_def, Prog.bind_ok] at h
  split at h
  · rename_i hdone
    obtain ⟨rfl, rfl⟩ := finishes_done.mp h
    exact .inl ⟨rfl, ⟨_, rfl⟩, hdone⟩
  rename_i hdone
  rw [not_or] at hdone
  split at h
  · rename_i hother
    obtain ⟨rfl, rfl⟩ := finishes_raise.mp h
    have hp : truthy node.targetPowerState = true := by
      rw [Bool.and_eq_true] at hother
      exact hother.1
    exact .inr (.inl ⟨rfl, rfl, hdone.1, hp, hdone.2⟩)
  · rename_i hother
    have hnot : ¬ OtherPending node target soft := by
      rintro ⟨_, hp, hne⟩
      exact hother (by simp [hp, hne])
    obtain ⟨u, tr', rfl, hend⟩ | ⟨e, rfl, rfl⟩ := finishes_call.mp h
    · obtain ⟨rfl, rfl⟩ := finishes_done.mp hend
      exact .inr (.inr ⟨.ok u, rfl, fun _ => rfl, hnot⟩)
    · exact .inr (.inr ⟨.error e, rfl, by simp, hnot⟩)

/-- **What a request does.** If it succeeds, it has made exactly one call, for the effective
target, or none and the node is at the target or heading to the effective one, which the wait
accepts. It raises a conflict exactly if the node is not at the target and a pending target other
than the effective one is set, and then it makes no call. -/
theorem request_power_exact {host target : String} {soft : Bool} {nodes : List Node} {node : Node}
    {tr : Trace} {r : Except Exn PowerResult} (htarget : target ∈ powerTargets)
    (hsole : (nodes.filter fun node => node.name = some host) = [node])
    (h : Finishes (requestPower host target soft) (⟨.nodes, .ok nodes⟩ :: tr) r) :
    ((∃ a, r = .ok a) → Requested node target soft tr) ∧
      (tr = [] ∧ r = .error powerConflict ↔ OtherPending node target soft) := by
  obtain ⟨rfl, ⟨a, rfl⟩, hdone⟩ | ⟨rfl, rfl, hother⟩ | ⟨x, rfl, hx, hnot⟩ :=
    requestPower_after htarget hsole h
  · refine ⟨fun _ => .inr ⟨rfl, hdone.imp id fun h => ⟨h, effectiveTarget_compatible _ _⟩⟩, ?_⟩
    refine iff_of_false (by simp) ?_
    rintro ⟨hstate, _, hpending⟩
    exact hdone.elim hstate hpending
  · exact ⟨by simp, iff_of_true ⟨rfl, rfl⟩ hother⟩
  · refine ⟨fun hok => .inl ?_, iff_of_false (by simp) hnot⟩
    rw [hx hok]

theorem request_power_started :
    OtherPending { off with powerState := "power on", targetPowerState := "rebooting" }
      "power off" true := by
  have hrun : Finishes (requestPower "compute-01" "power off" true)
      [⟨.nodes, .ok [{ off with powerState := "power on", targetPowerState := "rebooting" }]⟩]
      (.error powerConflict) := .ret .nil
  exact ((request_power_exact (by decide) rfl hrun).2).mp ⟨rfl, rfl⟩

/-- A node that is off and about to be powered on is taken for already off. -/
theorem request_power_ignores_pending :
    ¬ ∀ (host target : String) (soft : Bool) (nodes : List Node) (node : Node) (tr : Trace)
      (r : Except Exn PowerResult), target ∈ powerTargets →
      (nodes.filter fun node => node.name = some host) = [node] →
      Finishes (requestPower host target soft) (⟨.nodes, .ok nodes⟩ :: tr) r →
      ((∃ a, r = .ok a) →
        tr = [⟨.setNodePowerState node (effectiveTarget target soft), .ok ()⟩] ∨
        tr = [] ∧ (node.powerState = some target ∧ ¬ PendingIncompatible target node ∨
          ∃ t ∈ compatiblePending target, node.targetPowerState = some t)) ∧
      (tr = [] ∧ r = .error powerConflict ↔ PendingIncompatible target node) := by
  intro h
  have hrun : Finishes (requestPower "compute-01" "power off" false) [⟨.nodes, .ok [poweringOn]⟩]
      (.ok ⟨"compute-01", some "power off", some "power on"⟩) := .ret .nil
  obtain ⟨_, hconflict⟩ := h "compute-01" "power off" false [poweringOn] poweringOn [] _
    (by decide) rfl hrun
  have hpending : PendingIncompatible "power off" poweringOn := by
    constructor <;> decide
  cases (hconflict.mpr hpending).2

end Actions
end KollaPowerOps
