import KollaPowerOps.StablePoll

/-!
# Fence.Task

The Masakari TaskFlow task `IronicFenceTask`: power a failed host off through Ironic and return
only on stable evidence that it is off. The options carry the minima they are declared with.
-/

namespace KollaPowerOps
namespace Fence

open Effect

/-- The option group `powerops_ironic`. -/
structure Options where
  powerTimeout : Int := 180
  pollInterval : Int := 5
  stableOffObservations : Int := 3
  powerTimeout_min : 30 ≤ powerTimeout := by decide
  pollInterval_min : 1 ≤ pollInterval := by decide
  stableOffObservations_min : 2 ≤ stableOffObservations := by decide

/-- The exception that `_fail` raises. -/
def failure (message : String) : Exn := .hostRecoveryFailure ("Ironic fencing failed: " ++ message)

def exactNode (hostName : String) : Op Node := do
  let nodes ← Connection.nodes
  exactlyOne
    (failure ("expected exactly one Ironic Node named " ++ hostName))
    (nodes.filter fun node => node.name = some hostName)

/-- A pending target other than `power off` on a node that is not off. -/
def conflictingTarget (node : Node) : Bool :=
  truthy node.targetPowerState && node.targetPowerState != some "power off" &&
    node.powerState != some "power off"

/-- `max(1, int(ceil(float(power_timeout) / poll_interval)) + 1)`, with the quotient taken
exactly. -/
def attempts (options : Options) : Nat :=
  max 1 ((-((-options.powerTimeout) / options.pollInterval)).toNat + 1)

/-- The mapping that `execute` provides as `ironic_fence_result`. -/
structure FenceResult where
  host : String
  nodeUuid : String
  powerState : String
  stableObservations : Nat
  deriving DecidableEq, Repr

/-- The poll loop, with the number of attempts left and the stable observations so far. -/
def poll (options : Options) (hostName : String) : Nat → Node → Nat → Op FenceResult :=
  StablePoll.run
    { target := "power off"
      interval := options.pollInterval
      stableObservations := options.stableOffObservations
      conflicting := conflictingTarget
      bmcError := failure "BMC reported an error"
      conflict := failure "Ironic Node has a conflicting power target"
      timeout := failure "physical power off was not confirmed before timeout"
      result := fun node stable => ⟨hostName, node.id, "power off", stable⟩ }

/-- Ask for `power off` unless the node is off or already heading there. -/
def requestOff (node : Node) : Op Unit :=
  if node.powerState != some "power off" && node.targetPowerState != some "power off" then
    Connection.setNodePowerState node "power off"
  else
    pure ()

def execute (options : Options) (hostName : String) : Op FenceResult := do
  let node ← exactNode hostName
  if conflictingTarget node then
    raise (failure "Ironic Node has a conflicting power target")
  else do
    requestOff node
    poll options hostName (attempts options) node 0

end Fence
end KollaPowerOps
