import KollaPowerOps.Declared.Cli
import KollaPowerOps.OpenStack

/-!
# Declared.IronicNode

The Ansible module `powerops_ironic_node`: `normalize_spec` of one declared node, and its
reconciliation with Ironic, as a program over the calls of `connection.baremetal`.

`reconcile_node` turns every exception into a `ReconciliationError` whose text hides the secrets
of the specification; here the exceptions are the ones before that.
-/

namespace KollaPowerOps
namespace Declared

open Effect PyText

/-- The exceptions of the reconcilers. `raised` is an exception of a call. -/
inductive ReconcileExn where
  | reconciliation (message : String)
  | python (e : PyError)
  | raised (message : String)
  deriving DecidableEq, Repr

/-- Raise what a Python operation raises. -/
def ofPython {α : Type} : Except PyError α → Except ReconcileExn α
  | .ok a => .ok a
  | .error e => .error (.python e)

theorem ofPython_ok {α : Type} {r : Except PyError α} {a : α} :
    ofPython r = .ok a ↔ r = .ok a := by
  cases r <;> simp [ofPython]

/-- Raise a `ReconciliationError` if the condition holds. -/
def refuseIf (condition : Bool) (message : String) : Except ReconcileExn Unit :=
  if condition then .error (.reconciliation message) else .ok ()

theorem refuseIf_ok {condition : Bool} {message : String} {u : Unit} :
    refuseIf condition message = .ok u ↔ condition = false := by
  unfold refuseIf
  cases condition <;> simp

/-- `str(v or default)` -/
def textOr (rt : PyRuntime) (v : Value) (default : String) : String := (v.or (.str default)).toStr rt

/-- `str(v or "").strip()` -/
def stripped (rt : PyRuntime) (v : Value) : String := pyStrip (textOr rt v "")

/-- `str(raw.get(key) or "").strip()` -/
def strippedText (rt : PyRuntime) (raw : Mapping) (key : String) : String :=
  stripped rt (Value.entry raw key)

namespace IronicNode

/-! ## The specification -/

def requiredDriverInfo : String → Option (List String)
  | "redfish" =>
    some ["redfish_address", "redfish_system_id", "redfish_username", "redfish_password"]
  | "ipmi" => some ["ipmi_address", "ipmi_username", "ipmi_password"]
  | _ => none

structure DesiredPort where
  address : String
  physicalNetwork : Value

structure NodeSpec where
  name : String
  novaHostname : String
  driver : String
  driverInfo : Mapping
  networkInterface : String := "noop"
  desiredProvisionState : String := "manageable"
  ports : List DesiredPort

def normalizePorts (rt : PyRuntime) :
    List Value → List String → Except ReconcileExn (List DesiredPort)
  | [], _ => .ok []
  | .dict rawPort :: rawPorts, addresses => do
    let address := portAddress rt rawPort
    refuseIf (!macMatch address.toList) ("invalid port MAC: " ++ address)
    refuseIf (address ∈ addresses) ("duplicate desired port MAC: " ++ address)
    let ports ← normalizePorts rt rawPorts (address :: addresses)
    pure (⟨address, Value.entry rawPort "physical_network"⟩ :: ports)
  | _ :: _, _ => .error (.reconciliation "every port must be a mapping")

def checkDriverInfo (driverInfo : Value) : List String → Except ReconcileExn Unit
  | [] => .ok ()
  | key :: keys => do
    let value ← ofPython (driverInfo.get key)
    refuseIf (!value.truthy) ("missing driver_info." ++ key)
    checkDriverInfo driverInfo keys

/-- The entries of a value that has the attribute `items`. -/
def items : Value → Except ReconcileExn Mapping
  | .dict kvs => .ok kvs
  | _ => .error (.python (.attributeError "object has no attribute 'items'"))

def normalizeSpec (rt : PyRuntime) : Value → Except ReconcileExn NodeSpec
  | .dict spec => do
    let name := strippedText rt spec "name"
    let novaHostname := strippedText rt spec "nova_hostname"
    let driver := rt.lower (strippedText rt spec "driver")
    refuseIf (name == "" || novaHostname == "") "name and nova_hostname are required"
    match requiredDriverInfo driver with
    | none => .error (.reconciliation "driver must be redfish or ipmi")
    | some required => do
      refuseIf (!(Value.entry spec "network_interface").isStr "noop")
        "network_interface must be noop"
      refuseIf (!(Value.entry spec "desired_provision_state").isStr "manageable")
        "desired_provision_state must be manageable"
      let driverInfo := (Value.entry spec "driver_info").or (.dict [])
      checkDriverInfo driverInfo required
      let rawPorts ← ofPython ((Value.entry spec "ports").or (.list [])).iter
      let ports ← normalizePorts rt rawPorts []
      let driverInfo ← items driverInfo
      pure { name, novaHostname, driver, driverInfo, ports }
  | _ => .error (.reconciliation "node specification must be a mapping")

/-! ## Ironic -/

/-- An Ironic Node with the attributes that the module manages. -/
structure ManagedNode extends Node where
  provisionState : Option String := none
  driver : Option String := none
  networkInterface : Option String := none
  driverInfo : Mapping := []
  extra : Mapping := []

structure IronicPort where
  id : String
  nodeId : Option String
  address : String
  physicalNetwork : Value

/-- The attributes that `update_node` is given. -/
structure NodeUpdates where
  driver : Option String := none
  networkInterface : Option String := none
  driverInfo : Option Mapping := none
  extra : Option Mapping := none

/-- The calls of `connection.baremetal`. -/
inductive BaremetalCall : Type → Type where
  | nodes : BaremetalCall (List ManagedNode)
  | ports : BaremetalCall (List IronicPort)
  | createNode (name driver : String) (driverInfo : Mapping) (networkInterface : String)
      (extra : Mapping) : BaremetalCall ManagedNode
  | updateNode (node : ManagedNode) (updates : NodeUpdates) : BaremetalCall ManagedNode
  | setNodeProvisionState (node : ManagedNode) (target : String) (timeout : Int) :
      BaremetalCall ManagedNode
  | getNode (node : ManagedNode) : BaremetalCall ManagedNode
  | createPort (nodeId address : String) (physicalNetwork : Value) : BaremetalCall Unit
  | updatePort (port : IronicPort) (physicalNetwork : Value) : BaremetalCall Unit

abbrev NodeOp (α : Type) : Type 1 := Prog BaremetalCall ReconcileExn α

/-- Raise what a computation raises. -/
def checked {α : Type} (r : Except ReconcileExn α) : NodeOp α := .done r

/-! ## Ports -/

/-- `str(_value(port, "address", "")).lower()` -/
def addressOf (rt : PyRuntime) (port : IronicPort) : String := rt.lower port.address

def portsOf (rt : PyRuntime) (allPorts : List IronicPort) (address : String) : List IronicPort :=
  allPorts.filter fun port => addressOf rt port = address

def tooManyPorts (address : String) : String :=
  "expected at most one Ironic Port with MAC " ++ address

def foreignPort (address : String) : String :=
  "port " ++ address ++ " belongs to another Ironic Node"

def checkOwnership (rt : PyRuntime) (allPorts : List IronicPort) (expectedNodeId : Option String) :
    List DesiredPort → Except ReconcileExn Unit
  | [] => .ok ()
  | desired :: desiredPorts => do
    let found := portsOf rt allPorts desired.address
    refuseIf (found.length > 1) (tooManyPorts desired.address)
    refuseIf (found.any fun port => port.nodeId != expectedNodeId) (foreignPort desired.address)
    checkOwnership rt allPorts expectedNodeId desiredPorts

def preflightPortOwnership (rt : PyRuntime) (desiredPorts : List DesiredPort)
    (expectedNodeId : Option String) : NodeOp Unit := do
  let allPorts ← Prog.request .ports
  checked (checkOwnership rt allPorts expectedNodeId desiredPorts)

/-- One change, made unless in check mode. -/
def change {α : Type} (checkMode : Bool) (otherwise : α) (op : BaremetalCall α) : NodeOp α :=
  if checkMode then pure otherwise else Prog.request op

/-- The loop of `reconcile_ports`, with the number of changes. -/
def changePorts (rt : PyRuntime) (nodeId : String) (allPorts : List IronicPort)
    (checkMode : Bool) : List DesiredPort → NodeOp Nat
  | [] => pure 0
  | desired :: desiredPorts => do
    let found := portsOf rt allPorts desired.address
    checked (refuseIf (found.length > 1) (tooManyPorts desired.address))
    match found with
    | [] => do
      change checkMode () (.createPort nodeId desired.address desired.physicalNetwork)
      let n ← changePorts rt nodeId allPorts checkMode desiredPorts
      pure (n + 1)
    | port :: _ => do
      checked (refuseIf (port.nodeId != some nodeId) (foreignPort desired.address))
      if port.physicalNetwork.eq desired.physicalNetwork then
        changePorts rt nodeId allPorts checkMode desiredPorts
      else do
        change checkMode () (.updatePort port desired.physicalNetwork)
        let n ← changePorts rt nodeId allPorts checkMode desiredPorts
        pure (n + 1)

structure PortsReport where
  portsChanged : Nat
  extraPorts : List String

def reconcilePorts (rt : PyRuntime) (node : ManagedNode) (desiredPorts : List DesiredPort)
    (checkMode : Bool) : NodeOp PortsReport := do
  let allPorts ← Prog.request .ports
  let changed ← changePorts rt node.id allPorts checkMode desiredPorts
  let extras := (allPorts.filter fun port =>
    port.nodeId = some node.id ∧
      addressOf rt port ∉ desiredPorts.map DesiredPort.address).map (addressOf rt)
  pure ⟨changed, extras.mergeSort⟩

/-! ## The node -/

def driverInfoDiffers (current desired : Mapping) : Bool :=
  desired.any fun kv => !(Value.getKey current kv.1).eq kv.2

/-- What `update_node` has to change, if anything. -/
def updatesFor (node : ManagedNode) (spec : NodeSpec) : Option NodeUpdates :=
  let updates : NodeUpdates := {
    driver := if node.driver = some spec.driver then none else some spec.driver
    networkInterface := if node.networkInterface = some "noop" then none else some "noop"
    driverInfo :=
      if driverInfoDiffers node.driverInfo spec.driverInfo then
        some (Value.update node.driverInfo spec.driverInfo)
      else none
    extra :=
      if (Value.entry node.extra "nova_hostname").isStr spec.novaHostname then none
      else some (Value.insert node.extra (.str "nova_hostname") (.str spec.novaHostname)) }
  if updates.driver.isSome || updates.networkInterface.isSome || updates.driverInfo.isSome ||
      updates.extra.isSome then some updates
  else none

def updateNode (node : ManagedNode) (spec : NodeSpec) (checkMode : Bool) : NodeOp ManagedNode :=
  match updatesFor node spec with
  | some updates => change checkMode node (.updateNode node updates)
  | none => pure node

def manageNode (node : ManagedNode) (state : Option String) (checkMode : Bool) (timeout : Int) :
    NodeOp ManagedNode :=
  if state = some "enroll" ∧ checkMode = false then do
    let node ← Prog.request (.setNodeProvisionState node "manage" timeout)
    Prog.request (.getNode node)
  else pure node

structure NodeReport where
  changed : Bool
  node : String
  nodeUuid : Option String
  provisionState : Option String
  portsChanged : Nat
  extraPorts : List String

/-- `_reconcile_node` from the point where the node is there. -/
def reconcileExisting (rt : PyRuntime) (spec : NodeSpec) (checkMode : Bool) (timeout : Int)
    (created : Bool) (node : ManagedNode) : NodeOp NodeReport := do
  let state := node.provisionState
  checked (refuseIf (state != some "enroll" && state != some "manageable")
    ("Ironic Node " ++ spec.name ++ " is in forbidden provision state " ++ state.getD "None"))
  let updated ← updateNode node spec checkMode
  let managed ← manageNode updated state checkMode timeout
  let ports ← reconcilePorts rt managed spec.ports checkMode
  pure {
    changed := created || (updatesFor node spec).isSome || decide (state = some "enroll") ||
      decide (ports.portsChanged > 0)
    node := spec.name
    nodeUuid := some managed.id
    provisionState := managed.provisionState
    portsChanged := ports.portsChanged
    extraPorts := ports.extraPorts }

def createNode (spec : NodeSpec) : NodeOp ManagedNode :=
  Prog.request (.createNode spec.name spec.driver spec.driverInfo "noop"
    [(.str "nova_hostname", .str spec.novaHostname)])

/-- `_reconcile_node` -/
def reconcile (rt : PyRuntime) (spec : NodeSpec) (checkMode : Bool) (timeout : Int) :
    NodeOp NodeReport := do
  let nodes ← Prog.request .nodes
  match nodes.filter fun node => node.name = some spec.name with
  | [] => do
    preflightPortOwnership rt spec.ports none
    if checkMode then
      pure {
        changed := true
        node := spec.name
        nodeUuid := none
        provisionState := some "absent"
        portsChanged := spec.ports.length
        extraPorts := [] }
    else do
      let node ← createNode spec
      reconcileExisting rt spec checkMode timeout true node
  | [node] => do
    preflightPortOwnership rt spec.ports (some node.id)
    reconcileExisting rt spec checkMode timeout false node
  | _ => Prog.raise (.reconciliation ("expected exactly one Ironic Node named " ++ spec.name))

def reconcileNode (rt : PyRuntime) (rawSpec : Value) (checkMode : Bool := false)
    (timeout : Int := 300) : NodeOp NodeReport := do
  let spec ← checked (normalizeSpec rt rawSpec)
  reconcile rt spec checkMode timeout

end IronicNode
end Declared
end KollaPowerOps
