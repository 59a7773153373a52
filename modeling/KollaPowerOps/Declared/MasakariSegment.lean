import KollaPowerOps.Declared.IronicNode

/-!
# Declared.MasakariSegment

The segment of the declared hosts: the specification that the role `powerops` builds from the
declared nodes (`Role.segmentSpec`), `normalize_segment_spec`, and the reconciliation with
Masakari as a program over the calls of `connection.instance_ha`.
-/

namespace KollaPowerOps
namespace Declared

open Effect PyText

/-! ## The role -/

/-- What Ansible does with a template of one known variable, and the filter `bool`. -/
structure Role where
  render : Value → Value
  bool : Value → Value

namespace Role

/-- A variable of the globals, or its default. -/
def variable_ (data : Mapping) (key : String) (default : Value) : Value :=
  (Value.lookup data key).getD default

def segmentName (role : Role) (data : Mapping) : Value :=
  role.render (variable_ data "powerops_role_segment_name"
    (variable_ data "powerops_masakari_segment_name" (.str "powerops-compute")))

def recoveryMethod (role : Role) (data : Mapping) : Value :=
  role.render (variable_ data "powerops_role_recovery_method"
    (variable_ data "powerops_masakari_recovery_method" (.str "auto")))

def controlAttributes (role : Role) (data : Mapping) : Value :=
  role.render (variable_ data "powerops_masakari_control_attributes" (.str "SSH"))

/-- The entry of a node in `powerops_masakari_hosts`. -/
def hostEntry (role : Role) (data node : Mapping) (hostname : Value) : Mapping := [
  (.str "name", hostname),
  (.str "type", .str "COMPUTE"),
  (.str "control_attributes", role.controlAttributes data),
  (.str "reserved", role.bool (variable_ node "masakari_reserved" (.bool false))),
  (.str "on_maintenance", role.bool (variable_ node "masakari_on_maintenance" (.bool true)))]

/-- The hostname must be defined. -/
def segmentHost (role : Role) (data : Mapping) (node : Value) : Except ReconcileExn Value := do
  let kvs ← IronicNode.items node
  match Value.lookup kvs "nova_hostname" with
  | some hostname => pure (.dict (role.hostEntry data kvs hostname))
  | none => .error (.raised "object has no attribute 'nova_hostname'")

def segmentHosts (role : Role) (data : Mapping) : List Value → Except ReconcileExn (List Value)
  | [] => .ok []
  | node :: nodes => do
    let host ← role.segmentHost data node
    let hosts ← role.segmentHosts data nodes
    pure (host :: hosts)

/-- The parameter `segment` of `powerops_masakari_segment`, for these hosts. -/
def segmentEntry (role : Role) (data : Mapping) (hosts : List Value) : Mapping := [
  (.str "name", role.segmentName data),
  (.str "service_type", .str "COMPUTE"),
  (.str "recovery_method", role.recoveryMethod data),
  (.str "description", .str "PowerOps compute hosts managed by Kolla-Ansible"),
  (.str "hosts", .list hosts)]

def segmentSpec (role : Role) (data : Mapping) (nodes : List Value) :
    Except ReconcileExn Value := do
  let hosts ← role.segmentHosts data nodes
  pure (.dict (role.segmentEntry data hosts))

end Role

namespace MasakariSegment

/-! ## The specification -/

structure DesiredHost where
  name : String
  type : String := "COMPUTE"
  controlAttributes : String
  reserved : Bool
  onMaintenance : Bool
  deriving DecidableEq, Repr

structure SegmentSpec where
  name : String
  serviceType : String := "COMPUTE"
  recoveryMethod : String
  description : String
  hosts : List DesiredHost
  deriving DecidableEq, Repr

/-- `bool(raw.get(key, False))` -/
def flag (raw : Mapping) (key : String) : Bool := (Value.entry raw key).truthy

def normalizeHosts (rt : PyRuntime) :
    List Value → List String → Except ReconcileExn (List DesiredHost)
  | [], _ => .ok []
  | .dict rawHost :: rawHosts, names => do
    let hostName := strippedText rt rawHost "name"
    refuseIf (hostName == "") "segment host name is required"
    refuseIf (hostName ∈ names) ("duplicate desired Masakari host " ++ hostName)
    refuseIf (rt.upper (textOr rt (Value.entry rawHost "type") "COMPUTE") != "COMPUTE") "host type must be COMPUTE"
    let controlAttributes := strippedText rt rawHost "control_attributes"
    refuseIf (controlAttributes == "") "host control_attributes are required"
    let hosts ← normalizeHosts rt rawHosts (hostName :: names)
    pure ({
      name := hostName
      controlAttributes
      reserved := flag rawHost "reserved"
      onMaintenance := flag rawHost "on_maintenance" } :: hosts)
  | _ :: _, _ => .error (.reconciliation "every segment host must be a mapping")

def recoveryMethods : List String := ["auto", "reserved_host"]

def normalizeSegmentSpec (rt : PyRuntime) : Value → Except ReconcileExn SegmentSpec
  | .dict raw => do
    let name := strippedText rt raw "name"
    refuseIf (name == "") "segment name is required"
    refuseIf (rt.upper (textOr rt (Value.entry raw "service_type") "") != "COMPUTE")
      "segment service_type must be COMPUTE"
    let recoveryMethod := rt.lower (textOr rt (Value.entry raw "recovery_method") "")
    refuseIf (recoveryMethod ∉ recoveryMethods) "recovery_method must be auto or reserved_host"
    let rawHosts ← ofPython ((Value.entry raw "hosts").or (.list [])).iter
    let hosts ← normalizeHosts rt rawHosts []
    refuseIf hosts.isEmpty "at least one segment host is required"
    pure { name, recoveryMethod, description := textOr rt (Value.entry raw "description") "", hosts }
  | _ => .error (.reconciliation "segment specification must be a mapping")

/-! ## Masakari -/

/-- A segment with the attributes that the module manages. -/
structure ManagedSegment extends Segment where
  name : Option String := none
  uuid : Option String := none
  serviceType : Option String := none
  recoveryMethod : Option String := none
  description : Option String := none
  deriving DecidableEq, Repr

/-- A host of a segment with the attributes that the module manages. -/
structure ManagedHost where
  id : String
  name : String
  type : Option String := none
  controlAttributes : Option String := none
  reserved : Option Bool := none
  onMaintenance : Option Bool := none
  deriving DecidableEq, Repr

/-- The host as the power actions see it. -/
def ManagedHost.view (host : ManagedHost) : MasakariHost :=
  { id := host.id, name := some host.name, onMaintenance := host.onMaintenance }

structure SegmentUpdates where
  recoveryMethod : Option String := none
  description : Option String := none
  deriving DecidableEq, Repr

structure HostUpdates where
  type : Option String := none
  controlAttributes : Option String := none
  reserved : Option Bool := none
  onMaintenance : Option Bool := none
  deriving DecidableEq, Repr

/-- The calls of `connection.instance_ha`. -/
inductive InstanceHaCall : Type → Type where
  | segments : InstanceHaCall (List ManagedSegment)
  | hosts (segment : ManagedSegment) : InstanceHaCall (List ManagedHost)
  | createSegment (name serviceType recoveryMethod description : String) :
      InstanceHaCall ManagedSegment
  | updateSegment (segment : ManagedSegment) (updates : SegmentUpdates) :
      InstanceHaCall ManagedSegment
  | createHost (segment : ManagedSegment) (attrs : DesiredHost) : InstanceHaCall Unit
  | updateHost (host : ManagedHost) (segmentId : String) (updates : HostUpdates) :
      InstanceHaCall Unit

abbrev SegmentOp (α : Type) : Type 1 := Prog InstanceHaCall ReconcileExn α

def checked {α : Type} (r : Except ReconcileExn α) : SegmentOp α := .done r

/-- One change, made unless in check mode. -/
def change {α : Type} (checkMode : Bool) (otherwise : α) (op : InstanceHaCall α) : SegmentOp α :=
  if checkMode then pure otherwise else Prog.request op

/-- The value that a field has to be changed to, if it differs. -/
def differing {α : Type} [DecidableEq α] (current : Option α) (desired : α) : Option α :=
  if current = some desired then none else some desired

def segmentUpdates (segment : ManagedSegment) (spec : SegmentSpec) : SegmentUpdates where
  recoveryMethod := differing segment.recoveryMethod spec.recoveryMethod
  description := differing segment.description spec.description

def updateSegment (segment : ManagedSegment) (spec : SegmentSpec) (checkMode : Bool) :
    SegmentOp ManagedSegment :=
  if segmentUpdates segment spec = {} then pure segment
  else change checkMode segment (.updateSegment segment (segmentUpdates segment spec))

/-- A second host of a name in a list of hosts is an error. -/
def checkExisting : List ManagedHost → List String → Except ReconcileExn Unit
  | [], _ => .ok ()
  | host :: hosts, names => do
    refuseIf (host.name ∈ names) ("duplicate existing Masakari host " ++ host.name)
    checkExisting hosts (host.name :: names)

def hostUpdates (host : ManagedHost) (desired : DesiredHost) : HostUpdates where
  type := differing host.type desired.type
  controlAttributes := differing host.controlAttributes desired.controlAttributes
  reserved := differing host.reserved desired.reserved
  onMaintenance := differing host.onMaintenance desired.onMaintenance

/-- The loop over the desired hosts, with the number of changes. -/
def changeHosts (segment : ManagedSegment) (existing : List ManagedHost) (checkMode : Bool) :
    List DesiredHost → SegmentOp Nat
  | [] => pure 0
  | desired :: hosts =>
    match existing.find? fun host => host.name = desired.name with
    | none => do
      change checkMode () (.createHost segment desired)
      let n ← changeHosts segment existing checkMode hosts
      pure (n + 1)
    | some host =>
      if hostUpdates host desired = {} then changeHosts segment existing checkMode hosts
      else do
        change checkMode () (.updateHost host segment.id (hostUpdates host desired))
        let n ← changeHosts segment existing checkMode hosts
        pure (n + 1)

structure SegmentReport where
  changed : Bool
  segment : String
  segmentUuid : Option String
  hostsChanged : Nat
  extraHosts : List String
  deriving DecidableEq, Repr

/-- `reconcile_segment` from the point where the segment is there. -/
def reconcileExisting (spec : SegmentSpec) (checkMode created : Bool) (segment : ManagedSegment) :
    SegmentOp SegmentReport := do
  let updated ← updateSegment segment spec checkMode
  let existing ← Prog.request (.hosts updated)
  checked (checkExisting existing [])
  let hostsChanged ← changeHosts updated existing checkMode spec.hosts
  let extras := (existing.map ManagedHost.name).filter fun name =>
    name ∉ spec.hosts.map DesiredHost.name
  pure {
    changed := created || decide (segmentUpdates segment spec ≠ {}) || decide (hostsChanged > 0)
    segment := spec.name
    segmentUuid := some (updated.uuid.getD updated.id)
    hostsChanged
    extraHosts := extras.mergeSort }

def reconcileSegment (rt : PyRuntime) (rawSpec : Value) (checkMode : Bool := false) :
    SegmentOp SegmentReport := do
  let spec ← checked (normalizeSegmentSpec rt rawSpec)
  let segments ← Prog.request .segments
  match segments.filter fun segment => segment.name = some spec.name with
  | [] =>
    if checkMode then
      pure {
        changed := true
        segment := spec.name
        segmentUuid := none
        hostsChanged := spec.hosts.length
        extraHosts := [] }
    else do
      let segment ← Prog.request
        (.createSegment spec.name "COMPUTE" spec.recoveryMethod spec.description)
      reconcileExisting spec checkMode true segment
  | [segment] => do
    checked (refuseIf (segment.serviceType != some "COMPUTE")
      "existing segment service_type is not COMPUTE")
    reconcileExisting spec checkMode false segment
  | _ =>
    Prog.raise (.reconciliation ("expected exactly one Masakari segment named " ++ spec.name))

end MasakariSegment
end Declared
end KollaPowerOps
