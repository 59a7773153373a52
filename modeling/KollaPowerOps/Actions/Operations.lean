import KollaPowerOps.Lib.PyValue
import KollaPowerOps.StablePoll

/-!
# Actions.Operations

The class `PowerOperations`: power and evacuation steps on one compute host, through Ironic, Nova
and Masakari. Each operation finds its resource by an exact mapping of the host name and raises
when the mapping is not unique; the waits poll a bounded number of times.

The quotient of timeout and interval is taken exactly.
-/

namespace KollaPowerOps
namespace Actions

open Effect

def powerTargets : List String :=
  ["power on", "power off", "rebooting", "soft power off", "soft rebooting"]

def instancePolicies : List String := ["require_empty", "live_migrate", "stop"]

/-! ## Mapping of the host name -/

def ironicNode (host : String) : Op Node := do
  let nodes ← Connection.nodes
  exactlyOne (.mappingError ("expected exactly one Ironic Node named " ++ host))
    (nodes.filter fun node => node.name = some host)

/-- The service is the `nova-compute` of the host. -/
def isComputeOf (host : String) (service : NovaService) : Bool :=
  service.host = some host && service.binary = some "nova-compute"

def novaService (host : String) : Op NovaService := do
  let services ← Connection.services host
  exactlyOne (.mappingError ("expected exactly one Nova nova-compute service for " ++ host))
    (services.filter (isComputeOf host))

/-- The hosts of this name in the segments, each with its segment. -/
def masakariMatches (host : String) : List Segment → Op (List (Segment × MasakariHost))
  | [] => pure []
  | segment :: segments => do
    let items ← Connection.hosts segment
    let found ← masakariMatches host segments
    pure ((items.filter fun item => item.name = some host).map (segment, ·) ++ found)

def masakariHost (host : String) : Op (Segment × MasakariHost) := do
  let segments ← Connection.segments
  let found ← masakariMatches host segments
  exactlyOne (.mappingError ("expected exactly one Masakari host named " ++ host)) found

structure Resolved where
  host : String
  novaServiceId : String
  ironicNodeId : String
  masakariSegmentId : String
  masakariHostId : String
  deriving DecidableEq, Repr

def resolveHost (host : String) : Op Resolved := do
  let nova ← novaService host
  let ironic ← ironicNode host
  let (segment, masakari) ← masakariHost host
  pure ⟨host, nova.id, ironic.id, segment.id, masakari.id⟩

/-! ## Nova service and Masakari maintenance -/

structure NovaResult where
  host : String
  enabled : Bool
  deriving DecidableEq, Repr

/-- The call that a service still needs to be enabled or disabled. -/
def novaUpdate (service : NovaService) (enabled : Bool) (reason : String) : Op Unit :=
  if enabled then
    if service.status ≠ some "enabled" then Connection.enableService service else pure ()
  else if service.status ≠ some "disabled" then Connection.disableService service reason
  else pure ()

def setNovaService (host : String) (enabled : Bool) (reason : String) : Op NovaResult := do
  let service ← novaService host
  novaUpdate service enabled reason
  pure ⟨host, enabled⟩

structure MaintenanceResult where
  host : String
  onMaintenance : Bool
  deriving DecidableEq, Repr

/-- The call that a Masakari host still needs. -/
def masakariUpdate (segment : Segment) (item : MasakariHost) (desired : Bool) : Op Unit :=
  if item.maintained ≠ desired then Connection.updateHost item segment desired else pure ()

def setMasakariMaintenance (host : String) (enabled : Bool) : Op MaintenanceResult := do
  let (segment, item) ← masakariHost host
  masakariUpdate segment item enabled
  pure ⟨host, enabled⟩

/-! ## Servers -/

/-- `a or b` for attributes. -/
def orElse (a b : Option String) : Option String := if truthy a then a else b

/-- `_server_host` -/
def serverHost (server : Server) : Option String :=
  orElse server.hypervisorHostname server.extHypervisorHostname

/-- What the filter of `_servers_on_host` keeps. -/
def isOn (host : String) (server : Server) : Bool := serverHost server = some host

def serversOnHost (host : String) : Op (List Server) := do
  let servers ← Connection.servers host
  pure (servers.filter (isOn host))

structure ListedServer where
  id : String
  name : String
  status : String
  deriving DecidableEq, Repr

def listServers (host : String) : Op (List ListedServer) := do
  let servers ← serversOnHost host
  pure (servers.map fun item => ⟨item.id, item.name.getD item.id, item.statusText⟩)

/-- `max(1, int(ceil(float(timeout) / interval)) + 1)` -/
def attempts (timeout interval : Int) : Op Nat :=
  if timeout ≤ 0 ∨ interval ≤ 0 then
    raise (.valueError "timeout and interval must be positive")
  else
    pure (max 1 ((-((-timeout) / interval)).toNat + 1))

/-- Make one call for every element, in order. -/
def each {ρ : Type} (f : ρ → Op Unit) : List ρ → Op Unit
  | [] => pure ()
  | x :: xs => do
    f x
    each f xs

/-- The mapping that `drain_host` returns: servers left on the source, or their statuses. -/
inductive Drained where
  | serversOnSource (host : String) (servers : List String)
  | remainingStatuses (host : String) (statuses : List String)
  deriving DecidableEq, Repr

/-- Poll until no server is left on the host, with the number of attempts left. -/
def awaitGone (host : String) (interval : Int) : Nat → Op Drained
  | 0 => raise (.hostNotEmpty "servers did not leave host before timeout")
  | n + 1 => do
    let remaining ← serversOnHost host
    if remaining.isEmpty then
      pure (.serversOnSource host [])
    else if remaining.any fun item => item.status = some "ERROR" then
      raise (.hostNotEmpty "server migration entered ERROR")
    else do
      sleepBetween n interval
      awaitGone host interval n

/-- Poll until every server on the host is `SHUTOFF`. -/
def awaitStopped (host : String) (interval : Int) : Nat → Op Drained
  | 0 => raise (.hostNotEmpty "servers did not stop before timeout")
  | n + 1 => do
    let remaining ← serversOnHost host
    let statuses := remaining.map Server.statusText
    if statuses.all (· = "SHUTOFF") then
      pure (.remainingStatuses host statuses)
    else if statuses.any (· = "ERROR") then
      raise (.hostNotEmpty "server stop entered ERROR")
    else do
      sleepBetween n interval
      awaitStopped host interval n

def drainHost (host policy : String) (timeout interval : Int) : Op Drained :=
  if policy ∉ instancePolicies then
    raise (.unsupportedInstancePolicy ("unsupported instance policy: " ++ policy))
  else do
    let initial ← serversOnHost host
    if policy = "require_empty" then
      if !initial.isEmpty then
        raise (.hostNotEmpty ("host " ++ host ++ " still has servers"))
      else
        pure (.serversOnSource host [])
    else if policy = "live_migrate" then do
      each Connection.liveMigrateServer initial
      let n ← attempts timeout interval
      awaitGone host interval n
    else do
      each Connection.stopServer initial
      let n ← attempts timeout interval
      awaitStopped host interval n

structure Emptied where
  host : String
  remainingStatuses : List String
  deriving DecidableEq, Repr

def assertHostEmpty (host : String) (allowShutoff : Bool) : Op Emptied := do
  let servers ← serversOnHost host
  let statuses := servers.map Server.statusText
  if !servers.isEmpty && !(allowShutoff && statuses.all (· = "SHUTOFF")) then
    raise (.hostNotEmpty ("host " ++ host ++ " is not safe for power off"))
  else
    pure ⟨host, statuses⟩

/-! ## Power -/

structure PowerResult where
  host : String
  powerState : Option String
  targetPowerState : Option String
  deriving DecidableEq, Repr

/-- The target that is requested: the soft one for `power off` and `rebooting` when asked for. -/
def effectiveTarget (target : String) (soft : Bool) : String :=
  if soft && target == "power off" then "soft power off"
  else if soft && target == "rebooting" then "soft rebooting"
  else target

def requestPower (host target : String) (soft : Bool) : Op PowerResult :=
  if target ∉ powerTargets then
    raise (.unsupportedPowerTarget ("unsupported power target: " ++ target))
  else do
    let node ← ironicNode host
    let effective := effectiveTarget target soft
    if node.powerState = some target ∨ node.targetPowerState = some effective then
      pure ⟨host, node.powerState, node.targetPowerState⟩
    else if truthy node.targetPowerState && node.targetPowerState != some effective then
      raise (.powerTimeout "Ironic Node has a conflicting power target")
    else do
      Connection.setNodePowerState node effective
      pure ⟨host, node.powerState, some effective⟩

/-- The pending targets that a wait for `target` accepts. -/
def compatiblePending (target : String) : List String :=
  if target = "power off" then [target, "soft power off"]
  else if target = "rebooting" then [target, "soft rebooting"]
  else [target]

/-- A pending target that the wait does not accept, on a node that is not at the target. -/
def conflictsWith (target : String) (node : Node) : Bool :=
  truthy node.targetPowerState &&
    !(compatiblePending target).any (fun t => node.targetPowerState = some t) &&
    node.powerState != some target

/-- The loop of `wait_power`, with the number of attempts left and the stable observations. -/
def pollPower (host target : String) (interval stableObservations : Int) :
    Nat → Node → Nat → Op PowerResult :=
  StablePoll.run
    { target := target
      interval := interval
      stableObservations := stableObservations
      conflicting := conflictsWith target
      bmcError := .powerTimeout "BMC reported an error"
      conflict := .powerTimeout "Ironic Node has a conflicting power target"
      timeout := .powerTimeout "power state was not stable before timeout"
      result := fun node _ => ⟨host, node.powerState, node.targetPowerState⟩ }

def waitPower (host target : String) (timeout interval stableObservations : Int) :
    Op PowerResult :=
  if stableObservations < 2 then
    raise (.valueError "stable_observations must be at least 2")
  else do
    let node ← ironicNode host
    let n ← attempts timeout interval
    pollPower host target interval stableObservations n node 0

/-! ## Return to service -/

structure NovaUp where
  host : String
  state : String
  deriving DecidableEq, Repr

/-- The loop of `wait_nova_service`, with the number of attempts left. -/
def pollNova (host : String) (interval : Int) : Nat → Op NovaUp
  | 0 => raise (.hostReturnNotSafe "Nova service did not become up before timeout")
  | n + 1 => do
    let service ← novaService host
    if service.state = some "up" then
      pure ⟨host, "up"⟩
    else do
      sleepBetween n interval
      pollNova host interval n

def waitNovaService (host : String) (timeout interval : Int) : Op NovaUp := do
  let n ← attempts timeout interval
  pollNova host interval n

structure Returned where
  host : String
  ready : Bool
  staleDomainsChecked : Bool
  deriving DecidableEq, Repr

/-- Every required agent is there once and alive. -/
def checkAgents (agents : List Agent) : List String → Op Unit
  | [] => pure ()
  | binary :: binaries =>
    match agents.filter fun item => item.binary = some binary with
    | [agent] =>
      if agent.isAlive = some true then checkAgents agents binaries
      else raise (.hostReturnNotSafe ("required network agent " ++ binary ++ " is not healthy"))
    | _ => raise (.hostReturnNotSafe ("required network agent " ++ binary ++ " is not healthy"))

def verifyHostReturn (requiredNetworkAgents : List String) (host : String)
    (staleDomainsChecked : Value) : Op Returned :=
  if !staleDomainsChecked.truthy then
    raise (.hostReturnNotSafe "stale domain check is required")
  else do
    let named ← ironicNode host
    let node ← Connection.getNode named
    if node.powerState ≠ some "power on" then
      raise (.hostReturnNotSafe "Ironic power on is not confirmed")
    else do
      let service ← novaService host
      if service.state ≠ some "up" then
        raise (.hostReturnNotSafe "Nova service is not up")
      else do
        let agents ← Connection.agents host
        checkAgents agents requiredNetworkAgents
        pure ⟨host, true, true⟩

/-! ## Fail-safe and status -/

structure FailSafe where
  host : String
  novaEnabled : Bool
  onMaintenance : Bool
  deriving DecidableEq, Repr

def failSafeHost (host : String) : Op FailSafe := do
  let _ ← setNovaService host false "PowerOps fail-safe"
  let _ ← setMasakariMaintenance host true
  pure ⟨host, false, true⟩

structure Status where
  host : String
  novaStatus : Option String
  novaState : Option String
  powerState : Option String
  targetPowerState : Option String
  masakariOnMaintenance : Bool
  deriving DecidableEq, Repr

def status (host : String) : Op Status := do
  let service ← novaService host
  let node ← ironicNode host
  let (_, masakari) ← masakariHost host
  pure ⟨host, service.status, service.state, node.powerState, node.targetPowerState,
    masakari.maintained⟩

end Actions
end KollaPowerOps
