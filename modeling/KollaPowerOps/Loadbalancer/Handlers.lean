import Mathlib.Logic.Function.Basic
import KollaPowerOps.Lib.Linear
import KollaPowerOps.Lib.WordSearch

/-!
# Loadbalancer.Handlers

The handlers of the role `loadbalancer`: which host is the master, the restart of the backups, and
then that of the master.
-/

namespace KollaPowerOps
namespace Loadbalancer

open Linear WordSearch

variable {H A : Type} [DecidableEq H]

inductive Service where
  | haproxy
  | proxysql
  | keepalived
  deriving Repr, DecidableEq

/-- What the handlers listen to. -/
inductive Topic where
  /-- `Restart haproxy container`, and the same of the other services -/
  | restart (service : Service)
  /-- `Wait for backup haproxy to start`, or of the master, and the same for proxysql -/
  | waitStart (master : Bool) (service : Service)
  /-- `Wait for virtual IP to appear` -/
  | waitVip
  deriving Repr, DecidableEq

/-- The word characters of a regular expression, for the output of a command. -/
def isWord (c : Char) : Bool := c.isAlphanum || c == '_'

/-- The variables of the play, what the commands print, and which steps succeed. -/
structure Setup (H A : Type) where
  loadbalancer : List H
  /-- `kolla_action` is `config` -/
  config : Bool
  /-- `kolla_internal_vip_address`, and the address it stands for -/
  vipText : List Char
  vip : A
  /-- the addresses on the API interface of a host -/
  addresses : H → List A
  /-- an address as `ip` prints it -/
  shown : A → List Char
  /-- the rest of a line, before the address and after its slash -/
  lead : H → List Char
  rest : H → List Char
  /-- `Restart haproxy container`, and the same of the other services, is notified -/
  restarted : Service → H → Bool
  enabled : Service → Bool
  /-- the step that starts the container succeeds -/
  starts : Service → H → Bool
  /-- the step that waits for the service succeeds -/
  answers : Service → H → Bool
  /-- the step that waits for the service on the internal VIP succeeds -/
  answersVip : Service → H → Bool
  vipText_ne : vipText ≠ []
  vipText_plain : ' ' ∉ vipText ∧ '/' ∉ vipText ∧ '\n' ∉ vipText
  /-- nothing but an address can look like the VIP -/
  lead_quiet : ∀ h, shows isWord vipText (lead h) = false
  rest_quiet : ∀ h, shows isWord vipText (rest h) = false

structure State (H : Type) where
  ipAddrOutput : H → List Char := fun _ => []
  /-- the groups `kolla_ha_is_master_True` and `_False` -/
  isMaster : Groups Bool H := .none
  notified : Notices Topic H
  /-- the handlers have stopped the container and not started it again -/
  stopped : Service → H → Bool := fun _ _ => false
  /-- the container is started and not known to answer -/
  waiting : Service → H → Bool := fun _ _ => false

def State.setStopped (s : State H) (service : Service) (h : H) (b : Bool) : State H :=
  { s with stopped := Function.update s.stopped service (Function.update (s.stopped service) h b) }

def State.setWaiting (s : State H) (service : Service) (h : H) (b : Bool) : State H :=
  { s with waiting := Function.update s.waiting service (Function.update (s.waiting service) h b) }

/-- The group is defined and has the host. -/
def inGroup (master : Bool) (s : State H) (h : H) : Bool :=
  s.isMaster master != [] && (s.isMaster master).contains h

variable (e : Setup H A)

/-- `ip -o addr show`, an address a line. -/
def ipAddrShow (h : H) : List Char :=
  ['\n'].intercalate ((e.addresses h).map fun a => e.lead h ++ ' ' :: (e.shown a ++ '/' :: e.rest h))

def handler (topics : List Topic) (t : Task H (State H)) : Block H (State H) where
  when s h := topics.any fun topic => s.notified topic h
  tasks := [t]

def restarts (services : List Service) : List Topic := services.map .restart

/-- `Check IP addresses on the API interface`. -/
def checkAddresses : Block H (State H) :=
  handler (restarts [.haproxy, .proxysql, .keepalived]) {
    when := fun _ _ => !e.config
    run := fun h s =>
      { s with ipAddrOutput := Function.update s.ipAddrOutput h (ipAddrShow e h) } }

/-- `Group HA nodes by status`. -/
def groupByStatus : Block H (State H) :=
  handler (restarts [.haproxy, .proxysql, .keepalived]) {
    when := fun _ _ => !e.config
    run := fun h s =>
      { s with isMaster := s.isMaster.add (shows isWord e.vipText (s.ipAddrOutput h)) h } }

/-- The handlers that stop a container, on the backups or on the master. -/
def stopContainer (master : Bool) (service : Service) (listen : List Service) :
    Block H (State H) :=
  handler (restarts listen) {
    when := fun s h => !e.config && inGroup master s h
    run := fun h s => s.setStopped service h true }

def stopBackupKeepalived : Block H (State H) := stopContainer e false .keepalived [.keepalived]

def stopBackupHaproxy : Block H (State H) := stopContainer e false .haproxy [.haproxy, .keepalived]

def stopBackupProxysql : Block H (State H) :=
  stopContainer e false .proxysql [.haproxy, .proxysql, .keepalived]

def stopMasterHaproxy : Block H (State H) := stopContainer e true .haproxy [.haproxy, .keepalived]

def stopMasterProxysql : Block H (State H) :=
  stopContainer e true .proxysql [.proxysql, .keepalived]

def stopMasterKeepalived : Block H (State H) := stopContainer e true .keepalived [.keepalived]

/-- The file waits for a service that was started; for keepalived it waits for the VIP. -/
def awaited : Service → Bool
  | .keepalived => false
  | _ => true

/-- The handlers that start a container. -/
def startContainer (master : Bool) (service : Service) (listen : List Service) (notify : Topic) :
    Block H (State H) :=
  handler (restarts listen) {
    when := fun s h => !e.config && inGroup master s h && e.enabled service
    run := fun h s =>
      if e.starts service h then
        { (s.setStopped service h false).setWaiting service h (awaited service) with
          notified := s.notified.notify notify h }
      else s
    succeeds := fun _ h => e.starts service h }

/-- The handlers that wait for a service; on a backup, a failure stops the play. -/
def waitStart (master : Bool) (service : Service) : Block H (State H) :=
  handler [.waitStart master service] {
    run := fun h s => if e.answers service h then s.setWaiting service h false else s
    succeeds := fun _ h => e.answers service h
    anyErrorsFatal := !master }

def startBackupHaproxy : Block H (State H) :=
  startContainer e false .haproxy [.haproxy, .keepalived] (.waitStart false .haproxy)

def startBackupProxysql : Block H (State H) :=
  startContainer e false .proxysql [.haproxy, .proxysql, .keepalived] (.waitStart false .proxysql)

def startBackupKeepalived : Block H (State H) :=
  startContainer e false .keepalived [.keepalived] .waitVip

def startMasterHaproxy : Block H (State H) :=
  startContainer e true .haproxy [.haproxy, .keepalived] (.waitStart true .haproxy)

def startMasterProxysql : Block H (State H) :=
  startContainer e true .proxysql [.proxysql, .keepalived] (.waitStart true .proxysql)

def startMasterKeepalived : Block H (State H) :=
  startContainer e true .keepalived [.keepalived] .waitVip

/-- `Wait for haproxy to listen on VIP`, or proxysql. -/
def waitVip (service : Service) : Block H (State H) :=
  handler [.waitVip] {
    when := fun _ _ => e.enabled service
    run := fun _ s => s
    succeeds := fun _ h => e.answersVip service h }

def backupHandlers : List (Block H (State H)) :=
  [stopBackupKeepalived e, stopBackupHaproxy e, stopBackupProxysql e,
    startBackupHaproxy e, waitStart e false .haproxy,
    startBackupProxysql e, waitStart e false .proxysql, startBackupKeepalived e]

def masterHandlers : List (Block H (State H)) :=
  [stopMasterHaproxy e, stopMasterProxysql e, stopMasterKeepalived e,
    startMasterHaproxy e, waitStart e true .haproxy,
    startMasterProxysql e, waitStart e true .proxysql, startMasterKeepalived e,
    waitVip e .haproxy, waitVip e .proxysql]

def handlers : List (Block H (State H)) :=
  [checkAddresses e, groupByStatus e] ++ (backupHandlers e ++ masterHandlers e)

/-- The play when its handlers are flushed. -/
def flush : Play H (State H) where
  active := e.loadbalancer
  state := { notified := fun topic h => match topic with
    | .restart service => e.restarted service h
    | _ => false }

/-- What holds at every moment while the handlers run. -/
def Throughout (Safe : State H → Prop) : Prop :=
  Always (fun p => Safe p.state) [] (handlers e) (flush e)

end Loadbalancer
end KollaPowerOps
