import Mathlib.Logic.Function.Basic
import KollaPowerOps.Lib.Rolling

/-!
# Mariadb.Role

The tasks and handlers of the role `mariadb` outside a recovery: the lookup of the cluster of every
shard, its bootstrap, and the groups of hosts to be restarted or started afterwards. The play
`Restart mariadb services` takes its hosts from the first of these groups.
-/

namespace KollaPowerOps
namespace Mariadb

open Linear

variable {H S : Type} [DecidableEq H] [DecidableEq S]

inductive Topic where
  | bootstrapCluster
  | restartContainer
  deriving Repr, DecidableEq

/-- The variables of the play, and what its tasks find on the hosts. -/
structure Setup (H S : Type) where
  /-- the group `mariadb` -/
  mariadb : List H
  /-- `mariadb_shard_group` -/
  shard : H → S
  /-- the volume `mariadb` existed -/
  volume : H → Bool
  /-- the port answers with the banner of MariaDB -/
  alive : H → Bool
  /-- the answer to the query for `wsrep_local_state_comment` -/
  wsrep : H → Option String
  /-- the container is missing, or differs from what is to be deployed -/
  differs : H → Bool

structure State (H S : Type) where
  volumeChanged : H → Bool := fun _ => false
  /-- the groups `{{ mariadb_shard_group }}_had_volume_True` and `_False` -/
  hadVolume : Groups (S × Bool) H := .none
  clusterExists : H → Bool := fun _ => false
  /-- the groups `{{ mariadb_shard_group }}_port_alive_True` and `_False` -/
  portAlive : Groups (S × Bool) H := .none
  syncStatus : H → Option String := fun _ => none
  /-- the groups `{{ mariadb_shard_group }}_sync_status_{{ mariadb_sync_status }}` -/
  synced : Groups (S × String) H := .none
  notified : Notices Topic H := .none
  bootstrapHost : H → Option H := fun _ => none
  /-- the groups `mariadb_bootstrap_restart`, `mariadb_restart` and `mariadb_start` -/
  bootstrapRestart : List H := []
  restart : List H := []
  start : List H := []
  /-- the hosts where a container was started with `--wsrep-new-cluster` -/
  newCluster : List H := []
  up : H → Bool

namespace State

def notify (s : State H S) (topic : Topic) (h : H) : State H S :=
  { s with notified := s.notified.notify topic h }

def setUp (s : State H S) (h : H) (b : Bool) : State H S :=
  { s with up := Function.update s.up h b }

end State

variable (e : Setup H S)

/-- `main.yml` adds every host of `mariadb` to the group of its shard, in the play or not. -/
def Setup.members (k : S) : List H := e.mariadb.filter fun h => e.shard h = k

/-- Groups list a host once, so two of them are equal when sorted if they have the same hosts. -/
def sameHosts (l l' : List H) : Bool := l.all l'.contains && l'.all l.contains

/-- `service-check-containers`. -/
def checkContainers : Task H (State H S) where
  run h s := if e.differs h then s.notify .restartContainer h else s

/-- The tasks of `lookup_cluster.yml` that look for volumes. -/
def lookupVolumes : List (Task H (State H S)) := [
  { run := fun h s => { s with volumeChanged := Function.update s.volumeChanged h !e.volume h } },
  { run := fun h s => { s with hadVolume := s.hadVolume.add (e.shard h, !s.volumeChanged h) h } },
  { run := fun h s =>
      let exists_ := s.hadVolume (e.shard h, true) != []
      { s with clusterExists := Function.update s.clusterExists h exists_ } }]

/-- The liveness of the port, and `Fail on existing but stopped cluster`. -/
def lookupLiveness : List (Task H (State H S)) := [
  { run := fun h s => { s with portAlive := s.portAlive.add (e.shard h, e.alive h) h } },
  { run := fun _ s => s,
    succeeds := fun s h => !(decide ((e.members (e.shard h)).length > 1) && s.clusterExists h &&
      s.portAlive (e.shard h, true) == []) }]

/-- The group `{{ mariadb_shard_group }}_port_alive_True` (or `False`) is defined and has the
host. -/
def inPortAlive (b : Bool) (s : State H S) (h : H) : Bool :=
  s.portAlive (e.shard h, b) != [] && (s.portAlive (e.shard h, b)).contains h

/-- `Check MariaDB service WSREP sync status`. -/
def checkSyncStatus : Task H (State H S) where
  when := inPortAlive e true
  run _ s := s
  succeeds _ h := (e.wsrep h).isSome

/-- `Extract MariaDB service WSREP sync status`. -/
def extractSyncStatus : Task H (State H S) where
  when := inPortAlive e true
  run h s := { s with syncStatus := Function.update s.syncStatus h (e.wsrep h) }

/-- The hosts of the shard that are alive are asked for their status, and
`Fail when MariaDB services are not synced across the whole cluster`. -/
def lookupSync : List (Task H (State H S)) := [
  checkSyncStatus e,
  extractSyncStatus e,
  { run := fun h s =>
      { s with synced := s.synced.add (e.shard h, (s.syncStatus h).getD "NA") h } },
  { run := fun _ s => s,
    succeeds := fun s h => !(s.portAlive (e.shard h, true) != [] &&
      (s.synced (e.shard h, "Synced") == [] ||
        !sameHosts (s.portAlive (e.shard h, true)) (s.synced (e.shard h, "Synced")))) }]

/-- `deploy.yml` up to the bootstrap. -/
def tasks : List (Task H (State H S)) :=
  checkContainers e :: (lookupVolumes e ++ lookupLiveness e ++ lookupSync e)

/-- `bootstrap_cluster.yml`. -/
def bootstrapCluster : Block H (State H S) where
  when s h := !s.clusterExists h && (e.members (e.shard h)).head? == some h
  tasks := [
    { run := fun h s => s.notify .bootstrapCluster h },
    { run := fun h s => { s with bootstrapHost := Function.update s.bootstrapHost h (some h) } }]

def handler (topic : Topic) (t : Task H (State H S)) : Block H (State H S) where
  when s h := s.notified topic h
  tasks := [t]

/-- `Starting first MariaDB container`. -/
def startingFirst : Task H (State H S) where
  run h s := { s with newCluster := s.newCluster ++ [h] }

/-- `Ensure MariaDB is running normally on bootstrap host`. -/
def groupBootstrapRestart : Task H (State H S) where
  run h s := { s with bootstrapRestart := s.bootstrapRestart ++ [h] }

/-- `Restart MariaDB on existing cluster members`. -/
def groupRestart : Task H (State H S) where
  when := inPortAlive e true
  run h s := { s with restart := s.restart ++ [h] }

/-- `Start MariaDB on new nodes`. -/
def groupStart : Task H (State H S) where
  when s h := (s.bootstrapHost h).all (· != h) && inPortAlive e false s h
  run h s := { s with start := s.start ++ [h] }

def handlers : List (Block H (State H S)) := [
  handler .bootstrapCluster startingFirst,
  -- the waits for the port and for the sync
  handler .bootstrapCluster { run := fun h s => s.setUp h true },
  handler .bootstrapCluster groupBootstrapRestart,
  handler .restartContainer (groupRestart e),
  handler .restartContainer (groupStart e)]

/-- The play `Apply role mariadb` on some hosts of the group. -/
def startPlay (hosts : List H) : Play H (State H S) where
  active := hosts
  state := { up := e.alive }

/-- What holds at every moment of the role's run. -/
def Throughout (hosts : List H) (Safe : State H S → Prop) : Prop :=
  Always (fun p => Safe p.state) (tasks e) (bootstrapCluster e :: handlers e) (startPlay e hosts)

/-! ## Restart mariadb services -/

/-- `Restart MariaDB container`, while it is down. -/
def restartContainer : Task H (State H S) where
  run h s := s.setUp h false

/-- `Wait for MariaDB service port liveness`. -/
def waitPort : Task H (State H S) where
  run _ s := s

/-- `Wait for MariaDB service to sync WSREP`. -/
def waitSync : Task H (State H S) where
  when s h := !s.clusterExists h || inPortAlive e true s h
  run h s := s.setUp h true

def restartServices : List (Task H (State H S)) :=
  restartContainer :: [waitPort] ++ [waitSync e]

/-- `33%` of the hosts of a play. -/
def batchSize (n : Nat) : Nat := max 1 (33 * n / 100)

def restartPlay (s : State H S) : List (Block H (State H S)) :=
  serial (batchSize s.restart.length) s.restart (restartServices e)

end Mariadb
end KollaPowerOps
