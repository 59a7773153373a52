import Mathlib.Logic.Function.Basic
import KollaPowerOps.Lib.Linear

/-!
# Ovn.Role

The tasks of the role `ovn-db` for the northbound and the southbound database: the lookup of their
clusters, the bootstrap of hosts without a volume, and the start of the containers.
-/

namespace KollaPowerOps
namespace Ovn

open Linear

variable {H : Type} [DecidableEq H]

/-- The groups `ovn-nb-db` and `ovn-sb-db`, with their services. -/
inductive Db where
  | nb
  | sb
  deriving Repr, DecidableEq

/-- The variables of the play, and what its tasks find on the hosts. -/
structure Setup (H : Type) where
  group : Db → List H
  /-- the volume `ovn_nb_db` or `ovn_sb_db` is there -/
  volume : Db → H → Bool
  /-- the port of the database answers -/
  alive : Db → H → Bool
  /-- the database says that it leads, or follows; nothing when the query fails -/
  leader : Db → H → Option Bool
  /-- the container differs from what is to be deployed -/
  differs : Db → H → Bool
  /-- the remote address in the command of the container -/
  running : Db → H → Option H

/-- What the tasks know of a database and its containers. -/
structure DbState (H : Type) where
  /-- the groups `_had_volume_True` and `_False` -/
  hadVolume : Groups Bool H := .none
  clusterExists : H → Bool := fun _ => false
  /-- the groups `_leader` and `_follower` -/
  role : Groups Bool H := .none
  /-- `ovn_nb_db_bootstrap_args`, or those for `sb`: the host of the remote address -/
  bootstrapArgs : H → Option H := fun _ => none
  /-- the same in the command of `config.json` -/
  command : H → Option H := fun _ => none
  /-- `Restart ovn-nb-db container`, or the handler for `sb` -/
  notified : H → Bool := fun _ => false
  volume : H → Bool
  running : H → Option H
  /-- the hosts where a container was started without a volume and without a remote address -/
  newCluster : List H := []

abbrev State (H : Type) := Db → DbState H

def State.modify (s : State H) (db : Db) (f : DbState H → DbState H) : State H :=
  Function.update s db (f (s db))

variable (e : Setup H)

/-! ## lookup_cluster.yml -/

/-- The host is in one of the groups. -/
def Setup.examined (h : H) : Bool := (e.group .nb).contains h || (e.group .sb).contains h

def divideByVolume (db : Db) : Task H (State H) where
  run h s := s.modify db fun d => { d with hadVolume := d.hadVolume.add (e.volume db h) h }

def establishCluster (db : Db) : Task H (State H) where
  run h s := s.modify db fun d =>
    { d with clusterExists := Function.update d.clusterExists h (d.hadVolume true != []) }

/-- `Check if running on all OVN NB DB hosts`, or SB. -/
def checkAllHosts (batch : List H) (db : Db) : Task H (State H) where
  run _ s := s
  succeeds s h := !((s db).clusterExists h && (e.group db).any fun x => !batch.contains x)
  anyErrorsFatal := true

/-- `Get OVN NB database information`, or SB. -/
def getInformation (db : Db) : Task H (State H) where
  when _ h := e.alive db h
  run _ s := s
  succeeds _ h := (e.leader db h).isSome
  anyErrorsFatal := true

def divideByRole (db : Db) : Task H (State H) where
  when _ h := e.alive db h
  run h s := s.modify db fun d => { d with role := d.role.add (e.leader db h == some true) h }

/-- `Fail on existing OVN NB cluster with no leader`, or SB. -/
def failNoLeader (db : Db) : Task H (State H) where
  run _ s := s
  succeeds s _ := !((s db).role true == [] && (s db).role false != [])
  anyErrorsFatal := true

/-- `OVN NB checks`, or SB. The liveness of the port raises no error. -/
def checks (batch : List H) (db : Db) : List (Task H (State H)) :=
  [checkAllHosts e batch db, getInformation e db, divideByRole e db, failNoLeader db].map
    (Task.within · fun s h => ((s db).hadVolume true).contains h)

def lookupCluster (batch : List H) : Block H (State H) where
  when _ h := e.examined h
  tasks := [divideByVolume e .nb, divideByVolume e .sb, establishCluster .nb, establishCluster .sb] ++
    (checks e batch .nb ++ checks e batch .sb)

/-! ## The containers -/

def copyConfig : Task H (State H) where
  run h s db :=
    if (e.group db).contains h then
      { s db with command := Function.update (s db).command h ((s db).bootstrapArgs h) }
    else s db

/-- `service-check-containers`. There is no container where there is no volume. -/
def checkContainers : Task H (State H) where
  run h s db :=
    if (e.group db).contains h && (!(s db).volume h || e.differs db h ||
        (s db).running h != (s db).command h) then
      { s db with notified := Function.update (s db).notified h true }
    else s db

/-- `Restart ovn-nb-db container`, or SB. -/
def restart (db : Db) : Task H (State H) where
  when s h := (s db).notified h
  run h s := s.modify db fun d =>
    { d with
      notified := Function.update d.notified h false
      volume := Function.update d.volume h true
      running := Function.update d.running h (d.command h)
      newCluster := if !d.volume h && d.command h == none then d.newCluster ++ [h]
        else d.newCluster }

/-- The configuration is copied, the containers are checked, and the handlers flushed. -/
def startContainers : List (Task H (State H)) :=
  [copyConfig e, checkContainers e, restart .nb, restart .sb]

/-! ## bootstrap-initial.yml -/

/-- `Set bootstrap args fact for NB (new cluster)`, or SB. -/
def newClusterArgs (db : Db) : Task H (State H) where
  when s _ := (s db).role true == [] && (s db).role false == []
  run h s := s.modify db fun d =>
    let remote := if (e.group db).length > 1 ∧ (e.group db).head? ≠ some h then (e.group db).head?
      else none
    { d with bootstrapArgs := Function.update d.bootstrapArgs h remote }

/-- `Set bootstrap args fact for NB (new member)`, or SB. -/
def newMemberArgs (db : Db) : Task H (State H) where
  when s h := ((s db).hadVolume false).contains h && (s db).role true != []
  run h s := s.modify db fun d =>
    { d with bootstrapArgs := Function.update d.bootstrapArgs h (d.role true).head? }

/-- `Unset bootstrap args fact`. -/
def unsetArgs : Task H (State H) where
  run h s db := { s db with bootstrapArgs := Function.update (s db).bootstrapArgs h none }

def bootstrapInitial : Block H (State H) where
  when s h := ((s .nb).hadVolume false).contains h || ((s .sb).hadVolume false).contains h
  tasks := [newClusterArgs e .nb, newClusterArgs e .sb, newMemberArgs .nb, newMemberArgs .sb] ++
    (startContainers e ++ [unsetArgs])

/-! ## deploy.yml -/

def deploy (batch : List H) : List (Block H (State H)) :=
  [lookupCluster e batch, bootstrapInitial e, { tasks := startContainers e }]

/-- A database before the deploy. -/
def initial (db : Db) : DbState H where
  volume := e.volume db
  running := e.running db

/-- The play on some hosts of its groups. -/
def startPlay (hosts : List H) : Play H (State H) where
  active := hosts
  state db := initial e db

/-- What holds at every moment of the deploy. -/
def Throughout (hosts : List H) (Safe : State H → Prop) : Prop :=
  Always (fun p => Safe p.state) [] (deploy e hosts) (startPlay e hosts)

end Ovn
end KollaPowerOps
