import Mathlib.Logic.Function.Basic
import KollaPowerOps.Lib.Linear

/-!
# Etcd.Role

The tasks and handlers of the role `etcd`: the lookup of the cluster, the bootstrap of a new
cluster or of new members, and the restart of the containers.

A handler that includes a file in a loop is one block for each item.
-/

namespace KollaPowerOps
namespace Etcd

open Linear

inductive KollaAction where
  | config | deploy | reconfigure | upgrade
  deriving Repr, DecidableEq

/-- What the handlers listen to. -/
inductive Topic where
  | restartContainer
  | bootstrapServices
  | bootstrapCluster
  deriving Repr, DecidableEq

/-- A member as `ETCD_INITIAL_CLUSTER` lists it: its name and its peer URL. -/
abbrev Member := String × String

inductive ClusterState where
  | new | existing
  deriving Repr, DecidableEq

/-- A container started with a bootstrap environment, and the members the cluster had then. -/
structure Bootstrap (H : Type) where
  host : H
  initialClusterState : ClusterState
  initialCluster : List Member
  registered : List Member

/-- The variables of the play, and what its tasks find on the hosts. -/
structure Setup (H : Type) where
  action : KollaAction
  /-- the group `etcd` -/
  etcd : List H
  hostname : H → String
  /-- the API address, as it stands in a URL -/
  address : H → String
  protocol : String := "http"
  peerPort : Nat := 2380
  /-- the volume `kolla_etcd` existed -/
  volume : H → Bool
  /-- the container is missing, or differs from what is to be deployed -/
  differs : H → Bool
  leader : H

structure State (H : Type) where
  volumeChanged : H → Bool := fun _ => false
  /-- the groups `etcd_had_volume_True` and `etcd_had_volume_False` -/
  hadVolume : Groups Bool H := .none
  clusterExists : H → Bool := fun _ => false
  notified : Notices Topic H := .none
  /-- the member that answered, and the leader it knows -/
  endpointStatus : H → Option (H × H) := fun _ => none
  /-- the groups `etcd_is_leader_True` and `etcd_is_leader_False` -/
  isLeader : Groups Bool H := .none
  up : H → Bool
  members : List Member
  bootstrapped : List (Bootstrap H) := []

variable {H : Type} [DecidableEq H]

namespace State

def notify (s : State H) (topic : Topic) (h : H) : State H :=
  { s with notified := s.notified.notify topic h }

@[simp] theorem notified_notify (s : State H) (topic : Topic) (h : H) :
    (s.notify topic h).notified = s.notified.notify topic h := rfl

def setUp (s : State H) (h : H) (b : Bool) : State H := { s with up := Function.update s.up h b }

@[simp] theorem setUp_self (s : State H) (h : H) (b : Bool) : (s.setUp h b).up h = b :=
  Function.update_self ..

theorem setUp_of_ne (s : State H) {h x : H} (hne : x ≠ h) (b : Bool) :
    (s.setUp h b).up x = s.up x := Function.update_of_ne hne ..

end State

variable (e : Setup H)

def Setup.member (h : H) : Member :=
  (e.hostname h, e.protocol ++ "://" ++ e.address h ++ ":" ++ toString e.peerPort)

/-! ## Tasks -/

/-- `service-check-containers`. -/
def checkContainers : Task H (State H) where
  run h s := if e.differs h then s.notify .restartContainer h else s

theorem checkContainers_hadVolume (h : H) (s : State H) :
    ((checkContainers e).run h s).hadVolume = s.hadVolume := by
  rw [checkContainers]
  dsimp only
  split <;> rfl

/-- `lookup_cluster.yml`. -/
def lookupCluster : List (Task H (State H)) := [
  { run := fun h s => { s with volumeChanged := Function.update s.volumeChanged h !e.volume h } },
  { run := fun h s => { s with hadVolume := s.hadVolume.add (!s.volumeChanged h) h } },
  { run := fun h s =>
      { s with clusterExists := Function.update s.clusterExists h (s.hadVolume true != []) } }]

/-- The tasks of `bootstrap.yml` that notify the bootstrap handlers. -/
def determineBootstrap : List (Task H (State H)) := [
  { when := fun s h => !s.clusterExists h,
    run := fun h s => s.notify .bootstrapCluster h },
  { when := fun s h => s.clusterExists h && s.hadVolume false != [],
    run := fun h s => s.notify .bootstrapServices h }]

/-- `deploy.yml`, `reconfigure.yml` or `upgrade.yml`, up to the handlers. -/
def tasks : List (Task H (State H)) :=
  match e.action with
  | .config => []
  | .upgrade => [checkContainers e]
  | _ => checkContainers e :: (lookupCluster e ++ determineBootstrap)

/-! ## What the handlers include -/

/-- The start of a container with a bootstrap environment. -/
def startBootstrap (state : ClusterState) (initialCluster : H → State H → List Member) :
    Task H (State H) where
  run h s := { s with bootstrapped :=
    s.bootstrapped ++ [⟨h, state, initialCluster h s, s.members⟩] }

/-- A container that answers on the client port, or is healthy. -/
def waitUp : Task H (State H) where
  run h s := s.setUp h true

/-- `ETCD_INITIAL_CLUSTER` of `etcd_bootstrap_cluster_environment`. -/
def bootstrapClusterMembers (_ : H) (_ : State H) : List Member := e.etcd.map e.member

/-- `ETCD_INITIAL_CLUSTER` of `etcd_bootstrap_service_environment`. -/
def bootstrapServiceMembers (h : H) (s : State H) : List Member :=
  (s.hadVolume true).map e.member ++ [e.member h]

/-- `bootstrap_cluster.yml`. -/
def bootstrapCluster : List (Task H (State H)) :=
  [startBootstrap .new (bootstrapClusterMembers e), waitUp]

/-- `bootstrap_services.yml`. -/
def bootstrapServices : List (Task H (State H)) :=
  [{ run := fun h s => { s with members := s.members ++ [e.member h] } },
    startBootstrap .existing (bootstrapServiceMembers e), waitUp]

/-- The first two tasks of `lookup_leader.yml`. Without an answer the member is `''` and the leader
`'none'`. -/
def lookupLeader : List (Task H (State H)) := [
  { when := fun s h => (s.hadVolume true).contains h,
    run := fun h s =>
      { s with endpointStatus := Function.update s.endpointStatus h (some (h, e.leader)) } },
  { run := fun h s =>
      let key := (s.endpointStatus h).any fun (member, leader) => member == leader
      { s with isLeader := s.isLeader.add key h } }]

/-- `restart_services.yml`: the restart, and the waits for the port and for the health of the
endpoint. -/
def restartServices : List (Task H (State H)) :=
  [{ run := fun h s => s.setUp h false }, { run := fun _ s => s }, waitUp]

/-! ## `handlers/main.yml` -/

/-- A handler runs on the hosts that notified something it listens to. -/
def handler (listen : List Topic) (when : State H → H → Bool) (tasks : List (Task H (State H))) :
    Block H (State H) where
  when s h := (listen.any fun topic => s.notified topic h) && when s h
  tasks := tasks

def anyTopic : List Topic := [.restartContainer, .bootstrapServices, .bootstrapCluster]

/-- `Upgrade etcd non-leaders`, `Rolling restart of etcd non-leaders` and `Restart etcd leader`. -/
def restartHandlers : List (Block H (State H)) :=
  -- the condition does not mention the item of the loop
  e.etcd.map (fun _ => handler [.restartContainer]
    (fun s h => !(s.isLeader true).contains h && e.action == .upgrade) restartServices) ++
  ([0, 1, 2, 3].map (fun item => handler anyTopic
    (fun s h => !(s.isLeader true).contains h && e.etcd.idxOf h % 4 == item &&
      e.action != .upgrade) restartServices) ++
  [handler anyTopic (fun s h => (s.isLeader true).contains h) restartServices])

def handlers : List (Block H (State H)) :=
  handler [.bootstrapCluster] (fun _ _ => e.action != .config) (bootstrapCluster e) ::
  handler anyTopic (fun _ _ => true) (lookupLeader e) ::
  handler [.bootstrapServices]
    (fun s h => s.hadVolume false != [] && (s.hadVolume false).contains h && e.action != .config)
    (bootstrapServices e) ::
  restartHandlers e

theorem restartHandlers_tasks {b : Block H (State H)} (hb : b ∈ restartHandlers e) :
    b.tasks = restartServices := by
  rcases List.mem_append.mp hb with hb | hb
  · obtain ⟨_, _, rfl⟩ := List.mem_map.mp hb
    rfl
  rcases List.mem_append.mp hb with hb | hb
  · obtain ⟨_, _, rfl⟩ := List.mem_map.mp hb
    rfl
  · rw [List.mem_singleton.mp hb]
    rfl

/-! ## What the lookup finds -/

variable {e} in
theorem lookupCluster_leads {Mid : State H → Prop} {hosts : List H} (hhosts : hosts.Nodup)
    {s : State H} (hnone : s.hadVolume = .none)
    (hmid : ∀ f g found,
      Mid { s with volumeChanged := f, hadVolume := g, clusterExists := found }) :
    Leads Mid (lookupCluster e) ⟨hosts, s⟩ fun p => ∃ f g found, p = ⟨hosts,
      { s with volumeChanged := f, hadVolume := g, clusterExists := found }⟩ ∧
        (∀ key, (g key).Perm (hosts.filter fun h => e.volume h == key)) ∧
        ∀ h ∈ hosts, found h = (g true != []) := by
  rw [lookupCluster]
  refine leads_register (w := fun f => { s with volumeChanged := f }) (v := fun h => !e.volume h)
    (fun _ _ => rfl) hhosts rfl (fun _ _ _ => rfl) (fun f _ => hmid f _ _) fun f hf _ => ?_
  rw [Task.selected_all _ fun _ _ => rfl] at hf
  refine leads_group_perm (w := fun g => { s with volumeChanged := f, hadVolume := g })
    (k := fun h => !f h) (fun _ _ => rfl) hhosts rfl (fun _ _ _ => rfl)
    (fun g _ => hmid f g _) fun g hg => ?_
  rw [Task.selected_all _ fun _ _ => rfl] at hg
  refine leads_register (w := fun found =>
      { s with volumeChanged := f, hadVolume := g, clusterExists := found })
    (v := fun _ => g true != []) (fun _ _ => rfl) hhosts rfl (fun _ _ _ => rfl)
    (fun found _ => hmid f g found) fun found hfound _ =>
      leads_nil ⟨f, g, found, rfl, fun key => ?_, ?_⟩
  · have hkey : ∀ h ∈ hosts, decide ((!f h) = key) = (e.volume h == key) := by
      intro h hh
      rw [hf h hh, Bool.not_not]
      rfl
    have hperm := hg key
    rwa [hnone, List.filter_congr hkey] at hperm
  · rwa [Task.selected_all _ fun _ _ => rfl] at hfound

/-- The play on some hosts of the group, whose members are up. -/
def start (hosts : List H) : Play H (State H) where
  active := hosts
  state := { up := e.volume, members := (e.etcd.filter e.volume).map e.member }

/-- What holds at every moment of the role's run. -/
def Throughout (hosts : List H) (Safe : State H → Prop) : Prop :=
  Always (fun p => Safe p.state) (tasks e) (handlers e) (start e hosts)

end Etcd
end KollaPowerOps
