import KollaPowerOps.Lib.PyMapping
import KollaPowerOps.Lib.Table
import KollaPowerOps.Declared.NodePlan

/-!
# Declared.NodeStore

An Ironic that applies what it is given, and where reconciliations of a node lead in it.

* `Ironic.Sound`    : ids are unique, and what is stored is JSON, which reads back as itself.
* `StoreStep`       : a call is answered after exactly the given attributes were applied.
* `settle`          : a node with the attributes of its specification.
* `Settled`         : the node and the ports of the specification are there.
* `reconcile_settles` : a successful run leaves Ironic settled, and everything undeclared alone.
* `reconcile_settled` : on a settled Ironic a run changes nothing.
-/

namespace KollaPowerOps
namespace Declared

open Effect IronicNode
open Value (Readable DistinctKeys WellFormed getKey entry scalarEq)

/-! ## The store -/

/-- `update_node` applies the given attributes and leaves the others. -/
def IronicNode.NodeUpdates.apply (updates : NodeUpdates) (node : ManagedNode) : ManagedNode :=
  { node with
    driver := updates.driver.or node.driver
    networkInterface := updates.networkInterface.or node.networkInterface
    driverInfo := updates.driverInfo.getD node.driverInfo
    extra := updates.extra.getD node.extra }

/-- What a provision transition leaves of a node. -/
structure SameSettings (node node' : ManagedNode) : Prop where
  id : node'.id = node.id
  name : node'.name = node.name
  driver : node'.driver = node.driver
  networkInterface : node'.networkInterface = node.networkInterface
  driverInfo : node'.driverInfo = node.driverInfo
  extra : node'.extra = node.extra

abbrev nodeId (node : ManagedNode) : String := node.id

/-- Ironic with one node replaced. -/
def Ironic.put (w : Ironic) (node : ManagedNode) : Ironic :=
  { w with nodes := Table.put nodeId node w.nodes }

/-- Ids are unique, and the values are JSON: each equals itself, and a mapping has it under its
key. -/
structure Ironic.Sound (w : Ironic) : Prop where
  nodeIds : (w.nodes.map nodeId).Nodup
  portIds : (w.ports.map IronicPort.id).Nodup
  infos : ∀ node ∈ w.nodes, Readable node.driverInfo
  networks : ∀ port ∈ w.ports, port.physicalNetwork.eq port.physicalNetwork = true

/-- The answer of a call, and the state after it. The transition `manage` ends in `manageable`. -/
def Ironic.Stores (w : Ironic) : {τ : Type} → BaremetalCall τ → τ → Ironic → Prop
  | _, .nodes, nodes, w' => nodes = w.nodes ∧ w' = w
  | _, .ports, ports, w' => ports = w.ports ∧ w' = w
  | _, .createNode name driver info network extra, node, w' =>
    (node.name = some name ∧ node.driver = some driver ∧ node.networkInterface = some network ∧
      node.driverInfo = info ∧ node.extra = extra ∧ node.provisionState = some "enroll") ∧
      (∀ other ∈ w.nodes, other.id ≠ node.id) ∧ w' = { w with nodes := w.nodes ++ [node] }
  | _, .updateNode node updates, node', w' =>
    ∃ stored ∈ w.nodes, stored.id = node.id ∧ node' = updates.apply stored ∧ w' = w.put node'
  | _, .setNodeProvisionState node target _, node', w' =>
    ∃ stored ∈ w.nodes, stored.id = node.id ∧ SameSettings stored node' ∧
      (target = "manage" → node'.provisionState = some "manageable") ∧ w' = w.put node'
  | _, .getNode node, node', w' => (node' ∈ w.nodes ∧ node'.id = node.id) ∧ w' = w
  | _, .createPort owner address network, _, w' =>
    ∃ id, (∀ port ∈ w.ports, port.id ≠ id) ∧
      w' = { w with ports := w.ports ++ [⟨id, owner, address, network⟩] }
  | _, .updatePort port network, _, w' =>
    ∃ stored ∈ w.ports, stored.id = port.id ∧
      w' = { w with
        ports := Table.put IronicPort.id { stored with physicalNetwork := network } w.ports }

inductive StoreStep : Ironic → NodeEvent → Ironic → Prop where
  | answered {w w' : Ironic} {τ : Type} {op : BaremetalCall τ} {a : τ} :
      w.Stores op a w' → w'.Sound → StoreStep w ⟨op, .ok a⟩ w'

theorem storeStep_answering : Answering StoreStep := by
  intro w ev w' hs
  cases hs
  exact ⟨_, rfl⟩

theorem storeStep_call {w w' : Ironic} {τ : Type} {op : BaremetalCall τ} {a : τ}
    (h : StoreStep w ⟨op, .ok a⟩ w') : w.Stores op a w' ∧ w'.Sound := by
  cases h with
  | answered hs hw => exact ⟨hs, hw⟩

theorem storeStep_lists : Lists StoreStep where
  answering := storeStep_answering
  nodes h := (storeStep_call h).1
  ports h := (storeStep_call h).1

/-! ## A node and its specification -/

/-- The node with the attributes of its specification. -/
def settle (node : ManagedNode) (spec : NodeSpec) : ManagedNode :=
  match updatesFor node spec with
  | some updates => updates.apply node
  | none => node

/-- The node has the attributes of its specification. -/
structure Settings (spec : NodeSpec) (node : ManagedNode) : Prop where
  driver : node.driver = some spec.driver
  networkInterface : node.networkInterface = some "noop"
  driverInfo : ∀ kv ∈ spec.driverInfo, (getKey node.driverInfo kv.1).eq kv.2 = true
  novaHostname : (entry node.extra "nova_hostname").isStr spec.novaHostname = true

theorem driverInfo_same {current desired : Mapping} :
    driverInfoDiffers current desired = false ↔
      ∀ kv ∈ desired, (getKey current kv.1).eq kv.2 = true := by
  simp [driverInfoDiffers, List.any_eq_false]

theorem updatesFor_none {node : ManagedNode} {spec : NodeSpec} :
    updatesFor node spec = none ↔ Settings spec node := by
  have hiff : updatesFor node spec = none ↔
      node.driver = some spec.driver ∧ node.networkInterface = some "noop" ∧
        driverInfoDiffers node.driverInfo spec.driverInfo = false ∧
        (entry node.extra "nova_hostname").isStr spec.novaHostname = true := by
    unfold updatesFor
    by_cases hd : node.driver = some spec.driver <;>
      by_cases hn : node.networkInterface = some "noop" <;>
      cases hi : driverInfoDiffers node.driverInfo spec.driverInfo <;>
      cases he : (entry node.extra "nova_hostname").isStr spec.novaHostname <;>
      simp [hd, hn]
  rw [hiff, driverInfo_same]
  exact ⟨fun ⟨hd, hn, hi, he⟩ => ⟨hd, hn, hi, he⟩, fun h => ⟨h.1, h.2, h.3, h.4⟩⟩

/-! ### Settling -/

section Settle

variable {node : ManagedNode} {spec : NodeSpec}

theorem settle_apply {updates : NodeUpdates} (h : updatesFor node spec = some updates) :
    settle node spec = updates.apply node := by
  rw [settle, h]

theorem settle_self (h : updatesFor node spec = none) : settle node spec = node := by
  rw [settle, h]

theorem settle_id : (settle node spec).id = node.id := by
  unfold settle
  split <;> rfl

theorem settle_name : (settle node spec).name = node.name := by
  unfold settle
  split <;> rfl

theorem settle_provisionState : (settle node spec).provisionState = node.provisionState := by
  unfold settle
  split <;> rfl

/-- What the updates are, if there are any. -/
theorem updatesFor_some {updates : NodeUpdates} (h : updatesFor node spec = some updates) :
    updates = {
      driver := if node.driver = some spec.driver then none else some spec.driver
      networkInterface := if node.networkInterface = some "noop" then none else some "noop"
      driverInfo :=
        if driverInfoDiffers node.driverInfo spec.driverInfo then
          some (Value.update node.driverInfo spec.driverInfo)
        else none
      extra :=
        if (entry node.extra "nova_hostname").isStr spec.novaHostname then none
        else some (Value.insert node.extra (.str "nova_hostname") (.str spec.novaHostname)) } := by
  unfold updatesFor at h
  exact (Option.some.inj (Option.ite_none_right_eq_some.mp h).2).symm

/-- Settling a mapping: updated if it differs, and else as it was. -/
theorem settle_driverInfo : (settle node spec).driverInfo =
    if driverInfoDiffers node.driverInfo spec.driverInfo then
      Value.update node.driverInfo spec.driverInfo
    else node.driverInfo := by
  cases hu : updatesFor node spec with
  | none =>
    rw [settle_self hu, driverInfo_same.mpr (updatesFor_none.mp hu).driverInfo]
    rfl
  | some updates =>
    rw [settle_apply hu, updatesFor_some hu, NodeUpdates.apply]
    cases driverInfoDiffers node.driverInfo spec.driverInfo <;> rfl

theorem settle_extra : (settle node spec).extra =
    if (entry node.extra "nova_hostname").isStr spec.novaHostname then node.extra
    else Value.insert node.extra (.str "nova_hostname") (.str spec.novaHostname) := by
  cases hu : updatesFor node spec with
  | none =>
    rw [settle_self hu, (updatesFor_none.mp hu).novaHostname]
    rfl
  | some updates =>
    rw [settle_apply hu, updatesFor_some hu, NodeUpdates.apply]
    cases (entry node.extra "nova_hostname").isStr spec.novaHostname <;> rfl

/-- A settled node whose mapping reads back has the attributes of the specification. -/
theorem settle_settings (hkeys : DistinctKeys spec.driverInfo)
    (hread : Readable (settle node spec).driverInfo) : Settings spec (settle node spec) := by
  cases hu : updatesFor node spec with
  | none =>
    rw [settle_self hu]
    exact updatesFor_none.mp hu
  | some updates =>
    constructor
    · rw [settle_apply hu, updatesFor_some hu, NodeUpdates.apply]
      by_cases hd : node.driver = some spec.driver <;> simp [hd]
    · rw [settle_apply hu, updatesFor_some hu, NodeUpdates.apply]
      by_cases hn : node.networkInterface = some "noop" <;> simp [hn]
    · rw [settle_driverInfo] at hread ⊢
      split at hread
      · rename_i hdiffers
        rw [if_pos hdiffers]
        exact fun kv hkv => Value.getKey_update hkeys hread hkv
      · rename_i hsame
        rw [if_neg hsame]
        exact driverInfo_same.mp (Bool.eq_false_iff.mpr hsame)
    · rw [settle_extra]
      split
      · assumption
      · exact Value.entry_insert _ _ _

/-- The entries of `driver_info` that the specification does not declare. -/
def undeclaredInfo (spec : NodeSpec) (node : ManagedNode) : Mapping :=
  node.driverInfo.filter fun kv => spec.driverInfo.all fun declared => !scalarEq declared.1 kv.1

/-- The entries of `extra` other than the hostname. -/
def undeclaredExtra (node : ManagedNode) : Mapping :=
  node.extra.filter fun kv => !kv.1.isStr "nova_hostname"

theorem settle_undeclaredInfo (hkeys : DistinctKeys spec.driverInfo)
    (hread : Readable (settle node spec).driverInfo) :
    undeclaredInfo spec (settle node spec) = undeclaredInfo spec node := by
  rw [settle_driverInfo] at hread
  rw [undeclaredInfo, settle_driverInfo, undeclaredInfo]
  split at hread
  · rename_i hdiffers
    rw [if_pos hdiffers]
    refine Value.update_filter (p := fun k => spec.driverInfo.all fun d => !scalarEq d.1 k) ?_
    intro kv hkv
    -- A declared key stands in the mapping, so it is one that equals itself.
    have hself : scalarEq kv.1 kv.1 = true := by
      obtain ⟨k, hmem, rfl | hk⟩ := Value.update_mem hkeys hkv
      · exact (hread _ hmem).1
      · exact Value.scalarEq_trans hk (Value.scalarEq_symm hk)
    refine ⟨?_, fun k hk => ?_⟩
    · exact List.all_eq_false.mpr ⟨kv, hkv, by simp [hself]⟩
    · exact List.all_eq_false.mpr ⟨kv, hkv, by simp [hk]⟩
  · rename_i hsame
    rw [if_neg hsame]

theorem settle_undeclaredExtra : undeclaredExtra (settle node spec) = undeclaredExtra node := by
  rw [undeclaredExtra, settle_extra, undeclaredExtra]
  split
  · rfl
  · refine Value.insert_filter (p := fun k => !k.isStr "nova_hostname") rfl fun k hk => ?_
    rw [Value.scalarEq_str] at hk
    simp [hk]

end Settle

/-! ## Runs -/

/-- The state of the node that a provision transition is requested of, and its target. -/
def requestedTransition : NodeEvent → Option (Option String × String)
  | ⟨.setNodeProvisionState node target _, _⟩ => some (node.provisionState, target)
  | _ => none

/-- No other transition is requested than `manage` from `enroll`. -/
def OnlyManages (tr : List NodeEvent) : Prop :=
  ∀ ev ∈ tr, ∀ move, requestedTransition ev = some move → move = (some "enroll", "manage")

theorem onlyManages_nil : OnlyManages [] := List.forall_mem_nil _

theorem OnlyManages.append {tr₁ tr₂ : List NodeEvent} (h₁ : OnlyManages tr₁)
    (h₂ : OnlyManages tr₂) : OnlyManages (tr₁ ++ tr₂) :=
  List.forall_mem_append.mpr ⟨h₁, h₂⟩

theorem OnlyManages.cons {ev : NodeEvent} {tr : List NodeEvent} (h : OnlyManages tr)
    (hev : ∀ move, requestedTransition ev = some move → move = (some "enroll", "manage")) :
    OnlyManages (ev :: tr) :=
  List.forall_mem_cons.mpr ⟨hev, h⟩

section Run

variable {rt : PyRuntime} {spec : NodeSpec} {w w' : Ironic} {tr : List NodeEvent}

theorem updateNode_stores {node : ManagedNode} {r : Except ReconcileExn ManagedNode}
    (hw : w.Sound) (hmem : node ∈ w.nodes)
    (h : Runs StoreStep w (updateNode node spec false) tr r w') :
    r = .ok (settle node spec) ∧ w' = w.put (settle node spec) ∧ w'.Sound ∧ OnlyManages tr := by
  unfold updateNode at h
  cases hu : updatesFor node spec with
  | none =>
    rw [hu] at h
    obtain ⟨rfl, rfl, rfl⟩ := runs_done.mp h
    rw [settle_self hu, Ironic.put, Table.put_self hw.nodeIds hmem]
    exact ⟨rfl, rfl, hw, onlyManages_nil⟩
  | some updates =>
    rw [hu] at h
    obtain ⟨node', w₁, tr', rfl, hev, hrest⟩ := (runs_call storeStep_answering).mp h
    obtain ⟨rfl, rfl, rfl⟩ := runs_done.mp hrest
    obtain ⟨⟨stored, hstored, hid, rfl, rfl⟩, hw'⟩ := storeStep_call hev
    obtain rfl := Table.row_unique (k := nodeId) hw.nodeIds hstored hmem hid
    rw [settle_apply hu]
    exact ⟨rfl, rfl, hw', onlyManages_nil.cons fun _ hmove => by cases hmove⟩

theorem manageNode_stores {node : ManagedNode} {timeout : Int}
    {r : Except ReconcileExn ManagedNode} (hw : w.Sound) (hmem : node ∈ w.nodes)
    (hstate : forbidden node = false)
    (h : Runs StoreStep w (manageNode node node.provisionState false timeout) tr r w') :
    ∃ node', r = .ok node' ∧ SameSettings node node' ∧
      node'.provisionState = some "manageable" ∧ w' = w.put node' ∧ w'.Sound ∧ OnlyManages tr := by
  unfold manageNode at h
  by_cases henroll : node.provisionState = some "enroll"
  · rw [if_pos ⟨henroll, rfl⟩] at h
    obtain ⟨moved, w₁, tr₁, rfl, hset, hrest⟩ := (runs_call storeStep_answering).mp h
    obtain ⟨read, w₂, tr₂, rfl, hget, hend⟩ := (runs_call storeStep_answering).mp hrest
    obtain ⟨rfl, rfl, rfl⟩ := runs_done.mp hend
    obtain ⟨⟨stored, hstored, hid, hsame, hmoved, rfl⟩, hw₁⟩ := storeStep_call hset
    obtain ⟨⟨⟨hread, hreadId⟩, rfl⟩, _⟩ := storeStep_call hget
    obtain rfl := Table.row_unique (k := nodeId) hw.nodeIds hstored hmem hid
    have hput : moved ∈ (w.put moved).nodes := Table.mem_put (k := nodeId) hmem hsame.id.symm
    obtain rfl := Table.row_unique (k := nodeId) hw₁.nodeIds hread hput hreadId
    refine ⟨read, rfl, hsame, hmoved rfl, rfl, hw₁, ?_⟩
    refine (onlyManages_nil.cons fun _ hmove => by cases hmove).cons fun move hmove => ?_
    cases hmove
    rw [henroll]
  · rw [if_neg fun hboth => henroll hboth.1] at h
    obtain ⟨rfl, rfl, rfl⟩ := runs_done.mp h
    have hmanageable : node.provisionState = some "manageable" := by
      simpa [forbidden, henroll] using hstate
    refine ⟨node, rfl, ⟨rfl, rfl, rfl, rfl, rfl, rfl⟩, hmanageable, ?_, hw, onlyManages_nil⟩
    rw [Ironic.put, Table.put_self hw.nodeIds hmem]

/-! ### Ports -/

/-- The port belongs to the node, in the declared network. -/
def HasPort (id : String) (port : IronicPort) (desired : DesiredPort) : Prop :=
  port.nodeId = some id ∧ port.physicalNetwork.eq desired.physicalNetwork = true

/-- The desired port is the only one of its address. -/
abbrev PortHeld (rt : PyRuntime) (w : Ironic) (id : String) (desired : DesiredPort) : Prop :=
  Table.Held (addressOf rt) DesiredPort.address (HasPort id) w.ports desired

/-- The desired ports are there, and those of other addresses are as they were. -/
abbrev PortsPlaced (rt : PyRuntime) (w w' : Ironic) (id : String) (desired : List DesiredPort) :
    Prop :=
  Table.Placed (addressOf rt) DesiredPort.address (HasPort id) w.ports w'.ports desired

/-- A created port. -/
theorem createPort_placed {id : String} {port : DesiredPort}
    (hlower : rt.lower port.address = port.address)
    (hnone : portsOf rt w.ports port.address = [])
    (h : StoreStep w ⟨.createPort id port.address port.physicalNetwork, .ok ()⟩ w') :
    w'.nodes = w.nodes ∧ PortsPlaced rt w w' id [port] := by
  obtain ⟨⟨portId, _, rfl⟩, hw'⟩ := storeStep_call h
  have hnet := hw'.networks _ (List.mem_append_right _ (List.mem_singleton.mpr rfl))
  exact ⟨rfl, Table.placed_append hnone hlower ⟨rfl, hnet⟩⟩

/-- An updated port. -/
theorem updatePort_placed {id : String} {port : DesiredPort} {found : IronicPort} (hw : w.Sound)
    (hfound : portsOf rt w.ports port.address = [found]) (hmine : found.nodeId = some id)
    (h : StoreStep w ⟨.updatePort found port.physicalNetwork, .ok ()⟩ w') :
    w'.nodes = w.nodes ∧ PortsPlaced rt w w' id [port] := by
  obtain ⟨⟨stored, hstored, hid, rfl⟩, hw'⟩ := storeStep_call h
  obtain ⟨hmem, haddress, -⟩ := Table.sole_of_filter hfound
  obtain rfl := Table.row_unique (k := IronicPort.id) hw.portIds hstored hmem hid
  have hnet := hw'.networks { stored with physicalNetwork := port.physicalNetwork }
    (Table.mem_put (k := IronicPort.id) hmem rfl)
  exact ⟨rfl, Table.placed_put hw.portIds hfound rfl haddress ⟨hmine, hnet⟩⟩

/-- One change of the ports, and the rest of the loop. -/
theorem runs_portChange {op : BaremetalCall Unit} {p : NodeOp Nat} {n : Nat}
    (h : Runs StoreStep w ((IronicNode.change false () op).bind fun _ =>
      p.bind fun n => .done (.ok (n + 1))) tr (.ok n) w') :
    ∃ w₁ tr' m, StoreStep w ⟨op, .ok ()⟩ w₁ ∧ Runs StoreStep w₁ p tr' (.ok m) w' ∧
      tr = ⟨op, .ok ()⟩ :: tr' := by
  obtain ⟨_, w₁, tr', rfl, hev, hnext⟩ := (runs_call storeStep_answering).mp h
  have hrest : Runs StoreStep w₁ (p.bind fun n => .done (.ok (n + 1))) tr' (.ok n) w' := hnext
  rcases runs_bind.mp hrest with ⟨m, tr₁, tr₂, w₂, rfl, hp, hend⟩ | ⟨e, _, herr⟩
  · obtain ⟨rfl, _, rfl⟩ := runs_done.mp hend
    exact ⟨w₁, tr₁, m, hev, hp, by rw [List.append_nil]⟩
  · cases herr

/-- The loop over the ports: what it saw of the desired ports is still so. -/
theorem changePorts_stores {id : String} {allPorts : List IronicPort} {desired : List DesiredPort}
    {n : Nat} (hw : w.Sound) (hnodup : (desired.map DesiredPort.address).Nodup)
    (hlower : ∀ port ∈ desired, rt.lower port.address = port.address)
    (hsee : ∀ port ∈ desired, portsOf rt w.ports port.address = portsOf rt allPorts port.address)
    (h : Runs StoreStep w (changePorts rt id allPorts false desired) tr (.ok n) w') :
    w'.nodes = w.nodes ∧ PortsPlaced rt w w' id desired ∧ w'.Sound ∧ OnlyManages tr := by
  induction desired generalizing w tr n with
  | nil =>
    obtain ⟨rfl, _, rfl⟩ := runs_done.mp h
    exact ⟨rfl, .nil, hw, onlyManages_nil⟩
  | cons port desired ih =>
    rw [List.map_cons, List.nodup_cons] at hnodup
    obtain ⟨hlow, hlowers⟩ := List.forall_mem_cons.mp hlower
    obtain ⟨hport, hsees⟩ := List.forall_mem_cons.mp hsee
    -- What follows the port, once it is placed, whatever the change.
    have hrest : ∀ {w₁ : Ironic} {tr₁ : List NodeEvent} {m : Nat},
        w₁.nodes = w.nodes ∧ PortsPlaced rt w w₁ id [port] → w₁.Sound →
        Runs StoreStep w₁ (changePorts rt id allPorts false desired) tr₁ (.ok m) w' →
        w'.nodes = w.nodes ∧ PortsPlaced rt w w' id (port :: desired) ∧ w'.Sound ∧
          OnlyManages tr₁ := by
      intro w₁ tr₁ m ⟨hnodes, hplaced⟩ hw₁ hloop
      have hsees₁ : ∀ d ∈ desired, portsOf rt w₁.ports d.address = portsOf rt allPorts d.address := by
        intro d hd
        refine (hplaced.lookup ?_).trans (hsees d hd)
        intro hsame
        rw [List.map_singleton, List.mem_singleton] at hsame
        exact hnodup.1 (hsame ▸ List.mem_map_of_mem hd)
      obtain ⟨hnodes', hall, hw', hmoves⟩ := ih hw₁ hnodup.2 hlowers hsees₁ hloop
      exact ⟨hnodes'.trans hnodes, .cons hnodup.1 hplaced hall, hw', hmoves⟩
    simp only [changePorts, IronicNode.checked, Prog.bind_def, Prog.pure_def] at h
    rcases hfound : portsOf rt allPorts port.address with _ | ⟨found, _ | ⟨second, more⟩⟩
    · simp only [hfound, refuseIf, List.length_nil, Nat.not_lt_zero, gt_iff_lt, decide_false,
        Bool.false_eq_true, if_false, Prog.bind_ok] at h
      obtain ⟨w₁, tr₁, m, hev, hloop, rfl⟩ := runs_portChange h
      have hplaced := createPort_placed hlow (hport.trans hfound) hev
      obtain ⟨hnodes, hall, hw', hmoves⟩ := hrest hplaced (storeStep_call hev).2 hloop
      exact ⟨hnodes, hall, hw', hmoves.cons fun _ hmove => by cases hmove⟩
    · simp only [hfound, refuseIf, List.length_singleton, gt_iff_lt, Nat.lt_irrefl, decide_false,
        Bool.false_eq_true, if_false, Prog.bind_ok] at h
      by_cases hother : (found.nodeId != some id) = true
      · simp only [hother, if_true, Prog.bind_error] at h
        cases (runs_done.mp h).2.1
      · have hmine : found.nodeId = some id := by simpa using hother
        simp only [hother, if_false, Prog.bind_ok, Bool.false_eq_true] at h
        by_cases hnet : found.physicalNetwork.eq port.physicalNetwork = true
        · simp only [hnet, if_true] at h
          exact hrest ⟨rfl, Table.placed_self ⟨found, hport.trans hfound, hmine, hnet⟩⟩ hw h
        · simp only [hnet, if_false, Bool.false_eq_true] at h
          obtain ⟨w₁, tr₁, m, hev, hloop, rfl⟩ := runs_portChange h
          have hplaced := updatePort_placed hw (hport.trans hfound) hmine hev
          obtain ⟨hnodes, hall, hw', hmoves⟩ := hrest hplaced (storeStep_call hev).2 hloop
          exact ⟨hnodes, hall, hw', hmoves.cons fun _ hmove => by cases hmove⟩
    · simp only [hfound, refuseIf, List.length_cons, gt_iff_lt, Nat.lt_add_left_iff_pos,
        Nat.zero_lt_succ, decide_true, if_true, Prog.bind_error] at h
      cases (runs_done.mp h).2.1

theorem reconcilePorts_stores {node : ManagedNode} {desired : List DesiredPort}
    {r : Except ReconcileExn PortsReport} {report : PortsReport} (hw : w.Sound)
    (hnodup : (desired.map DesiredPort.address).Nodup)
    (hlower : ∀ port ∈ desired, rt.lower port.address = port.address) (hr : r = .ok report)
    (h : Runs StoreStep w (reconcilePorts rt node desired false) tr r w') :
    w'.nodes = w.nodes ∧ PortsPlaced rt w w' node.id desired ∧ w'.Sound ∧ OnlyManages tr := by
  simp only [reconcilePorts, Prog.bind_def, Prog.bind_request] at h
  obtain ⟨ports, w₁, tr₁, rfl, hev, hrest⟩ := (runs_call storeStep_answering).mp h
  obtain ⟨⟨rfl, rfl⟩, _⟩ := storeStep_call hev
  rcases runs_bind.mp hrest with ⟨n, tr₂, tr₃, w₂, rfl, hloop, hend⟩ | ⟨e, _, rfl⟩
  · obtain ⟨rfl, _, rfl⟩ := runs_done.mp hend
    obtain ⟨hnodes, hplaced, hw', hmoves⟩ :=
      changePorts_stores hw hnodup hlower (fun _ _ => rfl) hloop
    rw [List.append_nil]
    exact ⟨hnodes, hplaced, hw', hmoves.cons fun _ hmove => by cases hmove⟩
  · cases hr

/-! ### The node and its ports -/

/-- The ports that the specification does not declare. -/
def undeclaredPorts (rt : PyRuntime) (spec : NodeSpec) (w : Ironic) : List IronicPort :=
  w.ports.filter fun port => decide (addressOf rt port ∉ spec.ports.map DesiredPort.address)

/-- What `normalize_spec` promises of a specification. -/
structure Normal (rt : PyRuntime) (spec : NodeSpec) : Prop where
  keys : DistinctKeys spec.driverInfo
  addresses : (spec.ports.map DesiredPort.address).Nodup
  lower : ∀ port ∈ spec.ports, rt.lower port.address = port.address

/-- The reconciliation of a node that is there, from `w` to `w'`. -/
structure Reaches (rt : PyRuntime) (spec : NodeSpec) (node node' : ManagedNode)
    (w w' : Ironic) : Prop where
  sound : w'.Sound
  settled : SameSettings (settle node spec) node'
  readable : Readable node'.driverInfo
  manageable : node'.provisionState = some "manageable"
  nodes : w'.nodes = Table.put nodeId node' w.nodes
  held : ∀ port ∈ spec.ports, PortHeld rt w' node'.id port
  ports : undeclaredPorts rt spec w' = undeclaredPorts rt spec w

theorem reconcileExisting_stores {node : ManagedNode} {timeout : Int} {created : Bool}
    {report : NodeReport} (hspec : Normal rt spec) (hw : w.Sound) (hmem : node ∈ w.nodes)
    (h : Runs StoreStep w
      (IronicNode.reconcileExisting rt spec false timeout created node) tr (.ok report) w') :
    (∃ node', Reaches rt spec node node' w w') ∧ OnlyManages tr := by
  simp only [IronicNode.reconcileExisting, IronicNode.checked, Prog.bind_def, Prog.pure_def] at h
  cases hstate : forbidden node with
  | true =>
    rw [forbidden] at hstate
    rw [hstate, refuseIf, if_pos rfl] at h
    cases (runs_done.mp h).2.1
  | false =>
    have hallowed := hstate
    rw [forbidden] at hstate
    rw [hstate, refuseIf, if_neg Bool.false_ne_true, Prog.bind_ok] at h
    rcases runs_bind.mp h with ⟨updated, tr₁, tr₂, w₁, rfl, hupdate, hrest⟩ | ⟨e, _, herr⟩
    · obtain ⟨hok, hput₁, hw₁, hmoves₁⟩ := updateNode_stores hw hmem hupdate
      cases hok
      have hmem₁ : settle node spec ∈ w₁.nodes := by
        rw [hput₁]
        exact Table.mem_put (k := nodeId) hmem settle_id.symm
      have hprovision : (settle node spec).provisionState = node.provisionState :=
        settle_provisionState
      rw [← hprovision] at hrest
      rw [forbidden, ← hprovision, ← forbidden] at hallowed
      rcases runs_bind.mp hrest with ⟨managed, tr₃, tr₄, w₂, rfl, hmanage, hend⟩ | ⟨e, _, herr⟩
      · obtain ⟨node', hok, hsame, hmanageable, hput₂, hw₂, hmoves₂⟩ :=
          manageNode_stores hw₁ hmem₁ hallowed hmanage
        cases hok
        rcases runs_bind.mp hend with ⟨ports, tr₅, tr₆, w₃, rfl, hports, hdone⟩ | ⟨e, _, herr⟩
        · obtain ⟨rfl, _, rfl⟩ := runs_done.mp hdone
          obtain ⟨hsameNodes, hall, hw', hmoves₃⟩ :=
            reconcilePorts_stores hw₂ hspec.addresses hspec.lower rfl hports
          have hnodes : w₂.nodes = Table.put nodeId managed w.nodes := by
            rw [hput₂, Ironic.put, hput₁, Ironic.put]
            exact Table.put_put hsame.id
          have hmem' : managed ∈ w'.nodes := by
            rw [hsameNodes, hnodes]
            exact Table.mem_put (k := nodeId) hmem (hsame.id.trans settle_id).symm
          refine ⟨⟨managed, hw', hsame, hw'.infos _ hmem', hmanageable, hsameNodes.trans hnodes,
            hall.held, ?_⟩, ?_⟩
          · have hkept : w₂.ports = w.ports := by
              rw [hput₂, Ironic.put, hput₁, Ironic.put]
            rw [undeclaredPorts, undeclaredPorts, ← hkept]
            refine hall.frame (fun a => decide (a ∉ spec.ports.map DesiredPort.address)) ?_
            intro port hport
            exact decide_eq_false (not_not_intro (List.mem_map_of_mem hport))
          · rw [List.append_nil]
            exact hmoves₁.append (hmoves₂.append hmoves₃)
        · cases herr
      · cases herr
    · cases herr

/-- The node of the name: it is the only one, has all that is declared, and is `manageable`. -/
structure Settled (rt : PyRuntime) (spec : NodeSpec) (w : Ironic) (node : ManagedNode) :
    Prop where
  sole : w.nodes.filter (fun n => n.name = some spec.name) = [node]
  settings : Settings spec node
  manageable : node.provisionState = some "manageable"
  ports : ∀ port ∈ spec.ports, PortHeld rt w node.id port

/-- Everything that is not declared is as before. A new node has nothing undeclared. -/
structure Untouched (rt : PyRuntime) (spec : NodeSpec) (w w' : Ironic) (node : ManagedNode) :
    Prop where
  others : w'.nodes.filter (fun n => n.name ≠ some spec.name) =
    w.nodes.filter fun n => n.name ≠ some spec.name
  ports : undeclaredPorts rt spec w' = undeclaredPorts rt spec w
  kept : ∀ before ∈ w.nodes, before.name = some spec.name →
    undeclaredInfo spec node = undeclaredInfo spec before ∧
      undeclaredExtra node = undeclaredExtra before
  new : (∀ before ∈ w.nodes, before.name ≠ some spec.name) →
    undeclaredInfo spec node = [] ∧ undeclaredExtra node = []

/-- The undeclared entries of a node are those of the node it was. -/
theorem Reaches.undeclared {node node' : ManagedNode} (h : Reaches rt spec node node' w w')
    (hspec : Normal rt spec) : undeclaredInfo spec node' = undeclaredInfo spec node ∧
      undeclaredExtra node' = undeclaredExtra node := by
  have hread := h.readable
  rw [h.settled.driverInfo] at hread
  constructor
  · rw [undeclaredInfo, h.settled.driverInfo]
    exact settle_undeclaredInfo hspec.keys hread
  · rw [undeclaredExtra, h.settled.extra]
    exact settle_undeclaredExtra

theorem Reaches.settledIn {node node' : ManagedNode} (h : Reaches rt spec node node' w w')
    (hspec : Normal rt spec) (hw : w.Sound)
    (hsole : w.nodes.filter (fun n => n.name = some spec.name) = [node]) :
    Settled rt spec w' node' := by
  obtain ⟨_, hname, -⟩ := Table.sole_of_filter hsole
  have hread := h.readable
  rw [h.settled.driverInfo] at hread
  have hsettings := settle_settings hspec.keys hread
  refine ⟨?_, ?_, h.manageable, h.held⟩
  · rw [h.nodes]
    refine Table.filter_put_single hw.nodeIds hsole (h.settled.id.trans settle_id).symm ?_
    exact decide_eq_true ((h.settled.name.trans settle_name).trans hname)
  · constructor
    · rw [h.settled.driver]
      exact hsettings.driver
    · rw [h.settled.networkInterface]
      exact hsettings.networkInterface
    · rw [h.settled.driverInfo]
      exact hsettings.driverInfo
    · rw [h.settled.extra]
      exact hsettings.novaHostname

theorem Reaches.others {node node' : ManagedNode} (h : Reaches rt spec node node' w w')
    (hw : w.Sound) (hmem : node ∈ w.nodes) (hname : node.name = some spec.name) :
    w'.nodes.filter (fun n => n.name ≠ some spec.name) =
      w.nodes.filter fun n => n.name ≠ some spec.name := by
  have hid : node'.id = node.id := h.settled.id.trans settle_id
  rw [h.nodes]
  refine Table.filter_put_of_not (fun r hr hkey => ?_) ?_
  · obtain rfl := Table.row_unique (k := nodeId) hw.nodeIds hr hmem (hkey.trans hid)
    simp [hname]
  · simp [h.settled.name, settle_name, hname]

/-! ### Whole runs -/

/-- A successful run leaves the specification settled and the rest untouched. -/
theorem reconcile_settles {timeout : Int} {report : NodeReport} (hspec : Normal rt spec)
    (hw : w.Sound)
    (h : Runs StoreStep w (reconcile rt spec false timeout) tr (.ok report) w') :
    (∃ node, Settled rt spec w' node ∧ Untouched rt spec w w' node) ∧ w'.Sound ∧
      OnlyManages tr := by
  simp only [reconcile, Prog.bind_def, Prog.bind_request] at h
  obtain ⟨tr₁, rfl, hread⟩ := runs_nodes storeStep_lists h
  rcases hmatch : w.nodes.filter (fun node => node.name = some spec.name) with
    _ | ⟨node, _ | ⟨second, more⟩⟩
  · simp only [hmatch] at hread
    obtain ⟨tr₂, rfl, ⟨_, _, _, herr, _⟩ | ⟨_, hrest⟩⟩ := runs_preflight storeStep_lists hread
    · cases herr
    · rw [if_neg Bool.false_ne_true, createNode, Prog.bind_request] at hrest
      obtain ⟨node, w₁, tr₃, rfl, hev, hexisting⟩ := (runs_call storeStep_answering).mp hrest
      obtain ⟨⟨⟨hname, _, _, hinfo, hextra, _⟩, _, rfl⟩, hw₁⟩ := storeStep_call hev
      have hmem : node ∈ w.nodes ++ [node] :=
        List.mem_append_right _ (List.mem_singleton.mpr rfl)
      have hsole : (w.nodes ++ [node]).filter (fun n => n.name = some spec.name) = [node] := by
        rw [List.filter_append, hmatch, List.filter_singleton]
        simp [hname]
      obtain ⟨⟨node', hreach⟩, hmoves⟩ := reconcileExisting_stores hspec hw₁ hmem hexisting
      obtain ⟨hundeclared, hextras⟩ := hreach.undeclared hspec
      have hothers := hreach.others hw₁ hmem hname
      refine ⟨⟨node', hreach.settledIn hspec hw₁ hsole, ?_, hreach.ports, ?_, fun _ => ⟨?_, ?_⟩⟩,
        hreach.sound, ?_⟩
      · rw [hothers, List.filter_append, List.filter_singleton]
        simp [hname]
      · intro before hbefore hsame
        have hmem : before ∈ w.nodes.filter fun n => n.name = some spec.name :=
          List.mem_filter.mpr ⟨hbefore, decide_eq_true hsame⟩
        rw [hmatch] at hmem
        cases hmem
      · rw [hundeclared, undeclaredInfo, hinfo, List.filter_eq_nil_iff]
        intro kv hkv hall
        have hself := (hw₁.infos node hmem kv (hinfo ▸ hkv)).1
        have hdiff := List.all_eq_true.mp hall kv hkv
        rw [hself] at hdiff
        cases hdiff
      · rw [hextras, undeclaredExtra, hextra]
        rfl
      · exact ((hmoves.cons fun _ hmove => by cases hmove).cons fun _ hmove => by cases hmove).cons
          fun _ hmove => by cases hmove
  · simp only [hmatch] at hread
    obtain ⟨tr₂, rfl, ⟨_, _, _, herr, _⟩ | ⟨_, hexisting⟩⟩ := runs_preflight storeStep_lists hread
    · cases herr
    · obtain ⟨hmem, hname, hsole⟩ := Table.sole_of_filter hmatch
      obtain ⟨⟨node', hreach⟩, hmoves⟩ := reconcileExisting_stores hspec hw hmem hexisting
      refine ⟨⟨node', hreach.settledIn hspec hw hmatch, hreach.others hw hmem hname, hreach.ports,
        fun before hbefore hsame => ?_, fun hnone => absurd hname (hnone node hmem)⟩,
        hreach.sound, ?_⟩
      · rw [hsole before hbefore hsame]
        exact hreach.undeclared hspec
      · exact (hmoves.cons fun _ hmove => by cases hmove).cons fun _ hmove => by cases hmove
  · simp only [hmatch] at hread
    cases (runs_raise.mp hread).2.1

/-- Where all ports are held, the loop over them makes no change. -/
theorem changePorts_held {id : String} {desired : List DesiredPort} {checkMode : Bool}
    (h : ∀ port ∈ desired, PortHeld rt w id port) :
    changePorts rt id w.ports checkMode desired = .done (.ok 0) := by
  induction desired with
  | nil => rfl
  | cons port desired ih =>
    obtain ⟨⟨found, hrow, hmine, hnet⟩, hrest⟩ := List.forall_mem_cons.mp h
    have hfound : portsOf rt w.ports port.address = [found] := hrow
    simp [changePorts, IronicNode.checked, refuseIf, hfound, hmine, hnet, ih hrest]

theorem ownership_held {id : String} {desired : List DesiredPort}
    (h : ∀ port ∈ desired, PortHeld rt w id port) :
    checkOwnership rt w.ports (some id) desired = .ok () := by
  refine checkOwnership_ok.mpr fun port hport => ?_
  obtain ⟨found, hrow, hmine, _⟩ := h port hport
  have hfound : portsOf rt w.ports port.address = [found] := hrow
  rw [hfound]
  exact ⟨Nat.le_refl 1, fun p hp => by rw [List.mem_singleton.mp hp, hmine]⟩

/-- On a settled Ironic a run reports no change, and makes none. -/
theorem reconcile_settled {timeout : Int} {checkMode : Bool} {node : ManagedNode}
    {r : Except ReconcileExn NodeReport} (hs : Settled rt spec w node)
    (h : Runs StoreStep w (reconcile rt spec checkMode timeout) tr r w') :
    (∃ report, r = .ok report ∧ report.changed = false) ∧
      (∀ ev ∈ tr, mutates ev.op = false) ∧ w' = w := by
  simp only [reconcile, Prog.bind_def, Prog.bind_request] at h
  obtain ⟨tr₁, rfl, hread⟩ := runs_nodes storeStep_lists h
  simp only [hs.sole] at hread
  obtain ⟨tr₂, rfl, ⟨_, herr, _⟩ | ⟨_, hexisting⟩⟩ := runs_preflight storeStep_lists hread
  · rw [ownership_held hs.ports] at herr
    cases herr
  · have hupdates : updatesFor node spec = none := updatesFor_none.mpr hs.settings
    have hallowed : (node.provisionState != some "enroll" &&
        node.provisionState != some "manageable") = false := by
      rw [hs.manageable]
      decide
    have hnotEnroll : node.provisionState ≠ some "enroll" := by
      rw [hs.manageable]
      decide
    simp only [IronicNode.reconcileExisting, IronicNode.checked, hallowed, refuseIf, updateNode,
      manageNode, hupdates, hnotEnroll, false_and, if_false, Bool.false_eq_true, Prog.bind_def,
      Prog.pure_def, Prog.bind_ok, reconcilePorts, Prog.bind_request] at hexisting
    obtain ⟨ports, w₁, tr₃, rfl, hev, hrest⟩ := (runs_call storeStep_answering).mp hexisting
    obtain ⟨rfl, rfl⟩ := storeStep_lists.ports hev
    have hloop : changePorts rt node.id w₁.ports checkMode spec.ports = .done (.ok 0) :=
      changePorts_held hs.ports
    simp only [hloop, Prog.bind_ok] at hrest
    obtain ⟨rfl, rfl, rfl⟩ := runs_done.mp hrest
    exact ⟨⟨_, rfl, by simp⟩, by simp [mutates], rfl⟩

end Run

/-! ## Specifications -/

theorem normalizePorts_addresses {rt : PyRuntime} {rawPorts : List Value} {seen : List String}
    {ports : List DesiredPort} (h : normalizePorts rt rawPorts seen = .ok ports) :
    (ports.map DesiredPort.address).Nodup ∧
      ∀ port ∈ ports, port.address ∉ seen ∧ ∃ text, port.address = rt.lower text := by
  induction rawPorts generalizing seen ports with
  | nil =>
    cases h
    exact ⟨List.nodup_nil, List.forall_mem_nil _⟩
  | cons raw rawPorts ih =>
    cases raw with
    | dict rawPort =>
      simp only [normalizePorts, pyBind_ok, refuseIf_ok] at h
      obtain ⟨_, _, _, hnew, rest, hrest, hports⟩ := h
      cases hports
      obtain ⟨hnodup, hall⟩ := ih hrest
      refine ⟨?_, List.forall_mem_cons.mpr ⟨⟨by simpa using hnew, _, rfl⟩, fun port hport => ?_⟩⟩
      · rw [List.map_cons, List.nodup_cons]
        refine ⟨fun hmem => ?_, hnodup⟩
        obtain ⟨port, hport, hsame⟩ := List.mem_map.mp hmem
        exact (hall port hport).1 (hsame ▸ List.mem_cons_self)
      · obtain ⟨hfresh, htext⟩ := hall port hport
        exact ⟨fun hseen => hfresh (List.mem_cons_of_mem _ hseen), htext⟩
    | _ => cases h

/-- An accepted specification of a Python value: no key of `driver_info` stands twice, and the
ports have different addresses in lower case. -/
theorem normalizeSpec_normal {rt : PyRuntime} {raw : Value} {spec : NodeSpec}
    (hlower : ∀ s, rt.lower (rt.lower s) = rt.lower s) (hraw : raw.WellFormed)
    (h : normalizeSpec rt raw = .ok spec) : Normal rt spec := by
  cases raw with
  | dict kvs =>
    simp only [normalizeSpec, pyBind_ok, refuseIf_ok] at h
    obtain ⟨_, _, h⟩ := h
    split at h
    · cases h
    · simp only [pyBind_ok, pyPure_ok, refuseIf_ok] at h
      obtain ⟨_, _, _, _, _, _, rawPorts, _, ports, hports, info, hitems, rfl⟩ := h
      obtain ⟨hnodup, hall⟩ := normalizePorts_addresses hports
      refine ⟨?_, hnodup, fun port hport => ?_⟩
      · have hinfo : ((entry kvs "driver_info").or (.dict [])).WellFormed := by
          unfold Value.or
          split
          · exact hraw.entry "driver_info"
          · exact .dict .nil (List.forall_mem_nil _)
        cases hvalue : (entry kvs "driver_info").or (.dict []) with
        | dict entries =>
          rw [hvalue] at hinfo hitems
          cases hitems
          exact hinfo.dict_inv.1
        | _ =>
          rw [hvalue] at hitems
          cases hitems
      · obtain ⟨_, text, htext⟩ := hall port hport
        rw [htext, hlower]
  | _ => cases h

/-! ## A store that runs -/

instance (w : Ironic) : Decidable w.Sound :=
  decidable_of_iff ((w.nodes.map nodeId).Nodup ∧ (w.ports.map IronicPort.id).Nodup ∧
      (∀ node ∈ w.nodes, ∀ kv ∈ node.driverInfo,
        scalarEq kv.1 kv.1 = true ∧ (getKey node.driverInfo kv.1).eq kv.2 = true) ∧
      ∀ port ∈ w.ports, port.physicalNetwork.eq port.physicalNetwork = true)
    ⟨fun ⟨hn, hp, hi, he⟩ => ⟨hn, hp, hi, he⟩, fun h => ⟨h.1, h.2, h.3, h.4⟩⟩

/-- The answer of a call about what is there. -/
def Ironic.answer (w : Ironic) : {τ : Type} → BaremetalCall τ → Option (τ × Ironic)
  | _, .nodes => some (w.nodes, w)
  | _, .ports => some (w.ports, w)
  | _, .createNode name driver info network extra =>
    let node : ManagedNode := {
      id := freshId (w.nodes.map nodeId)
      name := name
      provisionState := "enroll"
      driver := driver
      networkInterface := network
      driverInfo := info
      extra := extra }
    some (node, { w with nodes := w.nodes ++ [node] })
  | _, .updateNode node updates =>
    (w.nodes.find? fun n => n.id = node.id).map fun stored =>
      (updates.apply stored, w.put (updates.apply stored))
  | _, .setNodeProvisionState node _ _ =>
    (w.nodes.find? fun n => n.id = node.id).map fun stored =>
      ({ stored with provisionState := "manageable" },
        w.put { stored with provisionState := "manageable" })
  | _, .getNode node => (w.nodes.find? fun n => n.id = node.id).map fun stored => (stored, w)
  | _, .createPort owner address network =>
    some ((), { w with
      ports := w.ports ++ [⟨freshId (w.ports.map IronicPort.id), owner, address, network⟩] })
  | _, .updatePort port network =>
    (w.ports.find? fun p => p.id = port.id).map fun stored =>
      ((), { w with
        ports := Table.put IronicPort.id { stored with physicalNetwork := network } w.ports })

/-- A store that refuses what it does not have, and what is not JSON. -/
def storeSim : Simulator BaremetalCall ReconcileExn Ironic := fun w _ op =>
  match w.answer op with
  | some (a, w') => if w'.Sound then (.ok a, w') else (.error (.raised "not stored"), w)
  | none => (.error (.raised "not found"), w)

theorem answer_stores {w w' : Ironic} {τ : Type} {op : BaremetalCall τ} {a : τ}
    (h : w.answer op = some (a, w')) : w.Stores op a w' := by
  have hfind : ∀ {α : Type} {f : α → String} {rows : List α} {id : String} {row : α},
      rows.find? (fun r => f r = id) = some row → row ∈ rows ∧ f row = id :=
    fun hrow => ⟨List.mem_of_find?_eq_some hrow, by simpa using List.find?_some hrow⟩
  cases op with
  | nodes => cases h; exact ⟨rfl, rfl⟩
  | ports => cases h; exact ⟨rfl, rfl⟩
  | createNode name driver info network extra =>
    cases h
    refine ⟨⟨rfl, rfl, rfl, rfl, rfl, rfl⟩, fun other hother hsame => ?_, rfl⟩
    have hmem : other.id ∈ w.nodes.map nodeId := List.mem_map_of_mem hother
    rw [hsame] at hmem
    exact freshId_not_mem _ hmem
  | updateNode node updates =>
    obtain ⟨stored, hrow, hstored⟩ := Option.map_eq_some_iff.mp h
    cases hstored
    obtain ⟨hmem, hid⟩ := hfind hrow
    exact ⟨stored, hmem, hid, rfl, rfl⟩
  | setNodeProvisionState node target timeout =>
    obtain ⟨stored, hrow, hstored⟩ := Option.map_eq_some_iff.mp h
    cases hstored
    obtain ⟨hmem, hid⟩ := hfind hrow
    exact ⟨stored, hmem, hid, ⟨rfl, rfl, rfl, rfl, rfl, rfl⟩, fun _ => rfl, rfl⟩
  | getNode node =>
    obtain ⟨stored, hrow, hstored⟩ := Option.map_eq_some_iff.mp h
    cases hstored
    exact ⟨hfind hrow, rfl⟩
  | createPort owner address network =>
    cases h
    refine ⟨_, fun port hport hsame => ?_, rfl⟩
    have hmem : port.id ∈ w.ports.map IronicPort.id := List.mem_map_of_mem hport
    rw [hsame] at hmem
    exact freshId_not_mem _ hmem
  | updatePort port network =>
    obtain ⟨stored, hrow, hstored⟩ := Option.map_eq_some_iff.mp h
    cases hstored
    obtain ⟨hmem, hid⟩ := hfind hrow
    exact ⟨stored, hmem, hid, rfl⟩

theorem storeSim_step (w : Ironic) {τ : Type} (op : BaremetalCall τ) (a : τ) (w' : Ironic)
    (_ : w.Sound) (h : storeSim w op = (.ok a, w')) : StoreStep w ⟨op, .ok a⟩ w' ∧ w'.Sound := by
  unfold storeSim at h
  cases hanswer : w.answer op with
  | none =>
    rw [hanswer] at h
    cases h
  | some answer =>
    obtain ⟨b, w₁⟩ := answer
    simp only [hanswer] at h
    by_cases hsound : w₁.Sound
    · rw [if_pos hsound] at h
      cases h
      exact ⟨.answered (answer_stores hanswer) hsound, hsound⟩
    · rw [if_neg hsound] at h
      cases h

/-! ## Convergence -/

/-- After a successful run the node of the specification is the only one of its name, has all that
is declared and is `manageable`, and everything undeclared is as before; no other transition than
`manage` from `enroll` was requested. The next run reports no change, and makes none. -/
theorem node_converges {rt : PyRuntime} {raw : Value} {timeout timeout' : Int}
    {w w' w'' : Ironic} {tr tr' : List NodeEvent} {report : NodeReport}
    {r : Except ReconcileExn NodeReport} (hlower : ∀ s, rt.lower (rt.lower s) = rt.lower s)
    (hraw : raw.WellFormed) (hw : w.Sound)
    (h : Runs StoreStep w (reconcileNode rt raw false timeout) tr (.ok report) w')
    (h' : Runs StoreStep w' (reconcileNode rt raw false timeout') tr' r w'') :
    ∃ spec, normalizeSpec rt raw = .ok spec ∧
      (∃ node, Settled rt spec w' node ∧ Untouched rt spec w w' node) ∧ OnlyManages tr ∧
      (∃ report', r = .ok report' ∧ report'.changed = false) ∧
      (∀ ev ∈ tr', mutates ev.op = false) ∧ w'' = w' := by
  rcases reconcileNode_runs h with ⟨spec, hspec, hrun⟩ | ⟨_, _, _, herr⟩
  · rcases reconcileNode_runs h' with ⟨spec', hspec', hrun'⟩ | ⟨_, hspec', _⟩
    · rw [hspec] at hspec'
      cases hspec'
      obtain ⟨⟨node, hsettled, huntouched⟩, _, hmoves⟩ :=
        reconcile_settles (normalizeSpec_normal hlower hraw hspec) hw hrun
      obtain ⟨hreport, hreads, hsame⟩ := reconcile_settled hsettled hrun'
      exact ⟨spec, hspec, ⟨node, hsettled, huntouched⟩, hmoves, hreport, hreads, hsame⟩
    · rw [hspec] at hspec'
      cases hspec'
  · cases herr

/-- A run of `node-01`, from `enroll` and another driver. -/
def driftedRun : List NodeEvent × Except ReconcileExn NodeReport × Ironic :=
  (reconcileNode PyRuntime.ascii (soleNode "node-01")).simulate storeSim
    (drifted "enroll" "52:54:00:AA:00:01")

/-- The run after it. -/
def repeatedRun : List NodeEvent × Except ReconcileExn NodeReport × Ironic :=
  (reconcileNode PyRuntime.ascii (soleNode "node-01")).simulate storeSim driftedRun.2.2

theorem soleNode_wellFormed : (soleNode "node-01").WellFormed := by
  have hnil : ∀ kv ∈ ([] : Mapping), kv.2.WellFormed := List.forall_mem_nil _
  have hinfo : Value.WellFormed (.dict [
      (.str "redfish_address", .str ("bmc-" ++ "node-01")),
      (.str "redfish_system_id", .str "1"),
      (.str "redfish_username", .str "admin"),
      (.str "redfish_password", .str "secret")]) := by
    refine .dict (by unfold DistinctKeys; decide +kernel) ?_
    simp only [List.forall_mem_cons]
    exact ⟨.scalar rfl, .scalar rfl, .scalar rfl, .scalar rfl, hnil⟩
  have hport : Value.WellFormed (.dict [(.str "address", .str "52:54:00:00:00:01")]) := by
    refine .dict (List.pairwise_singleton _ _) ?_
    simp only [List.forall_mem_cons]
    exact ⟨.scalar rfl, hnil⟩
  refine .dict (by unfold DistinctKeys; decide +kernel) ?_
  simp only [List.forall_mem_cons]
  refine ⟨.scalar rfl, .scalar rfl, .scalar rfl, hinfo, .scalar rfl, .scalar rfl, .list ?_, hnil⟩
  intro port hmem
  rw [List.mem_singleton.mp hmem]
  exact hport

theorem drifted_sound : (drifted "enroll" "52:54:00:AA:00:01").Sound := by
  decide +kernel

theorem driftedRun_runs {report : NodeReport} (h : driftedRun.2.1 = .ok report) :
    Runs StoreStep (drifted "enroll" "52:54:00:AA:00:01")
      (reconcileNode PyRuntime.ascii (soleNode "node-01")) driftedRun.1 (.ok report)
      driftedRun.2.2 ∧ driftedRun.2.2.Sound :=
  runs_of_simulate storeSim_step drifted_sound h

theorem repeatedRun_runs {report : NodeReport} (hw : driftedRun.2.2.Sound)
    (h : repeatedRun.2.1 = .ok report) :
    Runs StoreStep driftedRun.2.2 (reconcileNode PyRuntime.ascii (soleNode "node-01"))
      repeatedRun.1 (.ok report) repeatedRun.2.2 ∧ repeatedRun.2.2.Sound :=
  runs_of_simulate storeSim_step hw h

theorem node_converges_drifted :
    ∃ spec node report, normalizeSpec PyRuntime.ascii (soleNode "node-01") = .ok spec ∧
      Settled PyRuntime.ascii spec driftedRun.2.2 node ∧ repeatedRun.2.1 = .ok report ∧
      report.changed = false := by
  obtain ⟨report, hfirst⟩ := ok_of_isOk (by decide +kernel : driftedRun.2.1.isOk = true)
  obtain ⟨report', hsecond⟩ := ok_of_isOk (by decide +kernel : repeatedRun.2.1.isOk = true)
  obtain ⟨hrun, hw⟩ := driftedRun_runs hfirst
  have hlower : ∀ s, PyRuntime.ascii.lower (PyRuntime.ascii.lower s) = PyRuntime.ascii.lower s :=
    asciiLower_asciiLower
  obtain ⟨spec, hspec, ⟨node, hsettled, _⟩, _, ⟨report'', hsame, hunchanged⟩, _⟩ :=
    node_converges hlower soleNode_wellFormed drifted_sound hrun (repeatedRun_runs hw hsecond).1
  cases hsame
  exact ⟨spec, node, report', hspec, hsettled, hsecond, hunchanged⟩

end Declared
end KollaPowerOps
