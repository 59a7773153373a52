import Mathlib.Algebra.Order.BigOperators.Group.List
import Mathlib.Algebra.GroupWithZero.Nat
import Mathlib.Algebra.Order.Group.Nat
import KollaPowerOps.Declared.Reconciled
import KollaPowerOps.Fence.Task
import KollaPowerOps.Workbook.Cloud

/-!
# Declared.Identity

One identity of a host across its declaration, the power actions and the fence. The reconcilers
name the Ironic node after `name` and the Masakari host after `nova_hostname`; the power actions
and the fence look both up by the hostname. They find the node that was created for the
declaration exactly if the two texts are the same (`one_identity_iff`), which the validator does
not ask for (`separate_hostname_not_identified`).
-/

namespace KollaPowerOps
namespace Declared

open Effect Actions Workbook Cli IronicNode MasakariSegment

/-! ## Reading what the reconcilers left -/

/-- The nodes as the power actions and the fence see them. -/
def Ironic.list (w : Ironic) : List Node := w.nodes.map ManagedNode.toNode

/-- Masakari as the power actions see it, together with the Nova services. -/
def Masakari.cloud (w : Masakari) (services : List NovaService) : Cloud where
  services := services
  segments := w.segmentIds
  hosts segment := (w.hosts segment).map ManagedHost.view

/-- A read is answered with what is there. -/
def Shows (nodes : List Node) (w : Cloud) : {τ : Type} → Call τ → τ → Prop
  | _, .nodes, answer => answer = nodes
  | _, op, answer => op.reading = true ∧ w.Truthful op answer

/-- Reading, with nobody writing. -/
inductive ReadStep (nodes : List Node) : Cloud → CallEvent → Cloud → Prop where
  | answered {w : Cloud} {τ : Type} {op : Call τ} {a : τ} :
      Shows nodes w op a → ReadStep nodes w ⟨op, .ok a⟩ w

section Reading

variable {nodes : List Node} {w w' : Cloud} {tr : Trace} {host : String}

theorem readStep_cloud {u u' : Cloud} {ev : CallEvent} (h : ReadStep nodes u ev u') :
    CloudStep u ev u' := by
  cases h with
  | @answered _ op a ha =>
    have heffect : u.effect op = u ∧ u.Truthful op a := by
      cases op with
      | nodes => exact ⟨rfl, trivial⟩
      | services => exact ⟨rfl, ha.2⟩
      | segments => exact ⟨rfl, ha.2⟩
      | hosts => exact ⟨rfl, ha.2⟩
      | enableService => cases ha.1
      | disableService => cases ha.1
      | updateHost => cases ha.1
      | _ => exact ⟨rfl, trivial⟩
    have hstep := CloudStep.answered heffect.2
    rwa [heffect.1] at hstep

theorem read_not_raised {q : ∀ {τ : Type}, Call τ → Bool} (hd : Drives (ReadStep nodes) w tr w') :
    ¬ Raised q tr := by
  rintro ⟨ev, hev, _, e, he⟩
  induction hd with
  | nil => cases hev
  | cons hs _ ih =>
    rcases List.mem_cons.mp hev with rfl | hev
    · cases hs
      cases he
    · exact ih hev

/-- There is an answer to every read. -/
theorem read_answered {τ : Type} (op : Call τ) (h : op.reading = true) :
    ∃ a, ReadStep nodes w ⟨op, .ok a⟩ w := by
  cases op with
  | nodes => exact ⟨nodes, .answered rfl⟩
  | getNode node => exact ⟨node, .answered ⟨rfl, trivial⟩⟩
  | services host => exact ⟨w.services, .answered ⟨rfl, rfl⟩⟩
  | servers host => exact ⟨[], .answered ⟨rfl, trivial⟩⟩
  | segments => exact ⟨w.segments, .answered ⟨rfl, rfl⟩⟩
  | hosts segment => exact ⟨w.hosts segment, .answered ⟨rfl, rfl⟩⟩
  | agents host => exact ⟨[], .answered ⟨rfl, trivial⟩⟩
  | sleep seconds => exact ⟨(), .answered ⟨rfl, trivial⟩⟩
  | logAudit host event outcome => exact ⟨"", .answered ⟨rfl, trivial⟩⟩
  | _ => cases h

/-- The nodes of a name. -/
def named (nodes : List Node) (host : String) : List Node :=
  nodes.filter fun node => node.name = some host

/-- The lookup of a node by its name, with the exception of the caller. -/
theorem lookup_reads {e : Exn} {r : Except Exn Node}
    (h : Finishes (Connection.nodes.bind fun nodes => exactlyOne e (named nodes host)) tr r)
    (hd : Drives (ReadStep nodes) w tr w') :
    w' = w ∧ ((∃ node, named nodes host = [node] ∧ r = .ok node) ∨
      (named nodes host).length ≠ 1 ∧ r = .error e) := by
  obtain ⟨answer, tr', rfl, hk⟩ | ⟨e', rfl, rfl⟩ := finishes_call.mp h
  · obtain ⟨w₁, hev, hrest⟩ := hd.cons_inv
    cases hev with
    | answered ha =>
      have hread : answer = nodes := ha
      subst hread
      obtain ⟨rfl, hone⟩ := finishes_exactlyOne hk
      exact ⟨hrest.nil_inv, hone⟩
  · obtain ⟨w₁, hev, _⟩ := hd.cons_inv
    cases hev

theorem ironicNode_reads {r : Except Exn Node} (h : Finishes (ironicNode host) tr r)
    (hd : Drives (ReadStep nodes) w tr w') {node : Node} (hone : named nodes host = [node]) :
    w' = w ∧ r = .ok node := by
  obtain ⟨hw, ⟨found, hfound, rfl⟩ | ⟨hmany, _⟩⟩ := lookup_reads h hd
  · rw [hone] at hfound
    cases hfound
    exact ⟨hw, rfl⟩
  · rw [hone] at hmany
    exact absurd rfl hmany

theorem novaService_reads {r : Except Exn NovaService} (h : Finishes (novaService host) tr r)
    (hd : Drives (ReadStep nodes) w tr w') (hone : (w.novaOf host).length = 1) :
    w' = w ∧ ∃ service, r = .ok service := by
  obtain ⟨hw, ⟨service, hr, _⟩ | ⟨_, hraised | hmany⟩⟩ :=
    novaService_cloud h (hd.mono fun _ _ _ => readStep_cloud)
  · exact ⟨hw, service, hr⟩
  · exact absurd hraised (read_not_raised hd)
  · exact absurd hone hmany

theorem masakariHost_reads {r : Except Exn (Segment × MasakariHost)}
    (h : Finishes (masakariHost host) tr r) (hd : Drives (ReadStep nodes) w tr w')
    (hone : (w.masakariOf host).length = 1) : w' = w ∧ ∃ x, r = .ok x := by
  obtain ⟨hw, ⟨x, hr, _⟩ | ⟨_, hraised | hmany⟩⟩ :=
    masakariHost_cloud h (hd.mono fun _ _ _ => readStep_cloud)
  · exact ⟨hw, x, hr⟩
  · exact absurd hraised (read_not_raised hd)
  · exact absurd hone hmany

/-- `resolve_host` succeeds with the node when each of the three mappings is unique. -/
theorem resolveHost_succeeds {node : Node} (hnova : (w.novaOf host).length = 1)
    (hnode : named nodes host = [node]) (hmasakari : (w.masakariOf host).length = 1) :
    (resolveHost host).Succeeds (ReadStep nodes) w fun r => r.ironicNodeId = node.id := by
  refine ⟨(resolveHost_uses (fun op h => read_answered op h) host).finishes, ?_⟩
  intro tr r w' h hd
  simp only [resolveHost, Prog.bind_def] at h
  obtain ⟨nova, tr₁, tr', rfl, h₁, h⟩ | ⟨e, h₁, rfl⟩ := finishes_bind.mp h
  · obtain ⟨w₁, hd₁, hrest⟩ := hd.append_inv
    obtain ⟨rfl, _⟩ := novaService_reads h₁ hd₁ hnova
    obtain ⟨ironic, tr₂, tr'', rfl, h₂, h⟩ | ⟨e, h₂, rfl⟩ := finishes_bind.mp h
    · obtain ⟨w₂, hd₂, hrest'⟩ := hrest.append_inv
      obtain ⟨rfl, hironic⟩ := ironicNode_reads h₂ hd₂ hnode
      cases hironic
      obtain ⟨x, tr₃, tr₄, rfl, h₃, hend⟩ | ⟨e, h₃, rfl⟩ := finishes_bind.mp h
      · obtain ⟨rfl, rfl⟩ := finishes_done.mp hend
        exact ⟨_, rfl, rfl⟩
      · obtain ⟨_, x, hx⟩ := masakariHost_reads h₃ hrest' hmasakari
        cases hx
    · obtain ⟨_, hironic⟩ := ironicNode_reads h₂ hrest hnode
      cases hironic
  · obtain ⟨_, service, hservice⟩ := novaService_reads h₁ hd hnova
    cases hservice

/-- The fence finds a node exactly if it is the only one of the name. -/
theorem exactNode_succeeds {Q : Node → Prop} :
    (Fence.exactNode host).Succeeds (ReadStep nodes) w Q ↔ ∃ node, named nodes host = [node] ∧ Q node := by
  have hrun : ∃ tr r w', Finishes (Fence.exactNode host) tr r ∧ Drives (ReadStep nodes) w tr w' := by
    refine Prog.Uses.finishes ⟨read_answered _ rfl, fun _ => ?_⟩
    exact exactlyOne_within.mono (fun _ h => h) fun _ _ => trivial
  constructor
  · intro h
    obtain ⟨tr, r, w', hfin, hd⟩ := hrun
    obtain ⟨a, ha, hQ⟩ := h.returns tr r w' hfin hd
    obtain ⟨_, ⟨node, hnode, hr⟩ | ⟨_, hr⟩⟩ := lookup_reads hfin hd
    · rw [ha] at hr
      cases hr
      exact ⟨a, hnode, hQ⟩
    · rw [ha] at hr
      cases hr
  · rintro ⟨node, hnode, hQ⟩
    refine ⟨hrun, fun tr r w' hfin hd => ?_⟩
    obtain ⟨_, ⟨found, hfound, hr⟩ | ⟨hmany, _⟩⟩ := lookup_reads hfin hd
    · rw [hnode] at hfound
      cases hfound
      exact ⟨node, hr, hQ⟩
    · rw [hnode] at hmany
      exact absurd rfl hmany

end Reading

/-! ## One identity -/

/-- The power actions and the fence find, by the hostname of a declared node, the node that its
reconciliation created. -/
def Identified (rt : PyRuntime) (nodes : List Node) (w : Cloud) (declared : Value)
    (tr : List NodeEvent) : Prop :=
  ∃ created, createdNodes tr = [created] ∧
    (resolveHost (nodeText rt "nova_hostname" declared)).Succeeds (ReadStep nodes) w
      (fun r => r.ironicNodeId = created.id) ∧
    (Fence.exactNode (nodeText rt "nova_hostname" declared)).Succeeds (ReadStep nodes) w
      (fun node => node.id = created.id)

/-! ## Running the reconcilers -/

/-- An id that is not in use. -/
def freshId (ids : List String) : String :=
  String.ofList (List.replicate ((ids.map String.length).sum + 1) 'x')

theorem freshId_not_mem (ids : List String) : freshId ids ∉ ids := by
  intro hmem
  have hle := List.le_sum_of_mem (List.mem_map_of_mem (f := String.length) hmem)
  rw [freshId, String.length_ofList, List.length_replicate] at hle
  omega

/-- Ironic with one node replaced, under its old name. -/
def Ironic.replace (w : Ironic) (node : ManagedNode) : Ironic :=
  { w with nodes := w.nodes.map fun n =>
      if n.id = node.id then { node with toNode := n.toNode } else n }

theorem replace_identities (w : Ironic) (node : ManagedNode) :
    (w.replace node).identities = w.identities := by
  simp only [Ironic.identities, Ironic.replace, List.map_map]
  apply List.map_congr_left
  intro n _
  simp only [Function.comp_apply]
  split <;> rfl

/-- An Ironic that stores what it is given. -/
def ironicSim : Simulator BaremetalCall ReconcileExn Ironic
  | w, _, .nodes => (.ok w.nodes, w)
  | w, _, .ports => (.ok w.ports, w)
  | w, _, .createNode name driver info network extra =>
    let node : ManagedNode := {
      id := freshId (w.nodes.map fun n => n.id)
      name := name
      provisionState := "enroll"
      driver := driver
      networkInterface := network
      driverInfo := info
      extra := extra }
    (.ok node, { w with nodes := w.nodes ++ [node] })
  | w, _, .updateNode node updates =>
    let node' : ManagedNode := { node with
      driver := updates.driver.or node.driver
      networkInterface := updates.networkInterface.or node.networkInterface
      driverInfo := updates.driverInfo.getD node.driverInfo
      extra := updates.extra.getD node.extra }
    (.ok node', w.replace node')
  | w, _, .setNodeProvisionState node _ _ =>
    let node' : ManagedNode := { node with provisionState := "manageable" }
    (.ok node', w.replace node')
  | w, _, .getNode node => (.ok node, w)
  | w, _, .createPort nodeId address network =>
    (.ok (), { w with
      ports := w.ports ++ [⟨freshId (w.ports.map fun p => p.id), nodeId, address, network⟩] })
  | w, _, .updatePort port network =>
    (.ok (), { w with
      ports := w.ports.map fun p => if p.id = port.id then { p with physicalNetwork := network } else p })

theorem ironicSim_step (w : Ironic) {τ : Type} (op : BaremetalCall τ) :
    IronicStep w ⟨op, (ironicSim w op).1⟩ (ironicSim w op).2 := by
  cases op with
  | nodes => exact .answered ⟨rfl, rfl⟩
  | ports => exact .answered ⟨rfl, rfl⟩
  | createNode name driver info network extra =>
    refine .answered ⟨rfl, fun other hother heq => ?_, rfl⟩
    have hmem : other.id ∈ w.nodes.map fun n => n.id := List.mem_map_of_mem hother
    rw [heq] at hmem
    exact freshId_not_mem _ hmem
  | updateNode node updates => exact .answered ⟨rfl, replace_identities w _, rfl⟩
  | setNodeProvisionState node target timeout => exact .answered ⟨rfl, replace_identities w _, rfl⟩
  | getNode node => exact .answered ⟨rfl, rfl⟩
  | createPort nodeId address network => exact .answered rfl
  | updatePort port network => exact .answered rfl

/-- A Masakari that stores what it is given. -/
def masakariSim : Simulator InstanceHaCall ReconcileExn Masakari
  | w, _, .segments => (.ok w.segments, w)
  | w, _, .hosts segment => (.ok (w.hosts segment.toSegment), w)
  | w, _, .createSegment name serviceType recoveryMethod description =>
    let segment : ManagedSegment := {
      id := freshId (w.segmentIds.map Segment.id)
      name := name
      serviceType := serviceType
      recoveryMethod := recoveryMethod
      description := description }
    (.ok segment, { w with
      segments := w.segments ++ [segment]
      hosts := Function.update w.hosts segment.toSegment [] })
  | w, _, .updateSegment segment updates =>
    (.ok { segment with
      recoveryMethod := updates.recoveryMethod.or segment.recoveryMethod
      description := updates.description.or segment.description }, w)
  | w, _, .createHost segment attrs =>
    let host : ManagedHost := {
      id := freshId ((w.hosts segment.toSegment).map ManagedHost.id)
      name := attrs.name
      type := attrs.type
      controlAttributes := attrs.controlAttributes
      reserved := attrs.reserved
      onMaintenance := attrs.onMaintenance }
    (.ok (), { w with
      hosts := Function.update w.hosts segment.toSegment (w.hosts segment.toSegment ++ [host]) })
  | w, _, .updateHost _ _ _ => (.ok (), w)

theorem masakariSim_step (w : Masakari) {τ : Type} (op : InstanceHaCall τ) :
    MasakariStep w ⟨op, (masakariSim w op).1⟩ (masakariSim w op).2 := by
  cases op with
  | segments => exact .answered ⟨rfl, rfl⟩
  | hosts segment => exact .answered ⟨rfl, rfl⟩
  | createSegment name serviceType recoveryMethod description =>
    refine .answered ⟨rfl, fun hmem => ?_, rfl⟩
    exact freshId_not_mem _ (List.mem_map_of_mem (f := Segment.id) hmem)
  | updateSegment segment updates => exact .answered ⟨rfl, rfl, rfl⟩
  | createHost segment attrs => exact .answered ⟨_, rfl, rfl⟩
  | updateHost host segmentId updates => exact .answered ⟨rfl, rfl⟩

theorem reconciled_simulate {rt : PyRuntime} {w w' : Ironic} {raw : Value} {raws : List Value}
    {trs : List (List NodeEvent)} {report : NodeReport}
    (h : ((reconcileNode rt raw).simulate ironicSim w).2.1 = .ok report)
    (hrest : Reconciled rt ((reconcileNode rt raw).simulate ironicSim w).2.2 raws trs w') :
    Reconciled rt w (raw :: raws) (((reconcileNode rt raw).simulate ironicSim w).1 :: trs) w' := by
  obtain ⟨hrun, hd⟩ := Prog.simulate_returns (fun w _ op => ironicSim_step w op) h
  exact .cons hrun hd hrest

/-! ## A configuration of one host -/

/-- The declaration of the host `compute-01` under some name. -/
def soleNode (name : String) : Value := redfishNode name "compute-01" "52:54:00:00:00:01"

/-- The reconciliation of this declaration. -/
def soleRun (name : String) : List NodeEvent × Except ReconcileExn NodeReport × Ironic :=
  (reconcileNode PyRuntime.ascii (soleNode name)).simulate ironicSim {}

/-- The segment for this declaration. -/
def soleSegment (name : String) : Value :=
  match plainRole.segmentSpec (globals [soleNode name]) [soleNode name] with
  | .ok raw => raw
  | .error _ => .none

/-- The reconciliation of this segment. -/
def segmentRun (name : String) : List SegmentEvent × Except ReconcileExn SegmentReport × Masakari :=
  (reconcileSegment PyRuntime.ascii (soleSegment name)).simulate masakariSim {}

def computeService : NovaService :=
  { id := "service-1", host := "compute-01", binary := "nova-compute" }

/-- A node declared under another name than its hostname is accepted and reconciled, and then not
found. -/
theorem separate_hostname_not_identified :
    ¬ ∀ (rt : PyRuntime) (role : Role) (data : Mapping) (inventoryText : List Char)
        (ironic : Ironic) (masakari : Masakari) (services : List NovaService)
        (trs : List (List NodeEvent)) (raw : Value) (tr : List SegmentEvent)
        (report : SegmentReport),
      validateConfig rt data inventoryText = .ok [] →
      Reconciled rt {} (configuredNodes data) trs ironic →
      role.segmentSpec data (configuredNodes data) = .ok raw →
      Returns (reconcileSegment rt raw) tr report → Drives MasakariStep {} tr masakari →
      (∀ node ∈ configuredNodes data,
        ((masakari.cloud services).novaOf (nodeText rt "nova_hostname" node)).length = 1) →
      List.Forall₂ (Identified rt ironic.list (masakari.cloud services)) (configuredNodes data)
        trs := by
  intro h
  have hnode : ∃ report, (soleRun "node-01").2.1 = .ok report := ⟨_, rfl⟩
  obtain ⟨nodeReport, hnode⟩ := hnode
  have hsegment : ∃ report, ((reconcileSegment PyRuntime.ascii (soleSegment "node-01")).simulate
      masakariSim {}).2.1 = .ok report := ⟨_, rfl⟩
  obtain ⟨segmentReport, hsegment⟩ := hsegment
  obtain ⟨hreturns, hdrives⟩ :=
    Prog.simulate_returns (fun w _ op => masakariSim_step w op) hsegment
  have hall := h PyRuntime.ascii plainRole (globals [soleNode "node-01"]) twoComputes _ _
    [computeService] _ _ _ _ rfl (reconciled_simulate hnode .nil) rfl hreturns hdrives (by
      intro node hmem
      rw [List.mem_singleton.mp hmem]
      rfl)
  cases hall with
  | cons hidentified _ =>
    obtain ⟨_, _, _, hfence⟩ := hidentified
    obtain ⟨found, hfound, _⟩ := exactNode_succeeds.mp hfence
    have hnone : named (soleRun "node-01").2.2.list "compute-01" = [] := rfl
    cases hnone.symm.trans hfound

/-- In a list without repetition of a key, one element has the key of an element. -/
theorem filter_key {α β : Type} [DecidableEq β] {f : α → β} {l : List α} (h : (l.map f).Nodup)
    {x : α} (hx : x ∈ l) : l.filter (fun y => f y = f x) = [x] := by
  induction l with
  | nil => cases hx
  | cons y l ih =>
    rw [List.map_cons, List.nodup_cons] at h
    rcases List.mem_cons.mp hx with rfl | hx
    · rw [List.filter_cons_of_pos (by simp), List.filter_eq_nil_iff.mpr]
      intro z hz hzx
      exact h.1 (List.mem_map.mpr ⟨z, hz, of_decide_eq_true hzx⟩)
    · have hne : f y ≠ f x := fun heq => h.1 (heq ▸ List.mem_map_of_mem hx)
      rw [List.filter_cons_of_neg (by simpa using hne)]
      exact ih h.2 hx

section Identity

variable {rt : PyRuntime} {ironic : Ironic} {masakari : Masakari} {services : List NovaService}

/-- A Masakari host is found by its name if the names in the one segment are distinct. -/
theorem masakariOf_length_one {segment : Segment} {host : String}
    (hids : masakari.segmentIds = [segment]) (hnodup : (masakari.names segment).Nodup)
    (hmem : host ∈ masakari.names segment) :
    ((masakari.cloud services).masakariOf host).length = 1 := by
  obtain ⟨item, hitem, rfl⟩ := List.mem_map.mp hmem
  have hfilter := filter_key hnodup hitem
  have hview : ((masakari.hosts segment).map ManagedHost.view).filter
      (fun i => i.name = some item.name) =
      ((masakari.hosts segment).filter fun i => i.name = item.name).map ManagedHost.view := by
    rw [List.filter_map]
    congr 1
    apply List.filter_congr
    intro i _
    simp [ManagedHost.view]
  rw [Cloud.masakariOf]
  simp only [Masakari.cloud, hids, List.flatMap_singleton, List.length_map, hview, hfilter,
    List.length_singleton]

/-- The node of an identity is found by its name if names are distinct. -/
theorem named_of_identity {id host : String} (hnodup : (ironic.identities.map Prod.snd).Nodup)
    (hmem : (id, some host) ∈ ironic.identities) :
    ∃ node, named ironic.list host = [node] ∧ node.id = id := by
  obtain ⟨node, hnode, hid⟩ := List.mem_map.mp hmem
  have hnames : (ironic.list.map Node.name).Nodup := by
    rw [Ironic.identities, List.map_map] at hnodup
    rw [Ironic.list, List.map_map]
    exact hnodup
  have hlist : node.toNode ∈ ironic.list := List.mem_map_of_mem hnode
  have hname : node.name = some host := congrArg Prod.snd hid
  refine ⟨node.toNode, ?_, congrArg Prod.fst hid⟩
  rw [named, ← hname]
  exact filter_key hnames hlist

/-- A node found by its name has the name it was created with. -/
theorem name_of_identified {id host name : String} (hw : ironic.Distinct)
    (hmem : (id, some name) ∈ ironic.identities) {node : Node}
    (hfound : named ironic.list host = [node]) (hid : node.id = id) : name = host := by
  have hin : node ∈ named ironic.list host := by
    rw [hfound]
    exact List.mem_singleton.mpr rfl
  obtain ⟨hlist, hname⟩ := List.mem_filter.mp hin
  obtain ⟨managed, hmanaged, rfl⟩ := List.mem_map.mp hlist
  have hmem' : managed.identity ∈ ironic.identities := List.mem_map_of_mem hmanaged
  have hsame := List.inj_on_of_nodup_map hw hmem hmem' hid.symm
  have hname' : managed.name = some host := of_decide_eq_true hname
  have hnames : some name = managed.name := congrArg Prod.snd hsame
  exact Option.some.inj (hnames.trans hname')

/-- **One identity.** After the reconciliation of an accepted configuration on an empty Ironic and
an empty Masakari, every declared node is identified exactly if every one is named after its
hostname. -/
theorem one_identity_iff {role : Role} {data : Mapping} {inventoryText : List Char}
    {trs : List (List NodeEvent)} {raw : Value} {tr : List SegmentEvent} {report : SegmentReport}
    (hvalid : validateConfig rt data inventoryText = .ok [])
    (hnodes : Reconciled rt {} (configuredNodes data) trs ironic)
    (hraw : role.segmentSpec data (configuredNodes data) = .ok raw)
    (hsegment : Returns (reconcileSegment rt raw) tr report)
    (hdrives : Drives MasakariStep {} tr masakari)
    (hnova : ∀ node ∈ configuredNodes data,
      ((masakari.cloud services).novaOf (nodeText rt "nova_hostname" node)).length = 1) :
    List.Forall₂ (Identified rt ironic.list (masakari.cloud services)) (configuredNodes data) trs ↔
      ∀ node ∈ configuredNodes data, nodeText rt "name" node = nodeText rt "nova_hostname" node := by
  obtain ⟨computes, entries, _, hentries, hchecked, _, _⟩ := validateConfig_sound hvalid
  have hconf : configuredNodes data = entries.map Cli.Entry.value := by
    rw [configuredNodes, hentries]
    rfl
  obtain ⟨spec, segment, hspec, hids, hhosts⟩ := reconcileSegment_hosts hsegment hdrives
  obtain ⟨hdistinct, _, hcreated⟩ := reconciled_names hnodes List.nodup_nil
  constructor
  · intro hall
    have hpairs : List.Forall₂ (fun node _ =>
        nodeText rt "name" node = nodeText rt "nova_hostname" node ∧ True)
        (configuredNodes data) trs := by
      refine List.Forall₂.mp (fun node t hidentified hnamed => ⟨?_, trivial⟩) hall hcreated
      obtain ⟨created, hone, _, hfence⟩ := hidentified
      obtain ⟨hmem, hname⟩ := hnamed created (by rw [hone]; exact List.mem_singleton.mpr rfl)
      obtain ⟨found, hfound, hid⟩ := exactNode_succeeds.mp hfence
      rw [ManagedNode.identity, hname] at hmem
      exact name_of_identified hdistinct hmem hfound hid
    exact ((List.forall₂_and_left _ _).mp hpairs).1
  · intro hnames
    rw [hconf] at hraw
    obtain ⟨hsame, hnodup⟩ := segmentSpec_names hchecked hraw hspec
    rw [← hconf] at hsame
    have hsegnames : masakari.names segment =
        (configuredNodes data).map (nodeText rt "nova_hostname") := hhosts.trans hsame
    have hnodup' : (masakari.names segment).Nodup := hhosts ▸ hnodup
    have hnamed : (configuredNodes data).map (nodeText rt "name") =
        (configuredNodes data).map (nodeText rt "nova_hostname") := List.map_congr_left hnames
    obtain ⟨hnodup'', hown⟩ := reconciled_own hnodes List.nodup_nil
      (by rw [hnamed, ← hsegnames]; exact hnodup') (by simp [Ironic.identities])
    have hgood : ∀ node ∈ configuredNodes data,
        nodeText rt "name" node = nodeText rt "nova_hostname" node ∧
        ((masakari.cloud services).novaOf (nodeText rt "nova_hostname" node)).length = 1 ∧
        ((masakari.cloud services).masakariOf (nodeText rt "nova_hostname" node)).length = 1 := by
      intro node hnode
      refine ⟨hnames node hnode, hnova node hnode, masakariOf_length_one hids hnodup' ?_⟩
      rw [hsegnames]
      exact List.mem_map_of_mem hnode
    have hboth := (List.forall₂_and_left _ _).mpr ⟨hgood, hcreated⟩
    refine List.Forall₂.mp (fun node t hone hnode => ?_) hown hboth
    obtain ⟨created, hcr⟩ := hone
    obtain ⟨⟨hname, hnova', hmas⟩, hin⟩ := hnode
    obtain ⟨hmem, hcname⟩ := hin created (by rw [hcr]; exact List.mem_singleton.mpr rfl)
    rw [ManagedNode.identity, hcname, hname] at hmem
    obtain ⟨found, hfound, hid⟩ := named_of_identity hnodup'' hmem
    refine ⟨created, hcr, ?_, exactNode_succeeds.mpr ⟨found, hfound, hid⟩⟩
    rw [← hid]
    exact resolveHost_succeeds hnova' hfound hmas

theorem one_identity_iff_sole :
    List.Forall₂ (Identified PyRuntime.ascii (soleRun "compute-01").2.2.list
        ((segmentRun "compute-01").2.2.cloud [computeService]))
      [soleNode "compute-01"] [(soleRun "compute-01").1] := by
  have hnode : ∃ report, (soleRun "compute-01").2.1 = .ok report := ⟨_, rfl⟩
  obtain ⟨nodeReport, hnode⟩ := hnode
  have hsegment : ∃ report, ((reconcileSegment PyRuntime.ascii (soleSegment "compute-01")).simulate
      masakariSim {}).2.1 = .ok report := ⟨_, rfl⟩
  obtain ⟨segmentReport, hsegment⟩ := hsegment
  obtain ⟨hreturns, hdrives⟩ :=
    Prog.simulate_returns (fun w _ op => masakariSim_step w op) hsegment
  have hvalid : validateConfig PyRuntime.ascii (globals [soleNode "compute-01"]) twoComputes =
      .ok [] := rfl
  have hraw : plainRole.segmentSpec (globals [soleNode "compute-01"])
      (configuredNodes (globals [soleNode "compute-01"])) = .ok (soleSegment "compute-01") := rfl
  refine (one_identity_iff hvalid (reconciled_simulate hnode .nil) hraw hreturns hdrives ?_).mpr ?_
  · intro node hmem
    rw [List.mem_singleton.mp hmem]
    rfl
  · intro node hmem
    rw [List.mem_singleton.mp hmem]
    decide

end Identity

end Declared
end KollaPowerOps
