import KollaPowerOps.Declared.Soundness

/-!
# Declared.Reconciled

Ironic and Masakari as environments of the reconcilers, with nobody else writing, and what the
reconcilers leave there.

* `IronicStep`, `MasakariStep` : each call is answered. What a resource is called and how it is
  identified changes only when it is created; of the other attributes nothing is assumed.
* `Reconciled`                 : the nodes reconciled one after the other, each with success.
* `reconciled_names`           : a node keeps the name it was created with, and is the only one
  with its id.
* `reconciled_own`             : if no two nodes share a name, each gets a node of its own.
* `reconcileSegment_hosts`     : the hosts of a new segment are the desired ones.
-/

namespace KollaPowerOps
namespace Declared

open Effect IronicNode MasakariSegment

/-! ## Ironic -/

abbrev NodeEvent : Type 1 := Event BaremetalCall ReconcileExn

structure Ironic where
  nodes : List ManagedNode := []
  ports : List IronicPort := []

/-- What a lookup by name sees of a node. -/
def IronicNode.ManagedNode.identity (node : ManagedNode) : String × Option String :=
  (node.id, node.name)

def Ironic.identities (w : Ironic) : List (String × Option String) :=
  w.nodes.map ManagedNode.identity

/-- The answer of a call, and the state after it. -/
def Ironic.Answers (w : Ironic) : {τ : Type} → BaremetalCall τ → τ → Ironic → Prop
  | _, .nodes, nodes, w' => nodes = w.nodes ∧ w' = w
  | _, .ports, ports, w' => ports = w.ports ∧ w' = w
  | _, .createNode name _ _ _ _, node, w' =>
    node.name = some name ∧ (∀ other ∈ w.nodes, other.id ≠ node.id) ∧
      w' = { w with nodes := w.nodes ++ [node] }
  | _, .updateNode node _, node', w' =>
    node'.identity = node.identity ∧ w'.identities = w.identities ∧ w'.ports = w.ports
  | _, .setNodeProvisionState node _ _, node', w' =>
    node'.identity = node.identity ∧ w'.identities = w.identities ∧ w'.ports = w.ports
  | _, .getNode node, node', w' => node'.identity = node.identity ∧ w' = w
  | _, .createPort _ _ _, _, w' => w'.nodes = w.nodes
  | _, .updatePort _ _, _, w' => w'.nodes = w.nodes

inductive IronicStep : Ironic → NodeEvent → Ironic → Prop where
  | answered {w w' : Ironic} {τ : Type} {op : BaremetalCall τ} {a : τ} :
      w.Answers op a w' → IronicStep w ⟨op, .ok a⟩ w'

def creates {τ : Type} : BaremetalCall τ → Bool
  | .createNode _ _ _ _ _ => true
  | _ => false

/-- The node that an event created. -/
def createdNode : NodeEvent → Option ManagedNode
  | ⟨.createNode _ _ _ _ _, .ok node⟩ => some node
  | _ => none

/-- The nodes that a reconciliation created. -/
def createdNodes (tr : List NodeEvent) : List ManagedNode := tr.filterMap createdNode

theorem createdNodes_append (tr tr' : List NodeEvent) :
    createdNodes (tr ++ tr') = createdNodes tr ++ createdNodes tr' := List.filterMap_append

theorem createdNode_none {ev : NodeEvent} (h : creates ev.op = false) : createdNode ev = none := by
  obtain ⟨op, answer⟩ := ev
  cases op with
  | createNode name driver info network extra => cases h
  | _ => rfl

theorem ironicStep_identities {w w' : Ironic} {ev : NodeEvent} (hs : IronicStep w ev w')
    (h : creates ev.op = false) : w'.identities = w.identities := by
  cases hs with
  | @answered _ _ op _ ha =>
    cases op with
    | nodes => rw [ha.2]
    | ports => rw [ha.2]
    | createNode name driver info network extra => cases h
    | updateNode node updates => exact ha.2.1
    | setNodeProvisionState node target timeout => exact ha.2.1
    | getNode node => rw [ha.2]
    | createPort nodeId address network => exact congrArg (List.map ManagedNode.identity) ha
    | updatePort port network => exact congrArg (List.map ManagedNode.identity) ha

/-- Without a creation the nodes keep their names and ids. -/
theorem no_creation {w w' : Ironic} {tr : List NodeEvent} (hd : Drives IronicStep w tr w')
    (h : ∀ ev ∈ tr, creates ev.op = false) :
    w'.identities = w.identities ∧ createdNodes tr = [] := by
  constructor
  · refine hd.keeps (I := fun u => u.identities = w.identities) ?_ rfl
    intro ev hev u u' hs hu
    rw [ironicStep_identities hs (h ev hev), hu]
  · rw [createdNodes, List.filterMap_eq_nil_iff]
    exact fun ev hev => createdNode_none (h ev hev)

/-! ### What the steps of a reconciliation call -/

section Calls

variable {rt : PyRuntime} {spec : NodeSpec} {checkMode : Bool}

/-- Calls other than the creation of a node. -/
abbrev Calm {α : Type} (p : NodeOp α) : Prop := p.Uses fun op => creates op = false

theorem checked_calm {α : Type} (r : Except ReconcileExn α) : Calm (IronicNode.checked r) := by
  cases r <;> trivial

theorem change_calm {α : Type} {otherwise : α} {op : BaremetalCall α} (h : creates op = false) :
    Calm (IronicNode.change checkMode otherwise op) := by
  unfold IronicNode.change
  split
  · trivial
  · exact ⟨h, fun _ => trivial⟩

theorem preflight_calm (ports : List DesiredPort) (id : Option String) :
    Calm (preflightPortOwnership rt ports id) :=
  ⟨rfl, fun _ => checked_calm _⟩

theorem changePorts_calm (id : String) (allPorts : List IronicPort) (ports : List DesiredPort) :
    Calm (changePorts rt id allPorts checkMode ports) := by
  induction ports with
  | nil => trivial
  | cons desired ports ih =>
    refine (checked_calm _).bind fun _ => ?_
    cases portsOf rt allPorts desired.address with
    | nil => exact (change_calm rfl).bind fun _ => ih.bind fun _ => trivial
    | cons port _ =>
      refine (checked_calm _).bind fun _ => ?_
      split
      · exact ih
      · exact (change_calm rfl).bind fun _ => ih.bind fun _ => trivial

theorem reconcilePorts_calm (node : ManagedNode) (ports : List DesiredPort) :
    Calm (reconcilePorts rt node ports checkMode) :=
  ⟨rfl, fun _ => (changePorts_calm _ _ _).bind fun _ => trivial⟩

theorem updateNode_calm (node : ManagedNode) : Calm (updateNode node spec checkMode) := by
  unfold updateNode
  split
  · exact change_calm rfl
  · trivial

theorem manageNode_calm (node : ManagedNode) (state : Option String) (timeout : Int) :
    Calm (manageNode node state checkMode timeout) := by
  unfold manageNode
  split
  · exact ⟨rfl, fun _ => ⟨rfl, fun _ => trivial⟩⟩
  · trivial

theorem reconcileExisting_calm (timeout : Int) (created : Bool) (node : ManagedNode) :
    Calm (IronicNode.reconcileExisting rt spec checkMode timeout created node) :=
  (checked_calm _).bind fun _ => (updateNode_calm _).bind fun _ =>
    (manageNode_calm _ _ _).bind fun _ => (reconcilePorts_calm _ _).bind fun _ => trivial

end Calls

/-! ### One node -/

section Node

variable {rt : PyRuntime} {w w' : Ironic} {tr : List NodeEvent}

/-- What a part of a reconciliation that creates nothing leaves. -/
theorem calm_identities {α : Type} {p : NodeOp α} {a : α} (hp : Calm p) (h : Returns p tr a)
    (hd : Drives IronicStep w tr w') : w'.identities = w.identities ∧ createdNodes tr = [] :=
  no_creation hd (Steps.within h hp).2

/-- The node is the one that this reconciliation created. -/
structure Creates (w : Ironic) (name : String) (tr : List NodeEvent) (w' : Ironic)
    (node : ManagedNode) : Prop where
  created : createdNodes tr = [node]
  named : node.name = some name
  fresh : ∀ other ∈ w.nodes, other.id ≠ node.id
  left : w'.identities = w.identities ++ [node.identity]

theorem createNode_creates {spec : NodeSpec} {timeout : Int} {report : NodeReport}
    (h : Returns ((createNode spec).bind
      (IronicNode.reconcileExisting rt spec false timeout true)) tr report)
    (hd : Drives IronicStep w tr w') : ∃ node, Creates w spec.name tr w' node := by
  simp only [createNode, Prog.request, Prog.bind_call, Prog.bind_ok, returns_call] at h
  obtain ⟨node, tr', rfl, hexisting⟩ := h
  obtain ⟨w₁, hev, hrest⟩ := hd.cons_inv
  cases hev with
  | answered ha =>
    obtain ⟨hname, hfresh, rfl⟩ := ha
    obtain ⟨hleft, hnone⟩ := calm_identities (reconcileExisting_calm _ _ _) hexisting hrest
    refine ⟨node, ?_, hname, hfresh, ?_⟩
    · exact congrArg (node :: ·) hnone
    · rw [hleft, Ironic.identities, List.map_append]
      rfl

/-- A part that creates nothing can go before. -/
theorem Creates.after_calm {w₁ : Ironic} {name : String} {tr₁ : List NodeEvent} {node : ManagedNode}
    (h : Creates w₁ name tr w' node) (hsame : w₁.identities = w.identities)
    (hnone : createdNodes tr₁ = []) : Creates w name (tr₁ ++ tr) w' node where
  created := by rw [createdNodes_append, hnone, h.created]; rfl
  named := h.named
  fresh other hother := by
    have hmem : other.identity ∈ w₁.identities := by
      rw [hsame]
      exact List.mem_map_of_mem hother
    obtain ⟨same, hsame', heq⟩ := List.mem_map.mp hmem
    have hid : same.id = other.id := congrArg Prod.fst heq
    rw [← hid]
    exact h.fresh same hsame'
  left := by rw [h.left, hsame]

/-- A reconciliation creates a node of the name if there is none. -/
theorem reconcile_identities {spec : NodeSpec} {timeout : Int} {report : NodeReport}
    (h : Returns (reconcile rt spec false timeout) tr report) (hd : Drives IronicStep w tr w') :
    (∃ node, Creates w spec.name tr w' node) ∨
      (∃ node ∈ w.nodes, node.name = some spec.name) ∧ w'.identities = w.identities ∧
        createdNodes tr = [] := by
  simp only [reconcile, Prog.request, Prog.bind_def, Prog.bind_call, Prog.bind_ok,
    returns_call] at h
  obtain ⟨nodes, tr', rfl, hmatch⟩ := h
  obtain ⟨w₁, hev, hrest⟩ := hd.cons_inv
  have hread : nodes = w.nodes ∧ w₁ = w := by
    cases hev with
    | answered ha => exact ha
  obtain ⟨rfl, rfl⟩ := hread
  have hnone : createdNodes [(⟨.nodes, .ok w₁.nodes⟩ : NodeEvent)] = [] := rfl
  split at hmatch
  · obtain ⟨_, tr₁, tr₂, rfl, hpre, hcreate⟩ := returns_bind.mp hmatch
    obtain ⟨w₂, hd₁, hd₂⟩ := hrest.append_inv
    obtain ⟨hsame, hnone₁⟩ := calm_identities (preflight_calm _ _) hpre hd₁
    rw [if_neg Bool.false_ne_true] at hcreate
    obtain ⟨node, hnode⟩ := createNode_creates hcreate hd₂
    exact .inl ⟨node, (hnode.after_calm hsame hnone₁).after_calm rfl hnone⟩
  · rename_i node hone
    obtain ⟨_, tr₁, tr₂, rfl, hpre, hexisting⟩ := returns_bind.mp hmatch
    obtain ⟨w₂, hd₁, hd₂⟩ := hrest.append_inv
    obtain ⟨hsame, hnone₁⟩ := calm_identities (preflight_calm _ _) hpre hd₁
    obtain ⟨hleft, hnone₂⟩ := calm_identities (reconcileExisting_calm _ _ _) hexisting hd₂
    have hmem : node ∈ w₁.nodes.filter fun n => n.name = some spec.name := by
      rw [hone]
      exact List.mem_singleton.mpr rfl
    obtain ⟨hmem, hname⟩ := List.mem_filter.mp hmem
    refine .inr ⟨⟨node, hmem, of_decide_eq_true hname⟩, hleft.trans hsame, ?_⟩
    rw [← List.singleton_append, createdNodes_append, createdNodes_append, hnone, hnone₁, hnone₂]
    rfl
  · exact absurd hmatch returns_raise

theorem reconcileNode_inv {raw : Value} {timeout : Int} {report : NodeReport}
    (h : Returns (reconcileNode rt raw false timeout) tr report) :
    ∃ spec, normalizeSpec rt raw = .ok spec ∧ Returns (reconcile rt spec false timeout) tr report := by
  unfold reconcileNode IronicNode.checked at h
  cases hspec : normalizeSpec rt raw with
  | error e => rw [hspec] at h; exact absurd h (by simp)
  | ok spec => rw [hspec] at h; exact ⟨spec, rfl, by simpa using h⟩

end Node

/-! ### All nodes -/

/-- The nodes reconciled one after the other, each with success, with what each reconciliation
did. -/
inductive Reconciled (rt : PyRuntime) :
    Ironic → List Value → List (List NodeEvent) → Ironic → Prop where
  | nil {w : Ironic} : Reconciled rt w [] [] w
  | cons {w w₁ w₂ : Ironic} {raw : Value} {raws : List Value} {tr : List NodeEvent}
      {trs : List (List NodeEvent)} {report : NodeReport} :
      Returns (reconcileNode rt raw) tr report → Drives IronicStep w tr w₁ →
      Reconciled rt w₁ raws trs w₂ → Reconciled rt w (raw :: raws) (tr :: trs) w₂

section Nodes

variable {rt : PyRuntime} {w w' : Ironic} {raws : List Value} {trs : List (List NodeEvent)}

/-- One reconciliation, by the name of its specification. -/
theorem reconcileNode_identities {raw : Value} {tr : List NodeEvent} {timeout : Int}
    {report : NodeReport} (h : Returns (reconcileNode rt raw false timeout) tr report)
    (hd : Drives IronicStep w tr w') :
    (∃ node, Creates w (nodeText rt "name" raw) tr w' node) ∨
      (∃ node ∈ w.nodes, node.name = some (nodeText rt "name" raw)) ∧
        w'.identities = w.identities ∧ createdNodes tr = [] := by
  obtain ⟨spec, hspec, hrun⟩ := reconcileNode_inv h
  obtain ⟨hname, _, _⟩ := normalizeSpec_names hspec
  rw [← hname]
  exact reconcile_identities hrun hd

/-- No two nodes have one id. -/
def Ironic.Distinct (w : Ironic) : Prop := (w.identities.map Prod.fst).Nodup

theorem Creates.distinct {name : String} {tr : List NodeEvent} {node : ManagedNode}
    (h : Creates w name tr w' node) (hw : w.Distinct) : w'.Distinct := by
  rw [Ironic.Distinct, h.left, List.map_append, List.nodup_append]
  refine ⟨hw, by simp, ?_⟩
  intro id hid id' hid'
  obtain ⟨pair, hpair, rfl⟩ := List.mem_map.mp hid
  obtain ⟨other, hother, rfl⟩ := List.mem_map.mp hpair
  rw [List.map_singleton, List.mem_singleton] at hid'
  rw [hid']
  exact h.fresh other hother

/-- The nodes that were there stay, ids stay distinct, and a created node is there with the name
of its specification. -/
theorem reconciled_names (h : Reconciled rt w raws trs w') (hw : w.Distinct) :
    w'.Distinct ∧ (∀ pair ∈ w.identities, pair ∈ w'.identities) ∧
      List.Forall₂ (fun raw tr => ∀ node ∈ createdNodes tr,
        node.identity ∈ w'.identities ∧ node.name = some (nodeText rt "name" raw)) raws trs := by
  induction h with
  | nil => exact ⟨hw, fun _ h => h, .nil⟩
  | cons hrun hd _ ih =>
    rcases reconcileNode_identities hrun hd with ⟨node, hnew⟩ | ⟨_, hsame, hnone⟩
    · obtain ⟨hdist, hkeep, hall⟩ := ih (hnew.distinct hw)
      refine ⟨hdist, fun pair hpair => hkeep pair ?_, .cons (fun n hn => ?_) hall⟩
      · rw [hnew.left]
        exact List.mem_append_left _ hpair
      · rw [hnew.created, List.mem_singleton] at hn
        subst hn
        refine ⟨hkeep _ ?_, hnew.named⟩
        rw [hnew.left]
        exact List.mem_append_right _ (List.mem_singleton.mpr rfl)
    · obtain ⟨hdist, hkeep, hall⟩ := ih (by rw [Ironic.Distinct, hsame]; exact hw)
      rw [hsame] at hkeep
      refine ⟨hdist, hkeep, .cons (fun n hn => ?_) hall⟩
      rw [hnone] at hn
      cases hn

/-- If the names are distinct and new, every specification gets a node of its own. -/
theorem reconciled_own (h : Reconciled rt w raws trs w')
    (hw : (w.identities.map Prod.snd).Nodup) (hnames : (raws.map (nodeText rt "name")).Nodup)
    (hnew : ∀ raw ∈ raws, ∀ pair ∈ w.identities, pair.2 ≠ some (nodeText rt "name" raw)) :
    (w'.identities.map Prod.snd).Nodup ∧
      List.Forall₂ (fun _ tr => ∃ node, createdNodes tr = [node]) raws trs := by
  induction h with
  | nil => exact ⟨hw, .nil⟩
  | @cons w w₁ w₂ raw raws tr trs report hrun hd _ ih =>
    rw [List.map_cons, List.nodup_cons] at hnames
    obtain ⟨hfirst, hrest⟩ := List.forall_mem_cons.mp hnew
    rcases reconcileNode_identities hrun hd with ⟨node, hnode⟩ | ⟨⟨node, hmem, hname⟩, _⟩
    · have hnodup : (w₁.identities.map Prod.snd).Nodup := by
        rw [hnode.left, List.map_append, List.nodup_append]
        refine ⟨hw, by simp, fun name hmem name' hmem' => ?_⟩
        obtain ⟨pair, hpair, rfl⟩ := List.mem_map.mp hmem
        rw [List.map_singleton, List.mem_singleton] at hmem'
        rw [hmem']
        exact fun heq => hfirst pair hpair (heq.trans hnode.named)
      have hnew' : ∀ r ∈ raws, ∀ pair ∈ w₁.identities, pair.2 ≠ some (nodeText rt "name" r) := by
        intro r hr pair hpair
        rw [hnode.left] at hpair
        rcases List.mem_append.mp hpair with hpair | hpair
        · exact hrest r hr pair hpair
        · rw [List.mem_singleton.mp hpair]
          intro heq
          have hsame : some (nodeText rt "name" raw) = some (nodeText rt "name" r) :=
            hnode.named.symm.trans heq
          exact hnames.1 (List.mem_map.mpr ⟨r, hr, (Option.some.inj hsame).symm⟩)
      obtain ⟨hnodup', hall⟩ := ih hnodup hnames.2 hnew'
      exact ⟨hnodup', .cons ⟨node, hnode.created⟩ hall⟩
    · exact absurd hname (hfirst _ (List.mem_map_of_mem hmem))

end Nodes

/-! ## Masakari -/

abbrev SegmentEvent : Type 1 := Event InstanceHaCall ReconcileExn

structure Masakari where
  segments : List ManagedSegment := []
  hosts : Segment → List ManagedHost := fun _ => []

def Masakari.segmentIds (w : Masakari) : List Segment := w.segments.map ManagedSegment.toSegment

/-- The names of the hosts of a segment. -/
def Masakari.names (w : Masakari) (segment : Segment) : List String :=
  (w.hosts segment).map ManagedHost.name

/-- The answer of a call, and the state after it. -/
def Masakari.Answers (w : Masakari) : {τ : Type} → InstanceHaCall τ → τ → Masakari → Prop
  | _, .segments, segments, w' => segments = w.segments ∧ w' = w
  | _, .hosts segment, hosts, w' => hosts = w.hosts segment.toSegment ∧ w' = w
  | _, .createSegment name _ _ _, segment, w' =>
    segment.name = some name ∧ segment.toSegment ∉ w.segmentIds ∧
      w' = { w with
        segments := w.segments ++ [segment]
        hosts := Function.update w.hosts segment.toSegment [] }
  | _, .updateSegment segment _, segment', w' =>
    segment'.toSegment = segment.toSegment ∧ w'.segmentIds = w.segmentIds ∧ w'.hosts = w.hosts
  | _, .createHost segment attrs, _, w' =>
    ∃ host : ManagedHost, host.name = attrs.name ∧
      w' = { w with
        hosts := Function.update w.hosts segment.toSegment
          (w.hosts segment.toSegment ++ [host]) }
  | _, .updateHost _ _ _, _, w' => w'.segments = w.segments ∧ w'.names = w.names

inductive MasakariStep : Masakari → SegmentEvent → Masakari → Prop where
  | answered {w w' : Masakari} {τ : Type} {op : InstanceHaCall τ} {a : τ} :
      w.Answers op a w' → MasakariStep w ⟨op, .ok a⟩ w'

section Segment

variable {rt : PyRuntime} {w w' : Masakari} {tr : List SegmentEvent}

/-- Where there is no host yet, the loop creates the desired ones. -/
theorem changeHosts_names {segment : ManagedSegment} {desired : List DesiredHost} {n : Nat}
    (h : Returns (changeHosts segment [] false desired) tr n) (hd : Drives MasakariStep w tr w') :
    w'.segmentIds = w.segmentIds ∧
      w'.names segment.toSegment =
        w.names segment.toSegment ++ desired.map DesiredHost.name := by
  induction desired generalizing w tr n with
  | nil =>
    obtain ⟨rfl, _⟩ := returns_ok.mp h
    rw [hd.nil_inv]
    simp
  | cons host desired ih =>
    simp only [changeHosts, List.find?_nil, MasakariSegment.change, Bool.false_eq_true, if_false,
      Prog.request, Prog.bind_def, Prog.bind_call, Prog.bind_ok, returns_call] at h
    obtain ⟨_, tr', rfl, hrest⟩ := h
    obtain ⟨w₁, hev, hd₁⟩ := hd.cons_inv
    obtain ⟨m, tr₁, tr₂, rfl, hloop, hend⟩ := returns_bind.mp hrest
    obtain ⟨rfl, _⟩ := returns_ok.mp hend
    rw [List.append_nil] at hd₁
    obtain ⟨hids, hnames⟩ := ih hloop hd₁
    cases hev with
    | answered ha =>
      obtain ⟨created, hname, rfl⟩ := ha
      refine ⟨hids, ?_⟩
      rw [hnames, Masakari.names, Masakari.names]
      simp [hname]

theorem updateSegment_frame {segment updated : ManagedSegment} {spec : SegmentSpec}
    (h : Returns (updateSegment segment spec false) tr updated) (hd : Drives MasakariStep w tr w') :
    updated.toSegment = segment.toSegment ∧ w'.segmentIds = w.segmentIds ∧ w'.hosts = w.hosts := by
  unfold updateSegment at h
  split at h
  · obtain ⟨rfl, rfl⟩ := returns_ok.mp h
    rw [hd.nil_inv]
    exact ⟨rfl, rfl, rfl⟩
  · simp only [MasakariSegment.change, Bool.false_eq_true, if_false, Prog.request, returns_call,
      returns_ok] at h
    obtain ⟨a, tr', rfl, rfl, rfl⟩ := h
    obtain ⟨w₁, hev, hd₁⟩ := hd.cons_inv
    rw [hd₁.nil_inv]
    cases hev with
    | answered ha => exact ha

/-- A segment without hosts gets the desired ones. -/
theorem reconcileExisting_hosts {spec : SegmentSpec} {segment : ManagedSegment} {created : Bool}
    {report : SegmentReport}
    (h : Returns (MasakariSegment.reconcileExisting spec false created segment) tr report)
    (hd : Drives MasakariStep w tr w') (hempty : ∀ s, w.hosts s = []) :
    w'.segmentIds = w.segmentIds ∧
      w'.names segment.toSegment = spec.hosts.map DesiredHost.name := by
  simp only [MasakariSegment.reconcileExisting, Prog.bind_def] at h
  obtain ⟨updated, tr₁, tr₂, rfl, hupdate, hk⟩ := returns_bind.mp h
  obtain ⟨w₁, hd₁, hd₂⟩ := hd.append_inv
  obtain ⟨hsame, hids, hhosts⟩ := updateSegment_frame hupdate hd₁
  simp only [Prog.request, Prog.bind_call, Prog.bind_ok, returns_call] at hk
  obtain ⟨existing, tr₃, rfl, hk⟩ := hk
  obtain ⟨w₂, hev, hd₃⟩ := hd₂.cons_inv
  have hnone : existing = [] ∧ w₂ = w₁ := by
    cases hev with
    | answered ha =>
      obtain ⟨rfl, rfl⟩ := ha
      exact ⟨by rw [hhosts, hempty], rfl⟩
  obtain ⟨rfl, rfl⟩ := hnone
  simp only [checkExisting, MasakariSegment.checked, Prog.bind_ok] at hk
  obtain ⟨n, tr₄, tr₅, rfl, hloop, hend⟩ := returns_bind.mp hk
  obtain ⟨rfl, _⟩ := returns_ok.mp hend
  rw [List.append_nil] at hd₃
  obtain ⟨hids', hnames⟩ := changeHosts_names hloop hd₃
  refine ⟨hids'.trans hids, ?_⟩
  rw [← hsame, hnames, Masakari.names, hhosts, hempty]
  rfl

/-- The reconciliation of an empty Masakari leaves one segment with the desired hosts. -/
theorem reconcileSegment_hosts {raw : Value} {report : SegmentReport}
    (h : Returns (reconcileSegment rt raw) tr report) (hd : Drives MasakariStep {} tr w') :
    ∃ spec segment, normalizeSegmentSpec rt raw = .ok spec ∧ w'.segmentIds = [segment] ∧
      w'.names segment = spec.hosts.map DesiredHost.name := by
  unfold reconcileSegment MasakariSegment.checked at h
  cases hspec : normalizeSegmentSpec rt raw with
  | error e => rw [hspec] at h; exact absurd h (by simp)
  | ok spec =>
    rw [hspec] at h
    simp only [Prog.request, Prog.bind_def, Prog.bind_call, Prog.bind_ok, returns_call] at h
    obtain ⟨segments, tr', rfl, hmatch⟩ := h
    obtain ⟨w₁, hev, hrest⟩ := hd.cons_inv
    have hread : segments = [] ∧ w₁ = {} := by
      cases hev with
      | answered ha => exact ha
    obtain ⟨rfl, rfl⟩ := hread
    simp only [List.filter_nil, Bool.false_eq_true, if_false, returns_call] at hmatch
    obtain ⟨segment, tr₁, rfl, hexisting⟩ := hmatch
    obtain ⟨w₂, hev, hd₂⟩ := hrest.cons_inv
    have hcreated : w₂.segmentIds = [segment.toSegment] ∧ ∀ s, w₂.hosts s = [] := by
      cases hev with
      | answered ha =>
        obtain ⟨_, _, rfl⟩ := ha
        refine ⟨rfl, fun s => ?_⟩
        by_cases hs : s = segment.toSegment
        · rw [hs]; exact Function.update_self _ _ _
        · exact Function.update_of_ne hs _ _
    obtain ⟨hid, hempty⟩ := hcreated
    obtain ⟨hids, hnames⟩ := reconcileExisting_hosts hexisting hd₂ hempty
    exact ⟨spec, segment.toSegment, rfl, hids.trans hid, hnames⟩

end Segment

end Declared
end KollaPowerOps
