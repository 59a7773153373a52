import KollaPowerOps.Lib.Runs
import KollaPowerOps.Declared.Identity

/-!
# Declared.NodePlan

What a reconciliation of a node does to Ironic is decided by its first answers: the nodes and the
ports. A check run and a real run from one state therefore report the same, and a real run that is
refused has made no change.

* `EnrollStep`           : nobody else writes, and a created node is in `enroll`.
* `changePorts_same`     : the loop over the ports ends in check mode as it ends for real.
* `reconcilePorts_same`  : its outcome depends on the ports and on the id of the node only.
* `check_predicts`       : a check run changes nothing, and reports what a real run reports.
* `refused_untouched`    : a run that is refused has changed nothing.
-/

namespace KollaPowerOps
namespace Declared

open Effect IronicNode

/-- The calls that change Ironic. -/
def mutates {τ : Type} : BaremetalCall τ → Bool
  | .nodes => false
  | .ports => false
  | .getNode _ => false
  | _ => true

/-- A node that the event created is in `enroll`. -/
def Enrolls (ev : NodeEvent) : Prop :=
  ∀ node, createdNode ev = some node → node.provisionState = some "enroll"

def EnrollStep : Env BaremetalCall ReconcileExn Ironic :=
  fun w ev w' => IronicStep w ev w' ∧ Enrolls ev

theorem enrollStep_answering : Answering EnrollStep := by
  rintro w ev w' ⟨hs, _⟩
  cases hs with
  | answered ha => exact ⟨_, rfl⟩

theorem enrollStep_unchanged {w w' : Ironic} {ev : NodeEvent} (hs : EnrollStep w ev w')
    (h : mutates ev.op = false) : w' = w := by
  cases hs.1 with
  | @answered _ _ op _ ha =>
    cases op with
    | nodes => exact ha.2
    | ports => exact ha.2
    | getNode node => exact ha.2
    | createNode name driver info network extra => cases h
    | updateNode node updates => cases h
    | setNodeProvisionState node target timeout => cases h
    | createPort nodeId address network => cases h
    | updatePort port network => cases h

/-- Without a change Ironic stays as it is. -/
theorem runs_unchanged {α : Type} {p : NodeOp α} {w w' : Ironic} {tr : List NodeEvent}
    {r : Except ReconcileExn α} (h : Runs EnrollStep w p tr r w')
    (hread : ∀ ev ∈ tr, mutates ev.op = false) : w' = w :=
  h.2.keeps (I := fun u => u = w)
    (fun ev hev _ _ hs hu => (enrollStep_unchanged hs (hread ev hev)).trans hu) rfl

/-- An environment that answers every call, and the listings with what is there. -/
structure Lists (env : Env BaremetalCall ReconcileExn Ironic) : Prop where
  answering : Answering env
  nodes : ∀ {w w' nodes}, env w ⟨.nodes, .ok nodes⟩ w' → nodes = w.nodes ∧ w' = w
  ports : ∀ {w w' ports}, env w ⟨.ports, .ok ports⟩ w' → ports = w.ports ∧ w' = w

theorem enrollStep_lists : Lists EnrollStep where
  answering := enrollStep_answering
  nodes h := by
    cases h.1 with
    | answered ha => exact ha
  ports h := by
    cases h.1 with
    | answered ha => exact ha

/-- Every port belongs to a node that is there. -/
def Ironic.Owned (w : Ironic) : Prop :=
  ∀ port ∈ w.ports, ∃ node ∈ w.nodes, port.nodeId = some node.id

section Run

variable {env : Env BaremetalCall ReconcileExn Ironic} {rt : PyRuntime} {checkMode : Bool}
  {w w' : Ironic} {tr : List NodeEvent}

/-! ## Ports -/

/-- Made or not, a change is followed by the rest of the program. -/
theorem runs_change {α : Type} {op : BaremetalCall Unit} {f : Unit → NodeOp α}
    {r : Except ReconcileExn α} (henv : Lists env)
    (h : Runs env w ((IronicNode.change checkMode () op).bind f) tr r w') :
    ∃ w₁ tr', Runs env w₁ (f ()) tr' r w' := by
  cases checkMode with
  | true => exact ⟨w, tr, h⟩
  | false =>
    obtain ⟨_, w₁, tr', _, _, hrest⟩ := (runs_call henv.answering).mp h
    exact ⟨w₁, tr', hrest⟩

/-- One more change. -/
theorem runs_count {p : NodeOp Nat} {r : Except ReconcileExn Nat}
    (h : Runs env w (p.bind fun n => .done (.ok (n + 1))) tr r w') :
    ∃ r' w₁ tr', Runs env w p tr' r' w₁ ∧ r = r'.map (· + 1) := by
  rcases runs_bind.mp h with ⟨n, tr₁, tr₂, w₁, _, hp, hend⟩ | ⟨e, hp, rfl⟩
  · obtain ⟨_, rfl, _⟩ := runs_done.mp hend
    exact ⟨.ok n, w₁, tr₁, hp, rfl⟩
  · exact ⟨.error e, w', tr, hp, rfl⟩

theorem done_count {p : NodeOp Nat} {r : Except ReconcileExn Nat} (h : p = .done r) :
    (p.bind fun n => .done (.ok (n + 1))) = .done (r.map (· + 1)) := by
  rw [h]
  cases r <;> rfl

/-- The loop over the ports ends in check mode as it ends for real. -/
theorem changePorts_same {id : String} {allPorts : List IronicPort} {desired : List DesiredPort}
    {r : Except ReconcileExn Nat} (henv : Lists env)
    (h : Runs env w (changePorts rt id allPorts checkMode desired) tr r w') :
    changePorts rt id allPorts true desired = .done r := by
  induction desired generalizing w tr r w' with
  | nil =>
    obtain ⟨_, rfl, _⟩ := runs_done.mp h
    rfl
  | cons port desired ih =>
    simp only [changePorts, IronicNode.checked, Prog.bind_def, Prog.pure_def] at h ⊢
    rcases hfound : portsOf rt allPorts port.address with _ | ⟨found, _ | ⟨second, more⟩⟩
    · simp only [hfound, refuseIf, List.length_nil, Nat.not_lt_zero, gt_iff_lt, decide_false,
        Bool.false_eq_true, if_false, Prog.bind_ok] at h ⊢
      obtain ⟨w₁, tr₁, hrest⟩ := runs_change henv h
      obtain ⟨r', w₂, tr₂, hloop, rfl⟩ := runs_count hrest
      exact done_count (ih hloop)
    · simp only [hfound, refuseIf, List.length_singleton, gt_iff_lt, Nat.lt_irrefl, decide_false,
        Bool.false_eq_true, if_false, Prog.bind_ok] at h ⊢
      by_cases hown : (found.nodeId != some id) = true
      · simp only [hown, if_true, Prog.bind_error] at h ⊢
        obtain ⟨_, rfl, _⟩ := runs_done.mp h
        rfl
      · simp only [hown, if_false, Prog.bind_ok, Bool.false_eq_true] at h ⊢
        by_cases hnet : found.physicalNetwork.eq port.physicalNetwork = true
        · simp only [hnet, if_true] at h ⊢
          exact ih h
        · simp only [hnet, if_false, Bool.false_eq_true] at h ⊢
          obtain ⟨w₁, tr₁, hrest⟩ := runs_change henv h
          obtain ⟨r', w₂, tr₂, hloop, rfl⟩ := runs_count hrest
          exact done_count (ih hloop)
    · simp only [hfound, refuseIf, List.length_cons, gt_iff_lt, Nat.lt_add_left_iff_pos,
        Nat.zero_lt_succ, decide_true, if_true, Prog.bind_error] at h ⊢
      obtain ⟨_, rfl, _⟩ := runs_done.mp h
      rfl

/-- The rest of `reconcile_ports` in check mode, once the ports are listed. -/
def checkPorts (rt : PyRuntime) (allPorts : List IronicPort) (id : String)
    (desired : List DesiredPort) : NodeOp PortsReport :=
  (changePorts rt id allPorts true desired).bind fun changed =>
    pure ⟨changed, ((allPorts.filter fun port =>
      port.nodeId = some id ∧
        addressOf rt port ∉ desired.map DesiredPort.address).map (addressOf rt)).mergeSort⟩

/-- The outcome of the port pass depends on the ports and on the id of the node only. -/
theorem reconcilePorts_same {node : ManagedNode} {desired : List DesiredPort}
    {r : Except ReconcileExn PortsReport} (henv : Lists env)
    (h : Runs env w (reconcilePorts rt node desired checkMode) tr r w') :
    checkPorts rt w.ports node.id desired = .done r := by
  simp only [reconcilePorts, Prog.bind_def, Prog.bind_request] at h
  obtain ⟨ports, w₁, tr₁, _, hev, hrest⟩ := (runs_call henv.answering).mp h
  obtain ⟨rfl, rfl⟩ := henv.ports hev
  rcases runs_bind.mp hrest with ⟨n, tr₂, tr₃, w₂, _, hloop, hend⟩ | ⟨e, hloop, rfl⟩
  · obtain ⟨_, rfl, _⟩ := runs_done.mp hend
    rw [checkPorts, changePorts_same henv hloop]
    rfl
  · rw [checkPorts, changePorts_same henv hloop]
    rfl

/-- What the ownership check accepts. -/
theorem checkOwnership_ok {allPorts : List IronicPort} {id : Option String}
    {desired : List DesiredPort} :
    checkOwnership rt allPorts id desired = .ok () ↔
      ∀ port ∈ desired, (portsOf rt allPorts port.address).length ≤ 1 ∧
        ∀ found ∈ portsOf rt allPorts port.address, found.nodeId = id := by
  induction desired with
  | nil => simp [checkOwnership]
  | cons port desired ih =>
    simp only [checkOwnership, pyBind_ok, refuseIf_ok, List.forall_mem_cons, ih]
    simp [and_assoc]

/-- A port pass over owned ports cannot fail. -/
theorem changePorts_owned {allPorts : List IronicPort} {id : String} {desired : List DesiredPort}
    (h : checkOwnership rt allPorts (some id) desired = .ok ()) :
    ∃ n, changePorts rt id allPorts true desired = .done (.ok n) := by
  have hall := checkOwnership_ok.mp h
  clear h
  induction desired with
  | nil => exact ⟨0, rfl⟩
  | cons port desired ih =>
    obtain ⟨⟨hone, hown⟩, hrest⟩ := List.forall_mem_cons.mp hall
    obtain ⟨n, hn⟩ := ih hrest
    rcases hfound : portsOf rt allPorts port.address with _ | ⟨found, _ | ⟨second, more⟩⟩
    · exact ⟨n + 1, by simp [changePorts, hfound, refuseIf, IronicNode.checked,
        IronicNode.change, hn]⟩
    · have hid : found.nodeId = some id := hown found (by rw [hfound]; simp)
      by_cases hnet : found.physicalNetwork.eq port.physicalNetwork = true
      · exact ⟨n, by simp [changePorts, hfound, refuseIf, IronicNode.checked, hid, hnet, hn]⟩
      · exact ⟨n + 1, by simp [changePorts, hfound, refuseIf, IronicNode.checked, hid, hnet,
          IronicNode.change, hn]⟩
    · rw [hfound] at hone
      simp at hone

/-- Where no desired port exists, all are created. -/
theorem changePorts_new {allPorts : List IronicPort} {id : String} {desired : List DesiredPort}
    (h : ∀ port ∈ desired, portsOf rt allPorts port.address = []) :
    changePorts rt id allPorts true desired = .done (.ok desired.length) := by
  induction desired with
  | nil => rfl
  | cons port desired ih =>
    obtain ⟨hnone, hrest⟩ := List.forall_mem_cons.mp h
    simp [changePorts, hnone, refuseIf, IronicNode.checked, IronicNode.change, ih hrest]

/-- A new node has no ports: all of its declared ones are created, and it has no others. -/
theorem checkPorts_fresh {id : String} {desired : List DesiredPort} (hw : w.Owned)
    (hfresh : ∀ node ∈ w.nodes, node.id ≠ id)
    (h : checkOwnership rt w.ports none desired = .ok ()) :
    checkPorts rt w.ports id desired = .done (.ok ⟨desired.length, []⟩) := by
  have hnone : ∀ port ∈ desired, portsOf rt w.ports port.address = [] := by
    intro port hport
    rw [List.eq_nil_iff_forall_not_mem]
    intro found hfound
    obtain ⟨node, _, hnode⟩ := hw found (List.mem_of_mem_filter hfound)
    rw [(checkOwnership_ok.mp h port hport).2 found hfound] at hnode
    cases hnode
  have hextra : w.ports.filter (fun port => decide (port.nodeId = some id ∧
      addressOf rt port ∉ desired.map DesiredPort.address)) = [] := by
    rw [List.filter_eq_nil_iff]
    intro port hport hmine
    obtain ⟨node, hnode, hid⟩ := hw port hport
    have hsame : some node.id = some id := hid.symm.trans (of_decide_eq_true hmine).1
    exact hfresh node hnode (Option.some.inj hsame)
  rw [checkPorts, changePorts_new hnone, Prog.bind_ok, hextra, List.map_nil,
    List.mergeSort_nil]
  rfl

/-! ## The node -/

theorem updateNode_runs {spec : NodeSpec} {node : ManagedNode} {r : Except ReconcileExn ManagedNode}
    (h : Runs EnrollStep w (updateNode node spec checkMode) tr r w') :
    ∃ node', r = .ok node' ∧ node'.id = node.id ∧ w'.ports = w.ports := by
  unfold updateNode IronicNode.change at h
  split at h
  · split at h
    · obtain ⟨_, rfl, rfl⟩ := runs_done.mp h
      exact ⟨node, rfl, rfl, rfl⟩
    · obtain ⟨node', w₁, tr', _, hev, hrest⟩ := (runs_call enrollStep_answering).mp h
      obtain ⟨_, rfl, rfl⟩ := runs_done.mp hrest
      cases hev.1 with
      | answered ha => exact ⟨node', rfl, congrArg Prod.fst ha.1, ha.2.2⟩
  · obtain ⟨_, rfl, rfl⟩ := runs_done.mp h
    exact ⟨node, rfl, rfl, rfl⟩

theorem manageNode_runs {state : Option String} {timeout : Int} {node : ManagedNode}
    {r : Except ReconcileExn ManagedNode}
    (h : Runs EnrollStep w (manageNode node state checkMode timeout) tr r w') :
    ∃ node', r = .ok node' ∧ node'.id = node.id ∧ w'.ports = w.ports := by
  unfold manageNode at h
  split at h
  · simp only [Prog.bind_def, Prog.request] at h
    obtain ⟨moved, w₁, tr', _, hset, hrest⟩ := (runs_call enrollStep_answering).mp h
    obtain ⟨read, w₂, tr'', _, hget, hend⟩ := (runs_call enrollStep_answering).mp hrest
    obtain ⟨_, rfl, rfl⟩ := runs_done.mp hend
    cases hset.1 with
    | answered hs =>
      cases hget.1 with
      | answered hg =>
        refine ⟨read, rfl, ?_, ?_⟩
        · exact (congrArg Prod.fst hg.1).trans (congrArg Prod.fst hs.1)
        · rw [hg.2]
          exact hs.2.2
  · obtain ⟨_, rfl, rfl⟩ := runs_done.mp h
    exact ⟨node, rfl, rfl, rfl⟩

/-- The values of a report that check mode foretells. -/
structure Forecast where
  changed : Bool
  portsChanged : Nat
  extraPorts : List String
  deriving DecidableEq, Repr

def IronicNode.NodeReport.forecast (report : NodeReport) : Forecast :=
  ⟨report.changed, report.portsChanged, report.extraPorts⟩

/-- What a reconciliation of an existing node reports, by the outcome of its port pass. -/
def foresee (spec : NodeSpec) (created : Bool) (node : ManagedNode) (ports : PortsReport) :
    Forecast where
  changed := created || (updatesFor node spec).isSome ||
    decide (node.provisionState = some "enroll") || decide (ports.portsChanged > 0)
  portsChanged := ports.portsChanged
  extraPorts := ports.extraPorts

def forbidden (node : ManagedNode) : Bool :=
  node.provisionState != some "enroll" && node.provisionState != some "manageable"

/-- Past the check of the provision state only the port pass can fail. -/
theorem reconcileExisting_outcome {spec : NodeSpec} {timeout : Int} {created : Bool}
    {node : ManagedNode} {r : Except ReconcileExn NodeReport}
    (h : Runs EnrollStep w
      (IronicNode.reconcileExisting rt spec checkMode timeout created node) tr r w') :
    (forbidden node = true ∧ tr = [] ∧
      r = .error (.reconciliation ("Ironic Node " ++ spec.name ++
        " is in forbidden provision state " ++ node.provisionState.getD "None"))) ∨
      forbidden node = false ∧ ∃ ports, checkPorts rt w.ports node.id spec.ports = .done ports ∧
        r.map NodeReport.forecast = ports.map (foresee spec created node) := by
  simp only [IronicNode.reconcileExisting, IronicNode.checked, Prog.bind_def, Prog.pure_def] at h
  cases hstate : forbidden node with
  | true =>
    rw [forbidden] at hstate
    rw [hstate, refuseIf, if_pos rfl] at h
    obtain ⟨rfl, rfl, _⟩ := runs_done.mp h
    exact .inl ⟨rfl, rfl, rfl⟩
  | false =>
    refine .inr ⟨rfl, ?_⟩
    rw [forbidden] at hstate
    rw [hstate, refuseIf, if_neg Bool.false_ne_true, Prog.bind_ok] at h
    rcases runs_bind.mp h with ⟨updated, tr₁, tr₂, w₁, _, hupdate, hrest⟩ | ⟨e, hupdate, _⟩
    · obtain ⟨_, hok, hid₁, hports₁⟩ := updateNode_runs hupdate
      cases hok
      rcases runs_bind.mp hrest with ⟨managed, tr₃, tr₄, w₂, _, hmanage, hend⟩ | ⟨e, hmanage, _⟩
      · obtain ⟨_, hok, hid₂, hports₂⟩ := manageNode_runs hmanage
        cases hok
        rcases runs_bind.mp hend with ⟨ports, tr₅, tr₆, w₃, _, hports, hdone⟩ | ⟨e, hports, rfl⟩
        · obtain ⟨_, rfl, _⟩ := runs_done.mp hdone
          have hsame := reconcilePorts_same enrollStep_lists hports
          rw [hports₂, hports₁, hid₂, hid₁] at hsame
          exact ⟨.ok ports, hsame, rfl⟩
        · have hsame := reconcilePorts_same enrollStep_lists hports
          rw [hports₂, hports₁, hid₂, hid₁] at hsame
          exact ⟨.error e, hsame, rfl⟩
      · obtain ⟨_, hok, _⟩ := manageNode_runs hmanage
        cases hok
    · obtain ⟨_, hok, _⟩ := updateNode_runs hupdate
      cases hok

/-- The nodes are read, and the rest follows. -/
theorem runs_nodes {α : Type} {k : List ManagedNode → NodeOp α} {r : Except ReconcileExn α}
    (henv : Lists env) (h : Runs env w (.call .nodes k) tr r w') :
    ∃ tr', tr = ⟨.nodes, .ok w.nodes⟩ :: tr' ∧ Runs env w (k w.nodes) tr' r w' := by
  obtain ⟨nodes, w₁, tr', rfl, hev, hrest⟩ := (runs_call henv.answering).mp h
  obtain ⟨rfl, rfl⟩ := henv.nodes hev
  exact ⟨tr', rfl, hrest⟩

/-- The preflight reads the ports, and refuses them or lets the rest follow. -/
theorem runs_preflight {α : Type} {ports : List DesiredPort} {id : Option String}
    {f : Unit → NodeOp α} {r : Except ReconcileExn α} (henv : Lists env)
    (h : Runs env w ((preflightPortOwnership rt ports id).bind f) tr r w') :
    ∃ tr', tr = ⟨.ports, .ok w.ports⟩ :: tr' ∧
      ((∃ e, checkOwnership rt w.ports id ports = .error e ∧ tr' = [] ∧ r = .error e ∧ w' = w) ∨
        checkOwnership rt w.ports id ports = .ok () ∧ Runs env w (f ()) tr' r w') := by
  simp only [preflightPortOwnership, Prog.request, Prog.bind_def, Prog.bind_call, Prog.bind_ok] at h
  obtain ⟨all, w₁, tr', rfl, hev, hrest⟩ := (runs_call henv.answering).mp h
  obtain ⟨rfl, rfl⟩ := henv.ports hev
  refine ⟨tr', rfl, ?_⟩
  cases hcheck : checkOwnership rt w₁.ports id ports with
  | error e =>
    rw [hcheck] at hrest
    obtain ⟨rfl, rfl, rfl⟩ := runs_done.mp hrest
    exact .inl ⟨e, rfl, rfl, rfl, rfl⟩
  | ok u =>
    rw [hcheck] at hrest
    exact .inr ⟨rfl, hrest⟩

/-- The node that a reconciliation creates: it is new, and in `enroll`. -/
theorem runs_createNode {α : Type} {spec : NodeSpec} {f : ManagedNode → NodeOp α}
    {r : Except ReconcileExn α} (h : Runs EnrollStep w ((createNode spec).bind f) tr r w') :
    ∃ node w₁ tr', Runs EnrollStep w₁ (f node) tr' r w' ∧ w₁.ports = w.ports ∧
      (∀ other ∈ w.nodes, other.id ≠ node.id) ∧ node.provisionState = some "enroll" := by
  simp only [createNode, Prog.bind_request] at h
  obtain ⟨node, w₁, tr', _, ⟨hs, henroll⟩, hrest⟩ := (runs_call enrollStep_answering).mp h
  cases hs with
  | answered ha =>
    obtain ⟨_, hfresh, rfl⟩ := ha
    exact ⟨node, _, tr', hrest, rfl, hfresh, henroll node rfl⟩

theorem enroll_allowed {node : ManagedNode} (h : node.provisionState = some "enroll") :
    forbidden node = false := by
  rw [forbidden, h]
  decide

/-- After an accepted preflight, a reconciliation fails only in the check of the provision
state. -/
theorem reconcileExisting_refused {spec : NodeSpec} {timeout : Int} {created : Bool}
    {node : ManagedNode} {e : ReconcileExn}
    (hown : checkOwnership rt w.ports (some node.id) spec.ports = .ok ())
    (h : Runs EnrollStep w
      (IronicNode.reconcileExisting rt spec checkMode timeout created node) tr (.error e) w') :
    forbidden node = true ∧ tr = [] := by
  rcases reconcileExisting_outcome h with ⟨hstate, rfl, _⟩ | ⟨_, ports, hports, hmap⟩
  · exact ⟨hstate, rfl⟩
  · obtain ⟨n, hn⟩ := changePorts_owned hown
    rw [checkPorts, hn] at hports
    cases hports
    cases hmap

/-- A created node is reconciled without failure, and all of its ports are created. -/
theorem created_outcome {spec : NodeSpec} {timeout : Int} {node : ManagedNode} {w₁ : Ironic}
    {r : Except ReconcileExn NodeReport} (hw : w.Owned) (hports : w₁.ports = w.ports)
    (hfresh : ∀ other ∈ w.nodes, other.id ≠ node.id)
    (henroll : node.provisionState = some "enroll")
    (hown : checkOwnership rt w.ports none spec.ports = .ok ())
    (h : Runs EnrollStep w₁
      (IronicNode.reconcileExisting rt spec checkMode timeout true node) tr r w') :
    r.map NodeReport.forecast = .ok ⟨true, spec.ports.length, []⟩ := by
  rcases reconcileExisting_outcome h with ⟨hstate, _⟩ | ⟨_, ports, hpass, hmap⟩
  · rw [enroll_allowed henroll] at hstate
    cases hstate
  · rw [hports, checkPorts_fresh hw hfresh hown] at hpass
    cases hpass
    rw [hmap]
    rfl

/-- Check mode foretells the real run, from the same state. -/
theorem reconcile_foretold {spec : NodeSpec} {timeout timeout' : Int} {wc wr : Ironic}
    {trc trr : List NodeEvent} {rc rr : Except ReconcileExn NodeReport} (hw : w.Owned)
    (hcheck : Runs EnrollStep w (reconcile rt spec true timeout) trc rc wc)
    (hreal : Runs EnrollStep w (reconcile rt spec false timeout') trr rr wr) :
    rc.map NodeReport.forecast = rr.map NodeReport.forecast := by
  simp only [reconcile, Prog.bind_def, Prog.bind_request] at hcheck hreal
  obtain ⟨tr₁, _, hcheck⟩ := runs_nodes enrollStep_lists hcheck
  obtain ⟨tr₂, _, hreal⟩ := runs_nodes enrollStep_lists hreal
  rcases hmatch : w.nodes.filter (fun node => node.name = some spec.name) with
    _ | ⟨node, _ | ⟨second, more⟩⟩
  · simp only [hmatch] at hcheck hreal
    obtain ⟨tr₃, _, ⟨e, herr, _, rfl, _⟩ | ⟨hok, hcheck⟩⟩ := runs_preflight enrollStep_lists hcheck <;>
      obtain ⟨tr₄, _, ⟨e', herr', _, rfl, _⟩ | ⟨hok', hreal⟩⟩ := runs_preflight enrollStep_lists hreal
    · rw [herr] at herr'
      cases herr'
      rfl
    · rw [herr] at hok'
      cases hok'
    · rw [hok] at herr'
      cases herr'
    · rw [if_pos trivial] at hcheck
      rw [if_neg Bool.false_ne_true] at hreal
      obtain ⟨_, rfl, _⟩ := runs_done.mp hcheck
      obtain ⟨node, w₁, tr₅, hexisting, hports, hfresh, henroll⟩ := runs_createNode hreal
      exact (created_outcome hw hports hfresh henroll hok hexisting).symm
  · simp only [hmatch] at hcheck hreal
    obtain ⟨tr₃, _, ⟨e, herr, _, rfl, _⟩ | ⟨hok, hcheck⟩⟩ := runs_preflight enrollStep_lists hcheck <;>
      obtain ⟨tr₄, _, ⟨e', herr', _, rfl, _⟩ | ⟨hok', hreal⟩⟩ := runs_preflight enrollStep_lists hreal
    · rw [herr] at herr'
      cases herr'
      rfl
    · rw [herr] at hok'
      cases hok'
    · rw [hok] at herr'
      cases herr'
    · rcases reconcileExisting_outcome hcheck with ⟨hstate, _, rfl⟩ | ⟨hstate, ports, hpass, hmap⟩ <;>
        rcases reconcileExisting_outcome hreal with
          ⟨hstate', _, rfl⟩ | ⟨hstate', ports', hpass', hmap'⟩
      · rfl
      · rw [hstate] at hstate'
        cases hstate'
      · rw [hstate] at hstate'
        cases hstate'
      · rw [hpass] at hpass'
        cases hpass'
        rw [hmap, hmap']
  · simp only [hmatch] at hcheck hreal
    obtain ⟨_, rfl, _⟩ := runs_raise.mp hcheck
    obtain ⟨_, rfl, _⟩ := runs_raise.mp hreal
    rfl

/-- A real run that is refused has made no change. -/
theorem reconcile_refused {spec : NodeSpec} {timeout : Int} {e : ReconcileExn} (hw : w.Owned)
    (h : Runs EnrollStep w (reconcile rt spec checkMode timeout) tr (.error e) w') :
    ∀ ev ∈ tr, mutates ev.op = false := by
  simp only [reconcile, Prog.bind_def, Prog.bind_request] at h
  obtain ⟨tr₁, rfl, hread⟩ := runs_nodes enrollStep_lists h
  refine List.forall_mem_cons.mpr ⟨rfl, ?_⟩
  rcases hmatch : w.nodes.filter (fun node => node.name = some spec.name) with
    _ | ⟨node, _ | ⟨second, more⟩⟩
  · simp only [hmatch] at hread
    obtain ⟨tr₂, rfl, hrest⟩ := runs_preflight enrollStep_lists hread
    refine List.forall_mem_cons.mpr ⟨rfl, ?_⟩
    rcases hrest with ⟨_, _, rfl, _⟩ | ⟨hok, hrest⟩
    · exact List.forall_mem_nil _
    · cases checkMode with
      | true => cases (runs_done.mp hrest).2.1
      | false =>
        rw [if_neg Bool.false_ne_true] at hrest
        obtain ⟨node, w₁, tr₃, hexisting, hports, hfresh, henroll⟩ := runs_createNode hrest
        cases created_outcome hw hports hfresh henroll hok hexisting
  · simp only [hmatch] at hread
    obtain ⟨tr₂, rfl, hrest⟩ := runs_preflight enrollStep_lists hread
    refine List.forall_mem_cons.mpr ⟨rfl, ?_⟩
    rcases hrest with ⟨_, _, rfl, _⟩ | ⟨hok, hrest⟩
    · exact List.forall_mem_nil _
    · rw [(reconcileExisting_refused hok hrest).2]
      exact List.forall_mem_nil _
  · simp only [hmatch] at hread
    rw [(runs_raise.mp hread).1]
    exact List.forall_mem_nil _

/-! ## Check mode -/

/-- A part of a reconciliation that changes nothing. -/
abbrev Reads {α : Type} (p : NodeOp α) : Prop := p.Uses fun op => mutates op = false

theorem checked_reads {α : Type} (r : Except ReconcileExn α) : Reads (IronicNode.checked r) := by
  cases r <;> trivial

theorem preflight_reads (ports : List DesiredPort) (id : Option String) :
    Reads (preflightPortOwnership rt ports id) :=
  ⟨rfl, fun _ => checked_reads _⟩

theorem changePorts_reads (id : String) (allPorts : List IronicPort) (ports : List DesiredPort) :
    Reads (changePorts rt id allPorts true ports) := by
  induction ports with
  | nil => trivial
  | cons desired ports ih =>
    refine (checked_reads _).bind fun _ => ?_
    cases portsOf rt allPorts desired.address with
    | nil => exact ih.bind fun _ => trivial
    | cons port _ =>
      refine (checked_reads _).bind fun _ => ?_
      split
      · exact ih
      · exact ih.bind fun _ => trivial

theorem reconcileExisting_reads (spec : NodeSpec) (timeout : Int) (created : Bool)
    (node : ManagedNode) :
    Reads (IronicNode.reconcileExisting rt spec true timeout created node) := by
  refine (checked_reads _).bind fun _ => ?_
  have hupdate : updateNode node spec true = pure node := by
    unfold updateNode
    split <;> rfl
  have hmanage : manageNode node node.provisionState true timeout = pure node := by
    simp [manageNode]
  simp only [hupdate, hmanage, Prog.bind_def, Prog.pure_def, Prog.bind_ok]
  have hports : Reads (reconcilePorts rt node spec.ports true) :=
    ⟨rfl, fun _ => (changePorts_reads _ _ _).bind fun _ => trivial⟩
  exact hports.bind fun _ => trivial

theorem reconcileNode_reads (raw : Value) (timeout : Int) :
    Reads (reconcileNode rt raw true timeout) := by
  refine (checked_reads _).bind fun spec => ⟨rfl, fun nodes => ?_⟩
  simp only [Prog.bind_ok]
  split
  · exact (preflight_reads _ _).bind fun _ => trivial
  · exact (preflight_reads _ _).bind fun _ => reconcileExisting_reads _ _ _ _
  · trivial

/-- A run of the module is one of the reconciliation, past an accepted specification. -/
theorem reconcileNode_runs {raw : Value} {timeout : Int} {r : Except ReconcileExn NodeReport}
    (h : Runs env w (reconcileNode rt raw checkMode timeout) tr r w') :
    (∃ spec, normalizeSpec rt raw = .ok spec ∧
      Runs env w (reconcile rt spec checkMode timeout) tr r w') ∨
      ∃ e, normalizeSpec rt raw = .error e ∧ tr = [] ∧ r = .error e := by
  unfold reconcileNode IronicNode.checked at h
  cases hspec : normalizeSpec rt raw with
  | ok spec =>
    rw [hspec] at h
    exact .inl ⟨spec, rfl, h⟩
  | error e =>
    rw [hspec] at h
    obtain ⟨rfl, rfl, _⟩ := runs_done.mp h
    exact .inr ⟨e, rfl, rfl, rfl⟩

end Run

/-! ## A drifted node -/

theorem ironicSim_enrollStep (w : Ironic) {τ : Type} (op : BaremetalCall τ) :
    EnrollStep w ⟨op, (ironicSim w op).1⟩ (ironicSim w op).2 := by
  refine ⟨ironicSim_step w op, fun node hnode => ?_⟩
  cases op with
  | createNode name driver info network extra =>
    cases hnode
    rfl
  | _ => cases hnode

/-- The run of a reconciliation in an Ironic that stores what it is given. -/
theorem runs_simulate {raw : Value} {checkMode : Bool} {timeout : Int} (w : Ironic) :
    Runs EnrollStep w (reconcileNode PyRuntime.ascii raw checkMode timeout)
      ((reconcileNode PyRuntime.ascii raw checkMode timeout).simulate ironicSim w).1
      ((reconcileNode PyRuntime.ascii raw checkMode timeout).simulate ironicSim w).2.1
      ((reconcileNode PyRuntime.ascii raw checkMode timeout).simulate ironicSim w).2.2 :=
  Prog.simulate_finishes (fun w _ op => ironicSim_enrollStep w op) _ _

/-- Two nodes: one of the name `node-01`, with a port that is not declared, and one that owns the
port with the given address, written in upper case. -/
def drifted (state address : String) : Ironic where
  nodes := [
    { id := "1", name := "node-01", provisionState := state, driver := "ipmi" },
    { id := "2", name := "node-02", provisionState := "active" }]
  ports := [
    ⟨"10", "1", "52:54:00:00:00:07", .none⟩,
    ⟨"11", "2", address, .none⟩]

theorem drifted_owned (state address : String) : (drifted state address).Owned := by
  intro port hport
  rcases List.mem_pair.mp hport with rfl | rfl
  · exact ⟨_, List.mem_cons_self, rfl⟩
  · exact ⟨_, List.mem_cons_of_mem _ List.mem_cons_self, rfl⟩

/-! ## Whole runs -/

/-- A check run makes no change, and ends as a real run from the same state: with the same
exception, or with the same report of changes and of extra ports. -/
theorem check_predicts {rt : PyRuntime} {raw : Value} {timeout : Int} {w wc wr : Ironic}
    {trc trr : List NodeEvent} {rc rr : Except ReconcileExn NodeReport} (hw : w.Owned)
    (hcheck : Runs EnrollStep w (reconcileNode rt raw true timeout) trc rc wc)
    (hreal : Runs EnrollStep w (reconcileNode rt raw false timeout) trr rr wr) :
    (∀ ev ∈ trc, mutates ev.op = false) ∧ wc = w ∧
      rc.map NodeReport.forecast = rr.map NodeReport.forecast := by
  have hreads : ∀ ev ∈ trc, mutates ev.op = false := hcheck.uses (reconcileNode_reads raw timeout)
  refine ⟨hreads, runs_unchanged hcheck hreads, ?_⟩
  rcases reconcileNode_runs hcheck with ⟨spec, hspec, hrun⟩ | ⟨e, hspec, _, rfl⟩ <;>
    rcases reconcileNode_runs hreal with ⟨spec', hspec', hrun'⟩ | ⟨e', hspec', _, rfl⟩ <;>
    rw [hspec] at hspec' <;> cases hspec'
  · exact reconcile_foretold hw hrun hrun'
  · rfl

/-- In both modes one port is created, and the driver of the node differs. -/
theorem check_predicts_drifted :
    ((reconcileNode PyRuntime.ascii (soleNode "node-01") true).simulate ironicSim
        (drifted "manageable" "52:54:00:AA:00:01")).2.1.map NodeReport.forecast =
      ((reconcileNode PyRuntime.ascii (soleNode "node-01") false).simulate ironicSim
        (drifted "manageable" "52:54:00:AA:00:01")).2.1.map NodeReport.forecast :=
  (check_predicts (drifted_owned _ _) (runs_simulate _) (runs_simulate _)).2.2

/-- A run that ends in an exception has made no change. -/
theorem refused_untouched {rt : PyRuntime} {raw : Value} {checkMode : Bool} {timeout : Int}
    {w w' : Ironic} {tr : List NodeEvent} {e : ReconcileExn} (hw : w.Owned)
    (h : Runs EnrollStep w (reconcileNode rt raw checkMode timeout) tr (.error e) w') :
    (∀ ev ∈ tr, mutates ev.op = false) ∧ w' = w := by
  have hreads : ∀ ev ∈ tr, mutates ev.op = false := by
    rcases reconcileNode_runs h with ⟨spec, _, hrun⟩ | ⟨_, _, rfl, _⟩
    · exact reconcile_refused hw hrun
    · exact List.forall_mem_nil _
  exact ⟨hreads, runs_unchanged h hreads⟩

/-- The declared port of `node-01` belongs to `node-02`. -/
theorem refused_untouched_foreign :
    ((reconcileNode PyRuntime.ascii (soleNode "node-01")).simulate ironicSim
      (drifted "enroll" "52:54:00:00:00:01")).2.2 = drifted "enroll" "52:54:00:00:00:01" := by
  have hfails : ((reconcileNode PyRuntime.ascii (soleNode "node-01")).simulate ironicSim
      (drifted "enroll" "52:54:00:00:00:01")).2.1 =
        .error (.reconciliation (foreignPort "52:54:00:00:00:01")) := rfl
  have hrun : Runs EnrollStep _ (reconcileNode PyRuntime.ascii (soleNode "node-01")) _ _ _ :=
    runs_simulate (drifted "enroll" "52:54:00:00:00:01")
  rw [hfails] at hrun
  exact (refused_untouched (drifted_owned _ _) hrun).2

end Declared
end KollaPowerOps
