import KollaPowerOps.Lib.Loop
import KollaPowerOps.Declared.NodeStore

/-!
# Declared.Fleet

All declared nodes, reconciled one after the other (`reconcile_ironic.yml`).

* `reconcileIronic`  : the item of the loop.
* `Fleet`            : every specification is settled.
* `Beside`           : what no specification declares is as before.
* `fleet_settles`    : a loop without a failure settles the fleet.
* `fleet_converges`  : the loop of the next deployment changes nothing.

A node that is settled stays so while the others are reconciled: their names differ, and a port of
its addresses would have been refused as another node's.
-/

namespace KollaPowerOps
namespace Declared

open Effect IronicNode

/-- The task of `reconcile_ironic.yml` for a node. -/
def reconcileIronic (rt : PyRuntime) (checkMode : Bool) (node : Value) : NodeOp NodeReport :=
  reconcileNode rt node checkMode

section Run

variable {rt : PyRuntime} {spec other : NodeSpec} {w w' : Ironic} {tr : List NodeEvent}

/-! ## One node beside another -/

/-- A successful run has found the ports of the declared addresses with nobody, or with the node of
the name. -/
theorem reconcile_owned {checkMode : Bool} {timeout : Int} {report : NodeReport}
    (h : Runs StoreStep w (reconcile rt spec checkMode timeout) tr (.ok report) w') :
    ∀ port ∈ spec.ports, ∀ found ∈ portsOf rt w.ports port.address, ∀ id, found.nodeId = some id →
      ∃ node ∈ w.nodes, node.name = some spec.name ∧ node.id = id := by
  simp only [reconcile, Prog.bind_def, Prog.bind_request] at h
  obtain ⟨tr₁, rfl, hread⟩ := runs_nodes storeStep_lists h
  rcases hmatch : w.nodes.filter (fun node => node.name = some spec.name) with
    _ | ⟨node, _ | ⟨second, more⟩⟩
  · simp only [hmatch] at hread
    obtain ⟨tr₂, rfl, ⟨_, _, _, herr, _⟩ | ⟨hok, -⟩⟩ := runs_preflight storeStep_lists hread
    · cases herr
    · intro port hport found hfound id hid
      rw [(checkOwnership_ok.mp hok port hport).2 found hfound] at hid
      cases hid
  · simp only [hmatch] at hread
    obtain ⟨tr₂, rfl, ⟨_, _, _, herr, _⟩ | ⟨hok, -⟩⟩ := runs_preflight storeStep_lists hread
    · cases herr
    · intro port hport found hfound id hid
      rw [(checkOwnership_ok.mp hok port hport).2 found hfound] at hid
      obtain ⟨hmem, hname, -⟩ := Table.sole_of_filter hmatch
      exact ⟨node, hmem, hname, Option.some.inj hid⟩
  · simp only [hmatch] at hread
    cases (runs_raise.mp hread).2.1

/-- The nodes of another name are as they were. -/
theorem Untouched.named {node : ManagedNode} (h : Untouched rt other w w' node) {name : String}
    (hname : name ≠ other.name) :
    w'.nodes.filter (fun n => n.name = some name) = w.nodes.filter fun n => n.name = some name := by
  have hsub : ∀ nodes : List ManagedNode, nodes.filter (fun n => n.name = some name) =
      (nodes.filter fun n => n.name ≠ some other.name).filter fun n => n.name = some name := by
    intro nodes
    rw [List.filter_filter]
    refine List.filter_congr fun n _ => ?_
    by_cases hn : n.name = some name <;> simp [hn, hname]
  rw [hsub w'.nodes, h.others, ← hsub]

/-- The ports of an address that is not declared are as they were. -/
theorem Untouched.lookup {node : ManagedNode} (h : Untouched rt other w w' node) {address : String}
    (haddress : address ∉ other.ports.map DesiredPort.address) :
    portsOf rt w'.ports address = portsOf rt w.ports address := by
  have hsub : ∀ v : Ironic, portsOf rt v.ports address =
      (undeclaredPorts rt other v).filter fun port => addressOf rt port = address := by
    intro v
    rw [portsOf, undeclaredPorts, List.filter_filter]
    refine List.filter_congr fun port _ => ?_
    by_cases hport : addressOf rt port = address
    · simpa [hport] using haddress
    · simp [hport]
  rw [hsub w', h.ports, ← hsub]

/-- A settled node stays settled while a node of another name is reconciled. -/
theorem Settled.kept {timeout : Int} {report : NodeReport} {node : ManagedNode}
    (hs : Settled rt spec w node) (hw : w.Sound) (hother : Normal rt other)
    (hname : spec.name ≠ other.name)
    (h : Runs StoreStep w (reconcile rt other false timeout) tr (.ok report) w') :
    Settled rt spec w' node := by
  obtain ⟨⟨node', -, huntouched⟩, -, -⟩ := reconcile_settles hother hw h
  refine ⟨(huntouched.named hname).trans hs.sole, hs.settings, hs.manageable, fun port hport => ?_⟩
  obtain ⟨row, hrow, hmine, hnet⟩ := hs.ports port hport
  have hrow : portsOf rt w.ports port.address = [row] := hrow
  refine ⟨row, ?_, hmine, hnet⟩
  refine (huntouched.lookup fun hdeclared => ?_).trans hrow
  obtain ⟨port', hport', haddress⟩ := List.mem_map.mp hdeclared
  have hfound : row ∈ portsOf rt w.ports port'.address := by
    rw [haddress, hrow]
    exact List.mem_singleton.mpr rfl
  -- The port would belong to a node with both names.
  obtain ⟨owner, howner, hownerName, hid⟩ := reconcile_owned h port' hport' row hfound _ hmine
  obtain ⟨hmem, hnodeName, -⟩ := Table.sole_of_filter hs.sole
  obtain rfl := Table.row_unique (k := nodeId) hw.nodeIds howner hmem hid
  exact hname (Option.some.inj (hnodeName.symm.trans hownerName))

end Run

/-! ## All nodes -/

section Fleet

variable {rt : PyRuntime} {raws : List Value} {w w' w'' : Ironic}
  {trs trs' : List (List NodeEvent)} {rs rs' : List (Except ReconcileExn NodeReport)}

/-- Every declared node is settled. -/
def Fleet (rt : PyRuntime) (raws : List Value) (w : Ironic) : Prop :=
  ∀ raw ∈ raws, ∃ spec node, normalizeSpec rt raw = .ok spec ∧ Settled rt spec w node

/-- The nodes and the ports that no declared node mentions are as before. -/
structure Beside (rt : PyRuntime) (raws : List Value) (w w' : Ironic) : Prop where
  nodes : ∀ name, (∀ raw ∈ raws, nodeText rt "name" raw ≠ name) →
    w'.nodes.filter (fun n => n.name = some name) = w.nodes.filter fun n => n.name = some name
  unnamed : w'.nodes.filter (fun n => n.name = none) = w.nodes.filter fun n => n.name = none
  ports : ∀ address, (∀ raw ∈ raws, ∀ spec, normalizeSpec rt raw = .ok spec →
      address ∉ spec.ports.map DesiredPort.address) →
    portsOf rt w'.ports address = portsOf rt w.ports address

theorem Beside.refl : Beside rt raws w w := ⟨fun _ _ => rfl, rfl, fun _ _ => rfl⟩

theorem Beside.trans {w₁ : Ironic} (h : Beside rt raws w w₁) (h' : Beside rt raws w₁ w') :
    Beside rt raws w w' where
  nodes name hname := (h'.nodes name hname).trans (h.nodes name hname)
  unnamed := h'.unnamed.trans h.unnamed
  ports address haddress := (h'.ports address haddress).trans (h.ports address haddress)

/-- What one reconciliation leaves alone. -/
theorem Untouched.beside {raw : Value} {spec : NodeSpec} {node : ManagedNode}
    (h : Untouched rt spec w w' node) (hspec : normalizeSpec rt raw = .ok spec) (hmem : raw ∈ raws) :
    Beside rt raws w w' where
  nodes name hname := by
    have hne : name ≠ spec.name := by
      rw [(normalizeSpec_names hspec).1]
      exact (hname raw hmem).symm
    exact h.named hne
  unnamed := by
    have hsub : ∀ nodes : List ManagedNode, nodes.filter (fun n => n.name = none) =
        (nodes.filter fun n => n.name ≠ some spec.name).filter fun n => n.name = none := by
      intro nodes
      rw [List.filter_filter]
      refine List.filter_congr fun n _ => ?_
      by_cases hn : n.name = none <;> simp [hn]
    rw [hsub w'.nodes, h.others, ← hsub]
  ports address haddress := h.lookup (haddress raw hmem spec hspec)

/-- A successful item, along its specification. -/
theorem reconcileIronic_runs {raw : Value} {tr : List NodeEvent} {checkMode : Bool}
    {report : NodeReport}
    (h : Runs StoreStep w (reconcileIronic rt checkMode raw) tr (.ok report) w') :
    ∃ spec, normalizeSpec rt raw = .ok spec ∧
      Runs StoreStep w (reconcile rt spec checkMode 300) tr (.ok report) w' := by
  rcases reconcileNode_runs h with ⟨spec, hspec, hrun⟩ | ⟨_, _, _, herr⟩
  · exact ⟨spec, hspec, hrun⟩
  · cases herr

variable (hlower : ∀ s, rt.lower (rt.lower s) = rt.lower s) (hraws : ∀ raw ∈ raws, raw.WellFormed)
include hlower hraws

/-- A loop without a failure settles the fleet, and leaves alone what is beside it. -/
theorem fleet_settles (hnames : (raws.map (nodeText rt "name")).Nodup) (hw : w.Sound)
    (h : LoopRuns StoreStep (reconcileIronic rt false) w raws trs rs w') (hall : AllReturn rs) :
    Fleet rt raws w' ∧ Beside rt raws w w' ∧ w'.Sound := by
  have hbeside : Beside rt raws w w' ∧ w'.Sound := by
    refine h.keeps (Q := fun u => Beside rt raws w u ∧ u.Sound) hall ?_ ⟨.refl, hw⟩
    intro raw hmem u tr report u' hu hrun
    obtain ⟨spec, hspec, hrun⟩ := reconcileIronic_runs hrun
    obtain ⟨⟨node, -, huntouched⟩, hu', -⟩ :=
      reconcile_settles (normalizeSpec_normal hlower (hraws raw hmem) hspec) hu.2 hrun
    exact ⟨hu.1.trans (huntouched.beside hspec hmem), hu'⟩
  refine ⟨?_, hbeside⟩
  refine (h.settles (I := Ironic.Sound)
    (P := fun raw u => ∃ spec node, normalizeSpec rt raw = .ok spec ∧ Settled rt spec u node)
    hall (List.pairwise_map.mp hnames) ?_ ?_ hw).2
  · intro raw hmem u tr report u' hu hrun
    obtain ⟨spec, hspec, hrun⟩ := reconcileIronic_runs hrun
    obtain ⟨⟨node, hsettled, -⟩, hu', -⟩ :=
      reconcile_settles (normalizeSpec_normal hlower (hraws raw hmem) hspec) hu hrun
    exact ⟨hu', spec, node, hspec, hsettled⟩
  · rintro raw hmem raw' hmem' hne u tr report u' hu ⟨spec, node, hspec, hsettled⟩ hrun
    obtain ⟨spec', hspec', hrun⟩ := reconcileIronic_runs hrun
    have hnormal := normalizeSpec_normal hlower (hraws raw' hmem') hspec'
    refine ⟨spec, node, hspec, hsettled.kept hu hnormal ?_ hrun⟩
    rwa [(normalizeSpec_names hspec).1, (normalizeSpec_names hspec').1]

omit hlower hraws in
/-- On a settled fleet the loop reports no change, and makes none. -/
theorem fleet_settled {checkMode : Bool} (hw : Fleet rt raws w)
    (h : LoopRuns StoreStep (reconcileIronic rt checkMode) w raws trs rs w') :
    (∀ r ∈ rs, ∃ report, r = .ok report ∧ report.changed = false) ∧
      (∀ tr ∈ trs, ∀ ev ∈ tr, mutates ev.op = false) ∧ w' = w := by
  refine h.settled fun raw hmem tr r w₁ hrun => ?_
  obtain ⟨spec, node, hspec, hsettled⟩ := hw raw hmem
  rcases reconcileNode_runs hrun with ⟨spec', hspec', hrun⟩ | ⟨_, hspec', _⟩
  · rw [hspec] at hspec'
    cases hspec'
    exact reconcile_settled hsettled hrun
  · rw [hspec] at hspec'
    cases hspec'

/-- **The fleet converges**: if the declared names differ, a deployment in which no node fails leaves
every declared node settled and everything beside them as it was, and the next one reports no change
of any node and makes none. -/
theorem fleet_converges (hnames : (raws.map (nodeText rt "name")).Nodup) (hw : w.Sound)
    (h : LoopRuns StoreStep (reconcileIronic rt false) w raws trs rs w') (hall : AllReturn rs)
    (h' : LoopRuns StoreStep (reconcileIronic rt false) w' raws trs' rs' w'') :
    Fleet rt raws w' ∧ Beside rt raws w w' ∧
      (∀ r ∈ rs', ∃ report, r = .ok report ∧ report.changed = false) ∧
      (∀ tr ∈ trs', ∀ ev ∈ tr, mutates ev.op = false) ∧ w'' = w' := by
  obtain ⟨hfleet, hbeside, -⟩ := fleet_settles hlower hraws hnames hw h hall
  obtain ⟨hreports, hreads, hsame⟩ := fleet_settled hfleet h'
  exact ⟨hfleet, hbeside, hreports, hreads, hsame⟩

end Fleet

end Declared
end KollaPowerOps
