import KollaPowerOps.Declared.Cli
import KollaPowerOps.Lib.PyJson

/-!
# Declared.Report

`build_report` of the PowerOps CLI, and for which globals files the command `validate` comes to a
report at all. Both functions read the declared nodes without asking for the type of what they
find, so some malformed nodes end in an exception instead of a message: `reports_iff` says which.
Limits of the interpreter itself (the depth of recursion, the digits of an integer) are left out.

* `buildReport` : the report as a value.
* `WellShaped`  : what the two functions can read.
-/

namespace KollaPowerOps

/-- `len(v)` -/
def Value.len : Value → Except PyError Nat
  | .list xs => .ok xs.length
  | .set xs => .ok xs.length
  | .dict kvs => .ok kvs.length
  | .str s => .ok s.length
  | .bytes b => .ok b.length
  | _ => .error (.typeError "object has no len()")

namespace Declared
namespace Cli

def liveChecks : List String :=
  ["kolla_deploy", "derived_image_build", "derived_image_publish", "ironic_api_failover",
    "ironic_conductor_failover", "redfish_power", "ipmi_power", "masakari_fencing_and_evacuation",
    "mistral_planned_workflows"]

def poweropsActions : List String :=
  ["powerops.acquire_host_lock", "powerops.refresh_host_lock", "powerops.release_host_lock",
    "powerops.resolve_host", "powerops.set_nova_service", "powerops.set_masakari_maintenance",
    "powerops.drain_host", "powerops.assert_host_empty", "powerops.ironic_power",
    "powerops.wait_power", "powerops.wait_nova_service", "powerops.verify_host_return",
    "powerops.power_status", "powerops.audit_event", "powerops.fail_safe_host"]

def poweropsWorkflows : List String :=
  ["planned_power_off", "planned_reboot", "power_on_and_return", "host_power_status"]

/-- The items that are mappings. -/
def mappingsOf (items : List Value) : List Mapping :=
  items.filterMap fun
    | .dict node => some node
    | _ => none

/-- `node.get("driver", "unknown")` -/
def driverOf (node : Mapping) : Value := (Value.lookup node "driver").getD (.str "unknown")

/-- `node.get("ports") or []` -/
def portsOf (node : Mapping) : Value := (Value.entry node "ports").or (.list [])

/-- `node.get("driver_info") or {}` -/
def infoOf (node : Mapping) : Value := (Value.entry node "driver_info").or (.dict [])

def portCount : List Mapping → Except PyError Nat
  | [] => .ok 0
  | node :: nodes => do
    let n ← (portsOf node).len
    let rest ← portCount nodes
    pure (n + rest)

def field (key : String) (v : Value) : Value × Value := (.str key, v)

def notRun : String := "not_run: No target deployment was authorized"

def buildReport (data : Mapping) (errors : List String) : Except PyError Value := do
  let nodes := declaredNodes data
  let items ← nodes.iter
  let driverCounts ← Value.count [] ((mappingsOf items).map driverOf)
  let ports ← portCount (mappingsOf items)
  let total ← nodes.len
  let drivers ← Value.sortedItems driverCounts
  pure (.dict [
    field "local_validation" (.dict [
      field "status" (.str (if errors.isEmpty then "passed" else "failed")),
      field "errors" (.list (errors.map .str))]),
    field "inventory" (.dict [
      field "node_count" (.int total),
      field "port_count" (.int ports),
      field "driver_counts" (Value.countsDict drivers)]),
    field "automation" (.dict [
      field "action_count" (.int poweropsActions.length),
      field "workflow_count" (.int poweropsWorkflows.length)]),
    field "live_validation" (.dict (liveChecks.map fun name => field name (.str notRun)))])

/-! ## What the two functions can read -/

/-- The value can be looked up in a set. -/
def lookable : Value → Bool
  | .list _ => false
  | .dict _ => false
  | _ => true

/-- A node that the validator can read, apart from the identity of a Redfish system. -/
structure NodeForm (node : Mapping) : Prop where
  hostname : lookable (Value.entry node "nova_hostname") = true
  driver : (Value.entry node "driver").hashable = true
  info : (Value.entry node "driver").isStr "redfish" = true ∨
    (Value.entry node "driver").isStr "ipmi" = true → ∃ kvs, infoOf node = .dict kvs
  ports : ∃ ports : List Mapping, (portsOf node).iter = .ok (ports.map .dict)

/-- The address and the id of a Redfish system can be members of a set. -/
def SystemHashable (node : Mapping) : Prop :=
  (Value.entry node "driver").isStr "redfish" = true → ∀ kvs, infoOf node = .dict kvs →
    (Value.entry kvs "redfish_address").hashable = true ∧
      (Value.entry kvs "redfish_system_id").hashable = true

/-- The drivers of the nodes, as keys, are of one kind that JSON has. -/
def OneKind (nodes : List Mapping) : Prop :=
  ∃ k : KeyKind, k.inJson = true ∧ ∀ node ∈ nodes, (driverOf node).kind? = some k

/-- The declared nodes can be run over; the drivers of those that are mappings can be sorted and
dumped, and their ports be counted; and if the nodes are a list, the validator can read them. -/
def WellShaped (data : Mapping) : Prop :=
  ∃ items, (declaredNodes data).iter = .ok items ∧ OneKind (mappingsOf items) ∧
    (∀ node ∈ mappingsOf items, ∃ n, (portsOf node).len = .ok n) ∧
    ((∃ nodes, declaredNodes data = .list nodes) →
      ∀ node ∈ mappingsOf items, NodeForm node ∧ SystemHashable node)

/-! ## The validator -/

theorem checkFields_ok_iff {name : String} {info : Value} {keys : List String} :
    (∃ errors, checkFields name info keys = .ok errors) ↔ keys = [] ∨ ∃ kvs, info = .dict kvs := by
  induction keys with
  | nil => simp [checkFields]
  | cons key keys ih =>
    have hcons : ¬ key :: keys = [] := List.cons_ne_nil _ _
    simp only [checkFields, pyBind_ok, hcons, false_or]
    constructor
    · rintro ⟨errors, value, hget, _⟩
      cases info with
      | dict kvs => exact ⟨kvs, rfl⟩
      | _ => cases hget
    · rintro ⟨kvs, rfl⟩
      obtain ⟨errors, hrest⟩ := ih.mpr (.inr ⟨kvs, rfl⟩)
      exact ⟨_, _, rfl, errors, hrest, rfl⟩

/-- The drivers that have required fields. -/
theorem requiredDriverFields_some {driver : Value} {keys : List String}
    (h : requiredDriverFields driver = .ok (some keys)) :
    (driver.isStr "redfish" = true ∨ driver.isStr "ipmi" = true) ∧ keys ≠ [] := by
  unfold requiredDriverFields at h
  split at h
  · split_ifs at h with hredfish hipmi
    · cases h
      exact ⟨.inl hredfish, by simp⟩
    · cases h
      exact ⟨.inr hipmi, by simp⟩
    · cases h
  · cases h

theorem requiredDriverFields_none {driver : Value}
    (h : requiredDriverFields driver = .ok none) :
    ¬ (driver.isStr "redfish" = true ∨ driver.isStr "ipmi" = true) := by
  unfold requiredDriverFields at h
  split at h
  · split_ifs at h with hredfish hipmi
    · cases h
    · cases h
    · rintro (hr | hi)
      · exact hredfish hr
      · exact hipmi hi
  · cases h

theorem requiredDriverFields_ok_iff {driver : Value} :
    (∃ keys, requiredDriverFields driver = .ok keys) ↔ driver.hashable = true := by
  unfold requiredDriverFields
  split <;> simp_all

theorem checkDriver_ok_iff (name : String) {driver info : Value} :
    (∃ errors, checkDriver name driver info = .ok errors) ↔ driver.hashable = true ∧
      (driver.isStr "redfish" = true ∨ driver.isStr "ipmi" = true → ∃ kvs, info = .dict kvs) := by
  simp only [checkDriver, pyBind_ok]
  rw [← requiredDriverFields_ok_iff]
  constructor
  · rintro ⟨errors, fields, hfields, h⟩
    refine ⟨⟨fields, hfields⟩, fun hknown => ?_⟩
    cases fields with
    | none => exact absurd hknown (requiredDriverFields_none hfields)
    | some keys =>
      have hne := (requiredDriverFields_some hfields).2
      exact (checkFields_ok_iff.mp ⟨errors, h⟩).resolve_left hne
  · rintro ⟨⟨fields, hfields⟩, hinfo⟩
    cases fields with
    | none => exact ⟨_, none, hfields, rfl⟩
    | some keys =>
      have hknown := (requiredDriverFields_some hfields).1
      obtain ⟨errors, h⟩ := checkFields_ok_iff.mpr (.inr (hinfo hknown))
      exact ⟨errors, some keys, hfields, h⟩

theorem checkSystem_ok_iff (rt : PyRuntime) {driver info : Value} (systems : Systems) :
    (∃ r, checkSystem rt driver info systems = .ok r) ↔ (driver.isStr "redfish" = true →
      ∃ kvs, info = .dict kvs ∧ (Value.entry kvs "redfish_address").hashable = true ∧
        (Value.entry kvs "redfish_system_id").hashable = true) := by
  unfold checkSystem
  by_cases hdriver : driver.isStr "redfish" = true
  · rw [if_pos hdriver]
    cases info with
    | dict kvs =>
      by_cases hhash : ((Value.entry kvs "redfish_address").hashable &&
          (Value.entry kvs "redfish_system_id").hashable) = true
      · simp only [Value.get, pyBind_ok]
        rw [Bool.and_eq_true] at hhash
        refine iff_of_true ⟨_, _, rfl, _, rfl, if_pos (by simp [hhash])⟩ fun _ => ⟨kvs, rfl, hhash⟩
      · simp only [Value.get, pyBind_ok]
        refine iff_of_false ?_ ?_
        · rintro ⟨r, _, hr, _, hr', h⟩
          cases hr
          cases hr'
          rw [if_neg hhash] at h
          cases h
        · intro h
          obtain ⟨_, heq, ha, hs⟩ := h hdriver
          cases heq
          exact hhash (by simp [ha, hs])
    | _ =>
      refine iff_of_false ?_ ?_
      · rintro ⟨r, h⟩
        cases h
      · intro h
        obtain ⟨_, heq, _⟩ := h hdriver
        cases heq
  · rw [if_neg hdriver]
    simp [hdriver]

theorem checkPorts_ok_iff (rt : PyRuntime) (name : String) {values : List Value}
    (macs : List String) :
    (∃ r, checkPorts rt name values macs = .ok r) ↔ ∃ ports : List Mapping,
      values = ports.map .dict := by
  induction values generalizing macs with
  | nil => exact iff_of_true ⟨_, rfl⟩ ⟨[], rfl⟩
  | cons value values ih =>
    cases value with
    | dict port =>
      simp only [checkPorts, pyBind_ok]
      constructor
      · rintro ⟨r, r', hrest, _⟩
        obtain ⟨ports, rfl⟩ := (ih _).mp ⟨r', hrest⟩
        exact ⟨port :: ports, rfl⟩
      · rintro ⟨ports, hports⟩
        cases ports with
        | nil => cases hports
        | cons p ports =>
          cases hports
          obtain ⟨r', hrest⟩ := (ih _).mpr ⟨ports, rfl⟩
          exact ⟨_, r', hrest, rfl⟩
    | _ =>
      refine iff_of_false ?_ ?_
      · rintro ⟨r, h⟩
        cases h
      · rintro ⟨ports, hports⟩
        cases ports <;> cases hports

theorem isAmong_ok_iff (texts : List String) {v : Value} :
    (∃ b, v.isAmong texts = .ok b) ↔ lookable v = true := by
  cases v <;> simp [Value.isAmong, lookable]

/-- The validator gets through a node exactly if it can read it. -/
theorem checkNode_ok_iff (rt : PyRuntime) (computes : List String) (seen : Seen)
    {node : Mapping} :
    (∃ r, checkNode rt computes seen node = .ok r) ↔ NodeForm node ∧ SystemHashable node := by
  simp only [checkNode, pyBind_ok]
  constructor
  · rintro ⟨r, present, hpresent, errors, hdriver, ⟨_, systems⟩, hsystem, values, hvalues,
      ⟨_, macs⟩, hports, _⟩
    obtain ⟨hhash, hinfo⟩ := (checkDriver_ok_iff _).mp ⟨errors, hdriver⟩
    obtain ⟨ports, rfl⟩ := (checkPorts_ok_iff rt _ _).mp ⟨_, hports⟩
    refine ⟨⟨(isAmong_ok_iff _).mp ⟨present, hpresent⟩, hhash, hinfo, ports, hvalues⟩, ?_⟩
    intro hredfish kvs hkvs
    obtain ⟨kvs', heq, hsystems⟩ := (checkSystem_ok_iff rt _).mp ⟨_, hsystem⟩ hredfish
    rw [show infoOf node = .dict kvs' from heq] at hkvs
    cases hkvs
    exact hsystems
  · rintro ⟨hform, hsystem⟩
    obtain ⟨present, hpresent⟩ := (isAmong_ok_iff computes).mpr hform.hostname
    obtain ⟨errors, hdriver⟩ := (checkDriver_ok_iff (label rt node)).mpr ⟨hform.driver, hform.info⟩
    have hidentity : (Value.entry node "driver").isStr "redfish" = true →
        ∃ kvs, infoOf node = .dict kvs ∧ (Value.entry kvs "redfish_address").hashable = true ∧
          (Value.entry kvs "redfish_system_id").hashable = true := by
      intro hredfish
      obtain ⟨kvs, hkvs⟩ := hform.info (.inl hredfish)
      exact ⟨kvs, hkvs, hsystem hredfish kvs hkvs⟩
    obtain ⟨⟨_, systems⟩, hsystems⟩ := (checkSystem_ok_iff rt seen.systems).mpr hidentity
    obtain ⟨ports, hvalues⟩ := hform.ports
    obtain ⟨⟨_, macs⟩, hports⟩ := (checkPorts_ok_iff rt (label rt node) seen.macs).mpr ⟨ports, rfl⟩
    exact ⟨_, present, hpresent, errors, hdriver, _, hsystems, _, hvalues, _, hports, rfl⟩

theorem mappingsOf_cons_dict (node : Mapping) (items : List Value) :
    mappingsOf (.dict node :: items) = node :: mappingsOf items := rfl

theorem checkNodes_ok_iff (rt : PyRuntime) (computes : List String) {nodes : List Value}
    (seen : Seen) :
    (∃ errors, checkNodes rt computes nodes seen = .ok errors) ↔
      ∀ node ∈ mappingsOf nodes, NodeForm node ∧ SystemHashable node := by
  induction nodes generalizing seen with
  | nil => exact iff_of_true ⟨_, rfl⟩ (by simp [mappingsOf])
  | cons value nodes ih =>
    cases value with
    | dict node =>
      rw [mappingsOf_cons_dict, List.forall_mem_cons, ← checkNode_ok_iff rt computes seen]
      simp only [checkNodes, pyBind_ok]
      constructor
      · rintro ⟨errors, ⟨_, seen'⟩, hnode, rest, hrest, _⟩
        exact ⟨⟨_, hnode⟩, (ih seen').mp ⟨rest, hrest⟩⟩
      · rintro ⟨⟨⟨_, seen'⟩, hnode⟩, hall⟩
        obtain ⟨rest, hrest⟩ := (ih seen').mpr hall
        exact ⟨_, _, hnode, rest, hrest, rfl⟩
    | _ =>
      simp only [checkNodes, pyBind_ok]
      rw [show mappingsOf (_ :: nodes) = mappingsOf nodes from rfl, ← ih seen]
      constructor
      · rintro ⟨errors, rest, hrest, _⟩
        exact ⟨rest, hrest⟩
      · rintro ⟨rest, hrest⟩
        exact ⟨_, rest, hrest, rfl⟩

/-- The validator comes to a list of errors exactly if it can read the nodes, should they be a
list. -/
theorem validateConfig_ok_iff {rt : PyRuntime} {data : Mapping} {inventoryText : List Char} :
    (∃ errors, validateConfig rt data inventoryText = .ok errors) ↔
      ∀ nodes, declaredNodes data = .list nodes →
        ∀ node ∈ mappingsOf nodes, NodeForm node ∧ SystemHashable node := by
  unfold validateConfig
  dsimp only
  split
  · rename_i nodes hnodes
    simp only [pyBind_ok, hnodes, Value.list.injEq, forall_eq']
    rw [← checkNodes_ok_iff rt ((computeHosts inventoryText).getD []) {}]
    constructor
    · rintro ⟨errors, rest, hrest, _⟩
      exact ⟨rest, hrest⟩
    · rintro ⟨rest, hrest⟩
      exact ⟨_, rest, hrest, rfl⟩
  · rename_i hno
    exact iff_of_true ⟨_, rfl⟩ fun nodes hnodes => absurd hnodes (hno nodes)

/-! ## The report -/

theorem portCount_ok_iff {nodes : List Mapping} :
    (∃ n, portCount nodes = .ok n) ↔ ∀ node ∈ nodes, ∃ n, (portsOf node).len = .ok n := by
  induction nodes with
  | nil => exact iff_of_true ⟨0, rfl⟩ (by simp)
  | cons node nodes ih =>
    rw [List.forall_mem_cons, ← ih]
    simp only [portCount, pyBind_ok]
    constructor
    · rintro ⟨_, n, hn, m, hm, _⟩
      exact ⟨⟨n, hn⟩, m, hm⟩
    · rintro ⟨⟨n, hn⟩, m, hm⟩
      exact ⟨_, n, hn, m, hm, rfl⟩

/-- What can be run over has a length. -/
theorem len_of_iter {v : Value} {items : List Value} (h : v.iter = .ok items) :
    ∃ n, v.len = .ok n := by
  cases v <;> first | exact ⟨_, rfl⟩ | cases h

theorem dumpable_fields {fields : Mapping} (hkeys : ∀ kv ∈ fields, ∃ key, kv.1 = .str key) :
    (Value.dict fields).dumpable = true ↔ ∀ kv ∈ fields, kv.2.dumpable = true := by
  rw [Value.dumpable_dict_iff]
  refine ⟨fun h => h.2.2, fun h => ⟨?_, ?_, h⟩⟩
  · intro kv hkv
    obtain ⟨key, hkey⟩ := hkeys kv hkv
    rw [hkey]
    rfl
  · refine List.pairwise_of_forall_mem_list fun x hx y hy => ?_
    obtain ⟨a, ha⟩ := hkeys x hx
    obtain ⟨b, hb⟩ := hkeys y hy
    rw [ha, hb]
    rfl

/-- The report comes about and can be dumped exactly if the nodes can be run over, their ports be
counted, and their drivers be sorted and dumped. -/
theorem buildReport_ok_iff {data : Mapping} (errors : List String) :
    (∃ report, buildReport data errors = .ok report ∧ report.dumpable = true) ↔
      ∃ items, (declaredNodes data).iter = .ok items ∧ OneKind (mappingsOf items) ∧
        ∀ node ∈ mappingsOf items, ∃ n, (portsOf node).len = .ok n := by
  have hkind : ∀ (items : List Value) counts,
      Value.count [] ((mappingsOf items).map driverOf) = .ok counts →
      ((∃ sorted, Value.sortedItems counts = .ok sorted ∧
        (Value.countsDict sorted).dumpable = true) ↔ OneKind (mappingsOf items)) := by
    intro items counts hcounts
    rw [Value.sortedItems_dumpable_iff (Value.count_distinct hcounts List.Pairwise.nil)]
    refine exists_congr fun k => and_congr_right fun _ => ?_
    rw [Value.count_kind hcounts]
    simp
  simp only [buildReport, pyBind_ok]
  constructor
  · rintro ⟨report, ⟨items, hitems, counts, hcounts, ports, hports, total, _, drivers, hdrivers,
      hreport⟩, hdump⟩
    refine ⟨items, hitems, (hkind items counts hcounts).mp ⟨drivers, hdrivers, ?_⟩,
      portCount_ok_iff.mp ⟨ports, hports⟩⟩
    cases hreport
    have hinventory := (Value.dumpable_dict_iff.mp hdump).2.2
      (field "inventory" _) (List.mem_cons_of_mem _ List.mem_cons_self)
    exact (Value.dumpable_dict_iff.mp hinventory).2.2 (field "driver_counts" _)
      (List.mem_cons_of_mem _ (List.mem_cons_of_mem _ List.mem_cons_self))
  · rintro ⟨items, hitems, hone, hports⟩
    have hhash : ∀ key ∈ (mappingsOf items).map driverOf, key.hashable = true := by
      intro key hkey
      obtain ⟨node, hnode, rfl⟩ := List.mem_map.mp hkey
      obtain ⟨k, _, hall⟩ := hone
      exact Value.hashable_of_kind (hall node hnode)
    obtain ⟨counts, hcounts⟩ := Value.count_ok_iff.mpr hhash
    obtain ⟨ports, hports⟩ := portCount_ok_iff.mpr hports
    obtain ⟨total, htotal⟩ := len_of_iter hitems
    obtain ⟨drivers, hdrivers, hdump⟩ := (hkind items counts hcounts).mpr hone
    refine ⟨_, ⟨items, hitems, counts, hcounts, ports, hports, total, htotal, drivers, hdrivers,
      rfl⟩, ?_⟩
    -- the only part that JSON could refuse are the drivers
    have htexts : ∀ texts : List String, (Value.list (texts.map .str)).dumpable = true := by
      intro texts
      rw [Value.dumpable, Value.dumpableItems_iff]
      intro v hv
      obtain ⟨s, _, rfl⟩ := List.mem_map.mp hv
      rfl
    simp [dumpable_fields, field, htexts, hdump]

/-- **Which configurations are reported on.** The validator returns its errors and the report on
them can be dumped exactly for well-shaped data. -/
theorem reports_iff (rt : PyRuntime) (data : Mapping) (inventoryText : List Char) :
    (∃ errors report, validateConfig rt data inventoryText = .ok errors ∧
      buildReport data errors = .ok report ∧ report.dumpable = true) ↔ WellShaped data := by
  constructor
  · rintro ⟨errors, report, herrors, hreport⟩
    obtain ⟨items, hitems, hone, hports⟩ := (buildReport_ok_iff errors).mp ⟨report, hreport⟩
    refine ⟨items, hitems, hone, hports, ?_⟩
    rintro ⟨nodes, hnodes⟩
    rw [hnodes] at hitems
    have hsame : nodes = items := Except.ok.inj hitems
    rw [← hsame]
    exact validateConfig_ok_iff.mp ⟨errors, herrors⟩ nodes hnodes
  · rintro ⟨items, hitems, hone, hports, hread⟩
    have hvalid : ∃ errors, validateConfig rt data inventoryText = .ok errors := by
      refine validateConfig_ok_iff.mpr fun nodes hnodes => ?_
      rw [hnodes] at hitems
      have hsame : nodes = items := Except.ok.inj hitems
      rw [hsame]
      exact hread ⟨nodes, hnodes⟩
    obtain ⟨errors, herrors⟩ := hvalid
    obtain ⟨report, hreport⟩ := (buildReport_ok_iff errors).mpr ⟨items, hitems, hone, hports⟩
    exact ⟨errors, report, herrors, hreport⟩

/-- A number in the place of the nodes is reported as such, and then the report fails on it. -/
theorem report_crashes :
    ¬ ∀ (rt : PyRuntime) (data : Mapping) (inventoryText : List Char),
      ∃ errors report, validateConfig rt data inventoryText = .ok errors ∧
        buildReport data errors = .ok report ∧ report.dumpable = true := by
  intro h
  obtain ⟨errors, report, _, hreport, _⟩ :=
    h PyRuntime.ascii [(.str "powerops_ironic_nodes", .int 5)] "[compute]\ncompute-01\n".toList
  cases hreport

end Cli
end Declared
end KollaPowerOps
