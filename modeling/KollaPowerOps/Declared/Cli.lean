import KollaPowerOps.Lib.PyValue

/-!
# Declared.Cli

`validate_config` of the PowerOps CLI: the declared nodes, as the globals file gives them, against
the input contract. An exception that escapes is an `Except.error`; otherwise the result is the
list of errors, empty when the configuration is accepted.

* `computeHosts`    : the hosts of the group `[compute]` of an inventory.
* `checkNode`       : the errors of one node, and what the nodes so far have used.
* `validateConfig`  : all errors.
* `Checked`         : what is known of a node without errors (`checkNode_sound`).
-/

namespace KollaPowerOps
namespace Declared

open PyText

/-- `str(port.get("address") or "").lower()` -/
def portAddress (rt : PyRuntime) (port : Mapping) : String :=
  rt.lower (((Value.entry port "address").or (.str "")).toStr rt)

namespace Cli

def requiredServices : List String :=
  ["enable_ironic", "enable_masakari", "enable_mistral", "enable_powerops"]

/-! ## The inventory -/

def inventorySection (inventoryText : List Char) (name : String) : Option (List Char) :=
  (after? ("[" ++ name ++ "]").toList inventoryText).map (before '[')

def computeHosts (inventoryText : List Char) : Option (List String) :=
  (inventorySection inventoryText "compute").map fun section_ =>
    ((splitLines section_).filter fun line =>
      strip line != [] && !(['#'].isPrefixOf (lstrip line))).map fun line =>
        String.ofList (firstWord line)

/-! ## One node -/

def requiredDriverFields (driver : Value) : Except PyError (Option (List String)) :=
  if driver.hashable then
    .ok (if driver.isStr "redfish" then
        some ["redfish_address", "redfish_system_id", "redfish_username", "redfish_password"]
      else if driver.isStr "ipmi" then some ["ipmi_address", "ipmi_username", "ipmi_password"]
      else none)
  else .error (.typeError "unhashable type")

/-- An error unless the condition holds. -/
def require (ok : Bool) (message : String) : List String := if ok then [] else [message]

def checkFields (name : String) (info : Value) : List String → Except PyError (List String)
  | [] => .ok []
  | key :: keys => do
    let value ← info.get key
    let errors ← checkFields name info keys
    pure (require value.truthy (name ++ ": missing driver_info." ++ key) ++ errors)

def checkDriver (name : String) (driver info : Value) : Except PyError (List String) := do
  match ← requiredDriverFields driver with
  | none => pure [name ++ ": driver must be redfish or ipmi"]
  | some keys => checkFields name info keys

/-- The Redfish systems so far, as address and system id. -/
abbrev Systems : Type := List (Value × Value)

def checkSystem (rt : PyRuntime) (driver info : Value) (systems : Systems) :
    Except PyError (List String × Systems) :=
  if driver.isStr "redfish" then do
    let address ← info.get "redfish_address"
    let system ← info.get "redfish_system_id"
    if address.hashable && system.hashable then
      let seen := systems.any fun s => address.scalarEq s.1 && system.scalarEq s.2
      pure (require (!seen)
        ("duplicate Redfish system: " ++ address.toStr rt ++ " " ++ system.toStr rt),
        (address, system) :: systems)
    else .error (.typeError "unhashable type")
  else .ok ([], systems)

def checkPorts (rt : PyRuntime) (name : String) :
    List Value → List String → Except PyError (List String × List String)
  | [], macs => .ok ([], macs)
  | .dict port :: ports, macs => do
    let mac := portAddress rt port
    let (errors, macs') ← checkPorts rt name ports (mac :: macs)
    pure (require (macMatch mac.toList) (name ++ ": invalid port MAC: " ++ mac) ++
      require (mac ∉ macs) ("duplicate port MAC: " ++ mac) ++ errors, macs')
  | _ :: _, _ => .error (.attributeError "object has no attribute 'get'")

/-- What the nodes so far have used. -/
structure Seen where
  names : List String := []
  systems : Systems := []
  macs : List String := []

/-- `str(node.get("name") or "<unnamed>")` -/
def label (rt : PyRuntime) (node : Mapping) : String :=
  ((Value.entry node "name").or (.str "<unnamed>")).toStr rt

def checkNode (rt : PyRuntime) (computes : List String) (seen : Seen) (node : Mapping) :
    Except PyError (List String × Seen) := do
  let name := label rt node
  let present ← (Value.entry node "nova_hostname").isAmong computes
  let driver := Value.entry node "driver"
  let info := (Value.entry node "driver_info").or (.dict [])
  let driverErrors ← checkDriver name driver info
  let (systemErrors, systems) ← checkSystem rt driver info seen.systems
  let ports ← ((Value.entry node "ports").or (.list [])).iter
  let (portErrors, macs) ← checkPorts rt name ports seen.macs
  pure (require (name ∉ seen.names) ("duplicate node name: " ++ name) ++
    require present (name ++ ": nova_hostname is absent from [compute]") ++
    require ((Value.entry node "network_interface").isStr "noop")
      (name ++ ": network_interface must be noop") ++
    require ((Value.entry node "desired_provision_state").isStr "manageable")
      (name ++ ": desired_provision_state must be manageable") ++
    driverErrors ++ systemErrors ++ portErrors, ⟨name :: seen.names, systems, macs⟩)

/-! ## The configuration -/

def checkNodes (rt : PyRuntime) (computes : List String) :
    List Value → Seen → Except PyError (List String)
  | [], _ => .ok []
  | .dict node :: nodes, seen => do
    let (errors, seen') ← checkNode rt computes seen node
    let rest ← checkNodes rt computes nodes seen'
    pure (errors ++ rest)
  | _ :: nodes, seen => do
    let rest ← checkNodes rt computes nodes seen
    pure ("every powerops_ironic_nodes item must be a mapping" :: rest)

/-- `data.get("powerops_ironic_nodes") or []` -/
def declaredNodes (data : Mapping) : Value :=
  (Value.entry data "powerops_ironic_nodes").or (.list [])

def validateConfig (rt : PyRuntime) (data : Mapping) (inventoryText : List Char) :
    Except PyError (List String) := do
  let services := requiredServices.flatMap fun key =>
    require ((Value.entry data key).isStr "yes") (key ++ " must be yes")
  let computes := computeHosts inventoryText
  let inventory := require computes.isSome "inventory is missing [compute] section"
  match declaredNodes data with
  | .list nodes => do
    let errors ← checkNodes rt (computes.getD []) nodes {}
    pure (services ++ inventory ++ errors)
  | _ => pure (services ++ inventory ++ ["powerops_ironic_nodes must be a list"])

/-! ## What an accepted configuration has -/

@[simp] theorem require_eq_nil {ok : Bool} {message : String} :
    require ok message = [] ↔ ok = true := by
  unfold require
  cases ok <;> simp

theorem checkFields_sound {name : String} {info : Value} {keys : List String}
    (h : checkFields name info keys = .ok []) :
    ∀ key ∈ keys, ∃ value, info.get key = .ok value ∧ value.truthy = true := by
  induction keys with
  | nil => simp
  | cons key keys ih =>
    simp only [checkFields, pyBind_ok] at h
    obtain ⟨value, hget, errors, hrest, h⟩ := h
    obtain ⟨hvalue, rfl⟩ := List.append_eq_nil_iff.mp (Except.ok.inj h)
    intro k hk
    rcases List.mem_cons.mp hk with rfl | hk
    · exact ⟨value, hget, require_eq_nil.mp hvalue⟩
    · exact ih hrest k hk

theorem checkDriver_sound {name : String} {driver info : Value}
    (h : checkDriver name driver info = .ok []) :
    ∃ keys, requiredDriverFields driver = .ok (some keys) ∧
      ∀ key ∈ keys, ∃ value, info.get key = .ok value ∧ value.truthy = true := by
  simp only [checkDriver, pyBind_ok] at h
  obtain ⟨fields, hfields, h⟩ := h
  cases fields with
  | none => cases h
  | some keys => exact ⟨keys, hfields, checkFields_sound h⟩

theorem checkPorts_sound {rt : PyRuntime} {name : String} {values : List Value}
    {macs macs' : List String} (h : checkPorts rt name values macs = .ok ([], macs')) :
    ∃ ports : List Mapping, values = ports.map .dict ∧
      (∀ port ∈ ports, macMatch (portAddress rt port).toList = true) ∧
      macs' = (ports.map (portAddress rt)).reverse ++ macs ∧ (macs.Nodup → macs'.Nodup) := by
  induction values generalizing macs with
  | nil => cases h; exact ⟨[], rfl, by simp, rfl, id⟩
  | cons value values ih =>
    cases value with
    | dict port =>
      simp only [checkPorts, pyBind_ok] at h
      obtain ⟨⟨errors, macs''⟩, hrest, h⟩ := h
      obtain ⟨herr, rfl⟩ := Prod.mk.inj (Except.ok.inj h)
      simp only [List.append_eq_nil_iff, require_eq_nil, decide_eq_true_eq] at herr
      obtain ⟨⟨hmac, hnew⟩, rfl⟩ := herr
      obtain ⟨ports, rfl, hmacs, rfl, hnodup⟩ := ih hrest
      refine ⟨port :: ports, rfl, ?_, by simp, fun hm => ?_⟩
      · exact List.forall_mem_cons.mpr ⟨hmac, hmacs⟩
      · exact hnodup (List.nodup_cons.mpr ⟨hnew, hm⟩)
    | _ => cases h

/-- A node that the validator has nothing against, and its ports. -/
structure Checked (rt : PyRuntime) (computes : List String) (node : Mapping)
    (ports : List Mapping) : Prop where
  hostname : ∃ host ∈ computes, Value.entry node "nova_hostname" = .str host
  network : Value.entry node "network_interface" = .str "noop"
  provision : Value.entry node "desired_provision_state" = .str "manageable"
  driver : ∃ keys, requiredDriverFields (Value.entry node "driver") = .ok (some keys) ∧
    ∀ key ∈ keys, ∃ value, ((Value.entry node "driver_info").or (.dict [])).get key = .ok value ∧
      value.truthy = true
  ports_eq : ((Value.entry node "ports").or (.list [])).iter = .ok (ports.map .dict)
  macs : ∀ port ∈ ports, macMatch (portAddress rt port).toList = true

theorem isAmong_true {texts : List String} {v : Value} (h : v.isAmong texts = .ok true) :
    ∃ s ∈ texts, v = .str s := by
  cases v with
  | str s => exact ⟨s, by simpa [Value.isAmong] using h, rfl⟩
  | _ => cases h

/-- A node without errors is in order by itself, and new among the nodes so far. -/
theorem checkNode_sound {rt : PyRuntime} {computes : List String} {seen seen' : Seen}
    {node : Mapping} (h : checkNode rt computes seen node = .ok ([], seen')) :
    ∃ ports, Checked rt computes node ports ∧ label rt node ∉ seen.names ∧
      seen'.names = label rt node :: seen.names ∧
      seen'.macs = (ports.map (portAddress rt)).reverse ++ seen.macs ∧
      (seen.macs.Nodup → seen'.macs.Nodup) := by
  simp only [checkNode, pyBind_ok] at h
  obtain ⟨present, hpresent, driverErrors, hdriver, ⟨systemErrors, systems⟩, _, values, hvalues,
    ⟨portErrors, macs⟩, hports, h⟩ := h
  obtain ⟨herr, rfl⟩ := Prod.mk.inj (Except.ok.inj h)
  simp only [List.append_eq_nil_iff, require_eq_nil, decide_eq_true_eq] at herr
  obtain ⟨⟨⟨⟨⟨⟨hname, rfl⟩, hnet⟩, hprov⟩, rfl⟩, rfl⟩, rfl⟩ := herr
  obtain ⟨ports, rfl, hmacs, rfl, hnodup⟩ := checkPorts_sound hports
  exact ⟨ports, ⟨isAmong_true hpresent, Value.isStr_iff.mp hnet, Value.isStr_iff.mp hprov,
    checkDriver_sound hdriver, hvalues, hmacs⟩, hname, rfl, rfl, hnodup⟩

/-- A declared node with its ports. -/
abbrev Entry : Type := Mapping × List Mapping

/-- The addresses of the ports of a node. -/
def addresses (rt : PyRuntime) (entry : Entry) : List String := entry.2.map (portAddress rt)

theorem checkNodes_sound {rt : PyRuntime} {computes : List String} {nodes : List Value}
    {seen : Seen} (h : checkNodes rt computes nodes seen = .ok []) (hnames : seen.names.Nodup)
    (hmacs : seen.macs.Nodup) :
    ∃ entries : List Entry, nodes = entries.map (fun entry => .dict entry.1) ∧
      (∀ entry ∈ entries, Checked rt computes entry.1 entry.2) ∧
      (entries.map (fun entry => label rt entry.1) ++ seen.names).Nodup ∧
      (entries.flatMap (addresses rt) ++ seen.macs).Nodup := by
  induction nodes generalizing seen with
  | nil => exact ⟨[], rfl, by simp, by simpa using hnames, by simpa using hmacs⟩
  | cons value nodes ih =>
    cases value with
    | dict node =>
      simp only [checkNodes, pyBind_ok] at h
      obtain ⟨⟨errors, seen'⟩, hnode, rest, hrest, h⟩ := h
      obtain ⟨rfl, rfl⟩ := List.append_eq_nil_iff.mp (Except.ok.inj h)
      obtain ⟨ports, hchecked, hnew, hseen, hseen', hnodup⟩ := checkNode_sound hnode
      have hnames' : seen'.names.Nodup := by
        rw [hseen]
        exact List.nodup_cons.mpr ⟨hnew, hnames⟩
      obtain ⟨entries, rfl, hentries, hlabels, haddresses⟩ := ih hrest hnames' (hnodup hmacs)
      refine ⟨(node, ports) :: entries, rfl, List.forall_mem_cons.mpr ⟨hchecked, hentries⟩, ?_, ?_⟩
      · rw [hseen] at hlabels
        exact List.perm_middle.nodup_iff.mp hlabels
      · have hperm : (((node, ports) :: entries).flatMap (addresses rt) ++ seen.macs).Perm
            (entries.flatMap (addresses rt) ++ seen'.macs) := by
          rw [List.perm_iff_count]
          intro mac
          simp only [hseen', addresses, List.flatMap_cons, List.count_append, List.count_reverse]
          omega
        exact hperm.nodup_iff.mpr haddresses
    | _ =>
      simp only [checkNodes, pyBind_ok] at h
      obtain ⟨rest, _, h⟩ := h
      cases h

/-- The hosts of the inventory are words. -/
theorem computeHosts_word {inventoryText : List Char} {hosts : List String} {host : String}
    (h : computeHosts inventoryText = some hosts) (hmem : host ∈ hosts) :
    host ≠ "" ∧ pyStrip host = host := by
  obtain ⟨section_, _, rfl⟩ := Option.map_eq_some_iff.mp h
  obtain ⟨line, hline, rfl⟩ := List.mem_map.mp hmem
  have hne : strip line ≠ [] := by
    have hkept := (List.mem_filter.mp hline).2
    rw [Bool.and_eq_true, bne_iff_ne] at hkept
    exact hkept.1
  constructor
  · simpa using firstWord_ne_nil hne
  · rw [pyStrip, String.toList_ofList, strip_of_no_space (firstWord_no_space line)]

/-- **Validation.** In an accepted configuration every declared node is in order, and the names
and the addresses of all ports are distinct. -/
theorem validateConfig_sound {rt : PyRuntime} {data : Mapping} {inventoryText : List Char}
    (h : validateConfig rt data inventoryText = .ok []) :
    ∃ (computes : List String) (entries : List Entry),
      computeHosts inventoryText = some computes ∧
      declaredNodes data = .list (entries.map fun entry => .dict entry.1) ∧
      (∀ entry ∈ entries, Checked rt computes entry.1 entry.2) ∧
      (entries.map fun entry => label rt entry.1).Nodup ∧
      (entries.flatMap (addresses rt)).Nodup := by
  unfold validateConfig at h
  simp only at h
  split at h
  · rename_i nodes hnodes
    obtain ⟨errors, herrors, h⟩ := pyBind_ok.mp h
    have hnil := Except.ok.inj h
    simp only [List.append_eq_nil_iff, require_eq_nil] at hnil
    obtain ⟨⟨_, hinv⟩, rfl⟩ := hnil
    obtain ⟨computes, hcomputes⟩ := Option.isSome_iff_exists.mp hinv
    rw [hcomputes] at herrors
    obtain ⟨entries, rfl, hentries, hlabels, hmacs⟩ :=
      checkNodes_sound herrors List.nodup_nil List.nodup_nil
    exact ⟨computes, entries, hcomputes, hnodes, hentries, by simpa using hlabels,
      by simpa using hmacs⟩
  · have hnil := Except.ok.inj h
    simp at hnil

end Cli
end Declared
end KollaPowerOps
