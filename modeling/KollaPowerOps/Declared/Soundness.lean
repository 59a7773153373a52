import Mathlib.Data.List.Forall2
import Mathlib.Data.List.Nodup
import KollaPowerOps.Declared.MasakariSegment

/-!
# Declared.Soundness

The validator against the modules that consume what it accepts. `Consumed` is what an accepted
configuration should have: every node and the segment are accepted by the modules, and no two
nodes share a name, a hostname or an address. The validator does not ensure it
(`validated_not_consumed`): besides what it checks, the configuration has to be `Consistent`, and
that is exactly what is missing (`validated_iff`).
-/

namespace KollaPowerOps
namespace Declared

open PyText Cli IronicNode MasakariSegment

/-- The declared nodes, as the role loops over them. -/
def configuredNodes (data : Mapping) : List Value :=
  match declaredNodes data with
  | .list nodes => nodes
  | _ => []

def nodeText (rt : PyRuntime) (key : String) : Value → String
  | .dict node => strippedText rt node key
  | _ => ""

/-- What the consumers of a configuration make of it. -/
def Consumed (rt : PyRuntime) (role : Role) (data : Mapping) : Prop :=
  ∃ (specs : List NodeSpec) (raw : Value) (segment : SegmentSpec),
    List.Forall₂ (fun node spec => normalizeSpec rt node = .ok spec) (configuredNodes data) specs ∧
    (specs.map NodeSpec.name).Nodup ∧ (specs.map NodeSpec.novaHostname).Nodup ∧
    (specs.flatMap fun spec => spec.ports.map DesiredPort.address).Nodup ∧
    role.segmentSpec data (configuredNodes data) = .ok raw ∧
    normalizeSegmentSpec rt raw = .ok segment

/-- What the validator does not check. -/
structure Consistent (rt : PyRuntime) (role : Role) (data : Mapping) : Prop where
  declared : configuredNodes data ≠ []
  named : ∀ node ∈ configuredNodes data, nodeText rt "name" node ≠ ""
  names : ((configuredNodes data).map (nodeText rt "name")).Nodup
  hostnames : ((configuredNodes data).map (nodeText rt "nova_hostname")).Nodup
  segment_named : stripped rt (role.segmentName data) ≠ ""
  recovery : rt.lower (textOr rt (role.recoveryMethod data) "") ∈ recoveryMethods
  control : stripped rt (role.controlAttributes data) ≠ ""

/-! ## Nodes -/

/-- The text of a word is the word. -/
theorem stripped_word {rt : PyRuntime} {host : String} (h : pyStrip host = host) :
    stripped rt (.str host) = host := by
  unfold stripped textOr Value.or
  split
  · exact h
  · rename_i hempty
    have hnil : host = "" := by simpa using hempty
    rw [hnil]
    rfl

/-- A word of ASCII letters in lower case stays as it is. -/
theorem lower_word {rt : PyRuntime} {word : String} (hascii : isAscii word = true)
    (hstrip : pyStrip word = word) (hlower : asciiLower word = word) :
    rt.lower (stripped rt (.str word)) = word := by
  rw [stripped_word hstrip, rt.lower_ascii word hascii, hlower]

section Node

variable {rt : PyRuntime} {computes : List String} {node : Mapping} {ports : List Mapping}

/-- The hostname of a checked node is a word. -/
theorem Cli.Checked.hostname_word (h : Checked rt computes node ports)
    (hwords : ∀ host ∈ computes, host ≠ "" ∧ pyStrip host = host) :
    Value.entry node "nova_hostname" = .str (strippedText rt node "nova_hostname") ∧
      strippedText rt node "nova_hostname" ≠ "" := by
  obtain ⟨host, hmem, hentry⟩ := h.hostname
  obtain ⟨hne, hstrip⟩ := hwords host hmem
  have htext : strippedText rt node "nova_hostname" = host := by
    rw [strippedText, hentry, stripped_word hstrip]
  rw [htext]
  exact ⟨hentry, hne⟩

/-- The driver of a checked node is one that the module knows, with the same required fields. -/
theorem Cli.Checked.driver_known (h : Checked rt computes node ports) :
    ∃ key keys, requiredDriverInfo (rt.lower (strippedText rt node "driver")) = some (key :: keys) ∧
      ∀ k ∈ key :: keys, ∃ value,
        ((Value.entry node "driver_info").or (.dict [])).get k = .ok value ∧
          value.truthy = true := by
  obtain ⟨keys, hkeys, hvalues⟩ := h.driver
  unfold requiredDriverFields at hkeys
  split at hkeys
  · have hopt := Except.ok.inj hkeys
    split at hopt
    · rename_i hdriver
      cases hopt
      have htext : rt.lower (strippedText rt node "driver") = "redfish" := by
        rw [strippedText, Value.isStr_iff.mp hdriver]
        exact lower_word (by decide) (by decide) (by decide)
      rw [htext]
      exact ⟨_, _, rfl, hvalues⟩
    · split at hopt
      · rename_i hdriver
        cases hopt
        have htext : rt.lower (strippedText rt node "driver") = "ipmi" := by
          rw [strippedText, Value.isStr_iff.mp hdriver]
          exact lower_word (by decide) (by decide) (by decide)
        rw [htext]
        exact ⟨_, _, rfl, hvalues⟩
      · cases hopt
  · cases hkeys

theorem checkDriverInfo_ok {driverInfo : Value} {keys : List String}
    (h : ∀ key ∈ keys, ∃ value, driverInfo.get key = .ok value ∧ value.truthy = true) :
    checkDriverInfo driverInfo keys = .ok () := by
  induction keys with
  | nil => rfl
  | cons key keys ih =>
    obtain ⟨⟨value, hget, htruthy⟩, hrest⟩ := List.forall_mem_cons.mp h
    simp only [checkDriverInfo, pyBind_ok]
    exact ⟨value, ofPython_ok.mpr hget, (), refuseIf_ok.mpr (by simp [htruthy]), ih hrest⟩

/-- What `normalize_spec` makes of a port. -/
def desiredPort (rt : PyRuntime) (port : Mapping) : DesiredPort :=
  ⟨portAddress rt port, Value.entry port "physical_network"⟩

theorem normalizePorts_ok {seen : List String}
    (hmacs : ∀ port ∈ ports, macMatch (portAddress rt port).toList = true)
    (hnodup : (ports.map (portAddress rt)).Nodup)
    (hseen : ∀ port ∈ ports, portAddress rt port ∉ seen) :
    normalizePorts rt (ports.map .dict) seen = .ok (ports.map (desiredPort rt)) := by
  induction ports generalizing seen with
  | nil => rfl
  | cons port ports ih =>
    obtain ⟨hmac, hmacs⟩ := List.forall_mem_cons.mp hmacs
    obtain ⟨hnew, hseen⟩ := List.forall_mem_cons.mp hseen
    rw [List.map_cons, List.nodup_cons] at hnodup
    have hrest : ∀ p ∈ ports, portAddress rt p ∉ portAddress rt port :: seen := by
      intro p hp hmem
      rcases List.mem_cons.mp hmem with heq | hmem
      · exact hnodup.1 (heq ▸ List.mem_map_of_mem hp)
      · exact hseen p hp hmem
    simp only [List.map_cons, normalizePorts, pyBind_ok]
    exact ⟨(), refuseIf_ok.mpr (by simp [hmac]), (), refuseIf_ok.mpr (by simpa using hnew), _,
      ih hmacs hnodup.2 hrest, rfl⟩

/-- What `normalize_spec` makes of a checked node with a name. -/
def specOf (rt : PyRuntime) (entry : Entry) : NodeSpec where
  name := strippedText rt entry.1 "name"
  novaHostname := strippedText rt entry.1 "nova_hostname"
  driver := rt.lower (strippedText rt entry.1 "driver")
  driverInfo :=
    match (Value.entry entry.1 "driver_info").or (.dict []) with
    | .dict info => info
    | _ => []
  ports := entry.2.map (desiredPort rt)

theorem normalizeSpec_ok (h : Checked rt computes node ports)
    (hwords : ∀ host ∈ computes, host ≠ "" ∧ pyStrip host = host)
    (hname : strippedText rt node "name" ≠ "") (hports : (ports.map (portAddress rt)).Nodup) :
    normalizeSpec rt (.dict node) = .ok (specOf rt (node, ports)) := by
  obtain ⟨key, keys, hkeys, hvalues⟩ := h.driver_known
  obtain ⟨_, hhost⟩ := h.hostname_word hwords
  have hitems : items ((Value.entry node "driver_info").or (.dict [])) =
      .ok (specOf rt (node, ports)).driverInfo := by
    obtain ⟨value, hget, _⟩ := hvalues key List.mem_cons_self
    unfold specOf
    cases hinfo : (Value.entry node "driver_info").or (.dict []) with
    | dict kvs => rfl
    | _ => rw [hinfo] at hget; cases hget
  simp only [normalizeSpec, pyBind_ok, hkeys]
  refine ⟨(), refuseIf_ok.mpr (by simp [hname, hhost]), (), refuseIf_ok.mpr ?_, (),
    refuseIf_ok.mpr ?_, (), checkDriverInfo_ok hvalues, _, ofPython_ok.mpr h.ports_eq, _,
    normalizePorts_ok h.macs hports (by simp), _, hitems, rfl⟩
  · rw [h.network]; rfl
  · rw [h.provision]; rfl

/-- An accepted specification has a name. -/
theorem normalizeSpec_names {raw : Value} {spec : NodeSpec} (h : normalizeSpec rt raw = .ok spec) :
    spec.name = nodeText rt "name" raw ∧ spec.novaHostname = nodeText rt "nova_hostname" raw ∧
      spec.name ≠ "" := by
  cases raw with
  | dict node =>
    simp only [normalizeSpec, pyBind_ok, refuseIf_ok] at h
    obtain ⟨_, hname, h⟩ := h
    split at h
    · cases h
    · simp only [pyBind_ok, pyPure_ok] at h
      obtain ⟨_, _, _, _, _, _, _, _, _, _, _, _, rfl⟩ := h
      simp only [Bool.or_eq_false_iff, beq_eq_false_iff_ne] at hname
      exact ⟨rfl, rfl, hname.1⟩
  | _ => cases h

theorem specs_names {raws : List Value} {specs : List NodeSpec}
    (h : List.Forall₂ (fun raw spec => normalizeSpec rt raw = .ok spec) raws specs) :
    specs.map NodeSpec.name = raws.map (nodeText rt "name") ∧
      specs.map NodeSpec.novaHostname = raws.map (nodeText rt "nova_hostname") ∧
      ∀ raw ∈ raws, nodeText rt "name" raw ≠ "" := by
  induction h with
  | nil => simp
  | cons hspec _ ih =>
    obtain ⟨hname, hhost, hne⟩ := normalizeSpec_names hspec
    obtain ⟨hnames, hhosts, hnamed⟩ := ih
    rw [List.map_cons, List.map_cons, List.map_cons, List.map_cons, hnames, hhosts, hname, hhost]
    exact ⟨rfl, rfl, List.forall_mem_cons.mpr ⟨hname ▸ hne, hnamed⟩⟩

end Node

/-! ## The segment -/

/-- What the module asks of one host of a segment. -/
structure HostAccepted (rt : PyRuntime) (raw : Value) : Prop where
  mapping : ∃ host, raw = .dict host ∧
    rt.upper (textOr rt (Value.entry host "type") "COMPUTE") = "COMPUTE"
  named : nodeText rt "name" raw ≠ ""
  control : nodeText rt "control_attributes" raw ≠ ""

section Segment

variable {rt : PyRuntime} {role : Role} {data : Mapping}

theorem normalizeHosts_ok {rawHosts : List Value} {names : List String}
    (hall : ∀ raw ∈ rawHosts, HostAccepted rt raw)
    (hnodup : (rawHosts.map (nodeText rt "name")).Nodup)
    (hnames : ∀ raw ∈ rawHosts, nodeText rt "name" raw ∉ names) :
    ∃ hosts, normalizeHosts rt rawHosts names = .ok hosts := by
  induction rawHosts generalizing names with
  | nil => exact ⟨[], rfl⟩
  | cons raw rawHosts ih =>
    obtain ⟨hraw, hraws⟩ := List.forall_mem_cons.mp hall
    obtain ⟨hnew, hold⟩ := List.forall_mem_cons.mp hnames
    rw [List.map_cons, List.nodup_cons] at hnodup
    obtain ⟨⟨host, rfl, htype⟩, hname, hcontrol⟩ := hraw
    have hrest : ∀ r ∈ rawHosts, nodeText rt "name" r ∉ strippedText rt host "name" :: names := by
      intro r hr hmem
      rcases List.mem_cons.mp hmem with heq | hmem
      · exact hnodup.1 (List.mem_map.mpr ⟨r, hr, heq⟩)
      · exact hold r hr hmem
    obtain ⟨hosts, hhosts⟩ := ih hraws hnodup.2 hrest
    rw [nodeText] at hname hcontrol hnew
    simp only [normalizeHosts, pyBind_ok]
    exact ⟨_, (), refuseIf_ok.mpr (by simp [hname]), (), refuseIf_ok.mpr (by simp [hnew]), (),
      refuseIf_ok.mpr (by simp [htype]), (), refuseIf_ok.mpr (by simp [hcontrol]), hosts, hhosts,
      rfl⟩

theorem normalizeHosts_sound {rawHosts : List Value} {names : List String}
    {hosts : List DesiredHost} (h : normalizeHosts rt rawHosts names = .ok hosts) :
    hosts.map DesiredHost.name = rawHosts.map (nodeText rt "name") ∧
      (hosts.map DesiredHost.name).Nodup ∧ (∀ host ∈ hosts, host.name ∉ names) ∧
      ∀ raw ∈ rawHosts, nodeText rt "control_attributes" raw ≠ "" := by
  induction rawHosts generalizing names hosts with
  | nil => cases h; simp
  | cons raw rawHosts ih =>
    cases raw with
    | dict host =>
      simp only [normalizeHosts, pyBind_ok, pyPure_ok, refuseIf_ok] at h
      obtain ⟨_, _, _, hnew, _, _, _, hcontrol, rest, hrest, rfl⟩ := h
      obtain ⟨hmap, hnodup, hnames, hall⟩ := ih hrest
      have hnew : strippedText rt host "name" ∉ names := by simpa using hnew
      have hcontrol : strippedText rt host "control_attributes" ≠ "" := by simpa using hcontrol
      refine ⟨by rw [List.map_cons, List.map_cons, hmap]; rfl, ?_, ?_, ?_⟩
      · rw [List.map_cons, List.nodup_cons]
        refine ⟨fun hmem => ?_, hnodup⟩
        obtain ⟨other, hother, heq⟩ := List.mem_map.mp hmem
        exact hnames other hother (heq ▸ List.mem_cons_self)
      · refine List.forall_mem_cons.mpr ⟨hnew, fun other hother hmem => ?_⟩
        exact hnames other hother (List.mem_cons_of_mem _ hmem)
      · exact List.forall_mem_cons.mpr ⟨hcontrol, hall⟩
    | _ => cases h

theorem segmentHosts_ok {nodes : List Mapping} {hostname : Mapping → Value}
    (h : ∀ node ∈ nodes, Value.lookup node "nova_hostname" = some (hostname node)) :
    role.segmentHosts data (nodes.map .dict) =
      .ok (nodes.map fun node => .dict (role.hostEntry data node (hostname node))) := by
  induction nodes with
  | nil => rfl
  | cons node nodes ih =>
    obtain ⟨hnode, hnodes⟩ := List.forall_mem_cons.mp h
    simp only [List.map_cons, Role.segmentHosts, pyBind_ok]
    refine ⟨_, ?_, _, ih hnodes, rfl⟩
    simp only [Role.segmentHost, items, pyBind_ok]
    exact ⟨node, rfl, by rw [hnode]; rfl⟩

theorem segmentEntry_hosts (hosts : List Value) :
    ((Value.entry (role.segmentEntry data hosts) "hosts").or (.list [])).iter = .ok hosts := by
  cases hosts <;> rfl

/-- The hosts of an accepted segment of the role. -/
theorem normalizeSegmentSpec_hosts {hosts : List Value} {spec : SegmentSpec}
    (h : normalizeSegmentSpec rt (.dict (role.segmentEntry data hosts)) = .ok spec) :
    normalizeHosts rt hosts [] = .ok spec.hosts := by
  simp only [normalizeSegmentSpec, pyBind_ok, pyPure_ok, ofPython_ok, segmentEntry_hosts] at h
  obtain ⟨_, _, _, _, _, _, raw, hraw, desired, hdesired, _, _, rfl⟩ := h
  cases hraw
  exact hdesired

/-- The segment of the role is accepted exactly if its texts are and its hosts are. -/
theorem normalizeSegmentSpec_iff {hosts : List Value} :
    (∃ segment, normalizeSegmentSpec rt (.dict (role.segmentEntry data hosts)) = .ok segment) ↔
      stripped rt (role.segmentName data) ≠ "" ∧
      rt.lower (textOr rt (role.recoveryMethod data) "") ∈ recoveryMethods ∧
      ∃ desired, normalizeHosts rt hosts [] = .ok desired ∧ desired ≠ [] := by
  have hname : strippedText rt (role.segmentEntry data hosts) "name" =
      stripped rt (role.segmentName data) := rfl
  have htype : rt.upper (textOr rt (Value.entry (role.segmentEntry data hosts) "service_type") "") =
      "COMPUTE" := rt.upper_ascii "COMPUTE" (by decide)
  have hmethod : Value.entry (role.segmentEntry data hosts) "recovery_method" =
      role.recoveryMethod data := rfl
  simp only [normalizeSegmentSpec, pyBind_ok, refuseIf_ok, ofPython_ok, hname, htype, hmethod,
    segmentEntry_hosts]
  constructor
  · rintro ⟨_, _, hnamed, _, _, _, hrecovery, raw, hraw, desired, hdesired, _, hne, _⟩
    cases hraw
    exact ⟨by simpa using hnamed, by simpa using hrecovery, desired, hdesired, by simpa using hne⟩
  · rintro ⟨hnamed, hrecovery, desired, hdesired, hne⟩
    exact ⟨_, (), by simpa using hnamed, (), by simp, (), by simpa using hrecovery, hosts, rfl,
      desired, hdesired, (), by simpa using hne, rfl⟩

theorem lookup_of_entry {kvs : Mapping} {key text : String}
    (h : Value.entry kvs key = .str text) : Value.lookup kvs key = some (.str text) := by
  unfold Value.entry at h
  cases hl : Value.lookup kvs key with
  | none => rw [hl] at h; cases h
  | some v => rw [hl] at h; exact congrArg some h

end Segment

/-! ## The configuration -/

section Configuration

variable {rt : PyRuntime} {role : Role} {data : Mapping} {computes : List String}
  {entries : List Entry}

/-- The mapping of an entry, as the list of nodes has it. -/
def Cli.Entry.value (entry : Entry) : Value := .dict entry.1

/-- The host of the segment for a declared node. -/
def hostValue (role : Role) (data : Mapping) (entry : Entry) : Value :=
  .dict (role.hostEntry data entry.1 (Value.entry entry.1 "nova_hostname"))

theorem hostValue_control (entry : Entry) :
    nodeText rt "control_attributes" (hostValue role data entry) =
      stripped rt (role.controlAttributes data) := rfl

theorem role_hosts (hchecked : ∀ entry ∈ entries, Checked rt computes entry.1 entry.2) :
    role.segmentHosts data (entries.map Cli.Entry.value) =
      .ok (entries.map (hostValue role data)) := by
  have hlookup : ∀ node ∈ entries.map Prod.fst,
      Value.lookup node "nova_hostname" = some (Value.entry node "nova_hostname") := by
    intro node hnode
    obtain ⟨entry, hentry, rfl⟩ := List.mem_map.mp hnode
    obtain ⟨host, _, hhost⟩ := (hchecked entry hentry).hostname
    rw [hhost]
    exact lookup_of_entry hhost
  have h : role.segmentHosts data ((entries.map Prod.fst).map .dict) = _ := segmentHosts_ok hlookup
  rw [List.map_map, List.map_map] at h
  exact h

theorem segmentSpec_eq (hchecked : ∀ entry ∈ entries, Checked rt computes entry.1 entry.2) :
    role.segmentSpec data (entries.map Cli.Entry.value) =
      .ok (.dict (role.segmentEntry data (entries.map (hostValue role data)))) := by
  simp only [Role.segmentSpec, pyBind_ok]
  exact ⟨_, role_hosts hchecked, rfl⟩

/-- The hosts of the segment are called after the hostnames of the nodes. -/
theorem segmentSpec_names (hchecked : ∀ entry ∈ entries, Checked rt computes entry.1 entry.2)
    {raw : Value} {spec : SegmentSpec}
    (hraw : role.segmentSpec data (entries.map Cli.Entry.value) = .ok raw)
    (hspec : normalizeSegmentSpec rt raw = .ok spec) :
    spec.hosts.map DesiredHost.name =
        (entries.map Cli.Entry.value).map (nodeText rt "nova_hostname") ∧
      (spec.hosts.map DesiredHost.name).Nodup := by
  rw [segmentSpec_eq hchecked] at hraw
  cases hraw
  obtain ⟨hnames, hnodup, _⟩ := normalizeHosts_sound (normalizeSegmentSpec_hosts hspec)
  refine ⟨?_, hnodup⟩
  rw [hnames, List.map_map, List.map_map]
  rfl

/-- The specifications of the nodes are accepted and distinct exactly if the names are. -/
theorem specs_iff (hchecked : ∀ entry ∈ entries, Checked rt computes entry.1 entry.2)
    (hwords : ∀ host ∈ computes, host ≠ "" ∧ pyStrip host = host)
    (hmacs : (entries.flatMap (addresses rt)).Nodup) :
    (∃ specs : List NodeSpec,
      List.Forall₂ (fun node spec => normalizeSpec rt node = .ok spec)
        (entries.map Cli.Entry.value) specs ∧
      (specs.map NodeSpec.name).Nodup ∧ (specs.map NodeSpec.novaHostname).Nodup ∧
      (specs.flatMap fun spec => spec.ports.map DesiredPort.address).Nodup) ↔
    (∀ node ∈ entries.map Cli.Entry.value, nodeText rt "name" node ≠ "") ∧
      ((entries.map Cli.Entry.value).map (nodeText rt "name")).Nodup ∧
      ((entries.map Cli.Entry.value).map (nodeText rt "nova_hostname")).Nodup := by
  constructor
  · rintro ⟨specs, hall, hnames, hhosts, _⟩
    obtain ⟨hsame, hsame', hnamed⟩ := specs_names hall
    exact ⟨hnamed, hsame ▸ hnames, hsame' ▸ hhosts⟩
  · rintro ⟨hnamed, hnames, hhosts⟩
    have hports : ∀ entry ∈ entries, (entry.2.map (portAddress rt)).Nodup := fun entry hentry =>
      (List.nodup_flatMap.mp hmacs).1 entry hentry
    rw [List.map_map] at hnames hhosts
    refine ⟨entries.map (specOf rt), ?_, ?_, ?_, ?_⟩
    · rw [List.forall₂_map_left_iff, List.forall₂_map_right_iff, List.forall₂_same]
      intro entry hentry
      have hname : nodeText rt "name" (Cli.Entry.value entry) ≠ "" :=
        hnamed (Cli.Entry.value entry) (List.mem_map_of_mem hentry)
      exact normalizeSpec_ok (hchecked entry hentry) hwords hname (hports entry hentry)
    · rw [List.map_map]
      exact hnames
    · rw [List.map_map]
      exact hhosts
    · rw [List.flatMap_map]
      have haddr : ∀ entry : Entry, (specOf rt entry).ports.map DesiredPort.address =
          addresses rt entry := by
        intro entry
        simp [specOf, addresses, desiredPort, Function.comp_def]
      simpa only [haddr] using hmacs

/-- The segment of the role is accepted exactly if there is a node, the hostnames are distinct and
the texts of the segment are in order. -/
theorem segment_iff (hchecked : ∀ entry ∈ entries, Checked rt computes entry.1 entry.2)
    (hwords : ∀ host ∈ computes, host ≠ "" ∧ pyStrip host = host)
    (hhosts : ((entries.map Cli.Entry.value).map (nodeText rt "nova_hostname")).Nodup) :
    (∃ raw segment, role.segmentSpec data (entries.map Cli.Entry.value) = .ok raw ∧
      normalizeSegmentSpec rt raw = .ok segment) ↔
    entries ≠ [] ∧ stripped rt (role.segmentName data) ≠ "" ∧
      rt.lower (textOr rt (role.recoveryMethod data) "") ∈ recoveryMethods ∧
      stripped rt (role.controlAttributes data) ≠ "" := by
  have hspec : role.segmentSpec data (entries.map Cli.Entry.value) = _ := segmentSpec_eq hchecked
  constructor
  · rintro ⟨raw, segment, hraw, hok⟩
    rw [hspec] at hraw
    cases hraw
    obtain ⟨hname, hmethod, desired, hdesired, hne⟩ := normalizeSegmentSpec_iff.mp ⟨segment, hok⟩
    obtain ⟨hmap, _, _, hcontrol⟩ := normalizeHosts_sound hdesired
    cases entries with
    | nil => cases hdesired; exact absurd rfl hne
    | cons entry entries =>
      have hfirst := hcontrol (hostValue role data entry) List.mem_cons_self
      rw [hostValue_control] at hfirst
      exact ⟨List.cons_ne_nil _ _, hname, hmethod, hfirst⟩
  · rintro ⟨hne, hname, hmethod, hcontrol⟩
    have hhost : ∀ raw ∈ entries.map (hostValue role data), HostAccepted rt raw := by
      intro raw hraw
      obtain ⟨entry, hentry, rfl⟩ := List.mem_map.mp hraw
      exact ⟨⟨_, rfl, rt.upper_ascii "COMPUTE" (by decide)⟩,
        ((hchecked entry hentry).hostname_word hwords).2, hostValue_control entry ▸ hcontrol⟩
    rw [List.map_map] at hhosts
    obtain ⟨desired, hdesired⟩ :
        ∃ desired, normalizeHosts rt (entries.map (hostValue role data)) [] = .ok desired :=
      normalizeHosts_ok hhost (by rw [List.map_map]; exact hhosts) (by simp)
    have hdesired_ne : desired ≠ [] := by
      rintro rfl
      have hmap := (normalizeHosts_sound hdesired).1
      simp [hne] at hmap
    obtain ⟨segment, hok⟩ :=
      normalizeSegmentSpec_iff.mpr ⟨hname, hmethod, desired, hdesired, hdesired_ne⟩
    exact ⟨_, segment, hspec, hok⟩

/-- **Soundness of the validator.** An accepted configuration is consumed as it should be exactly
if it is consistent. -/
theorem validated_iff {inventoryText : List Char}
    (h : validateConfig rt data inventoryText = .ok []) :
    Consumed rt role data ↔ Consistent rt role data := by
  obtain ⟨computes, entries, hcomputes, hnodes, hchecked, _, hmacs⟩ := validateConfig_sound h
  have hconf : configuredNodes data = entries.map Cli.Entry.value := by
    rw [configuredNodes, hnodes]
    rfl
  have hwords : ∀ host ∈ computes, host ≠ "" ∧ pyStrip host = host :=
    fun host hhost => computeHosts_word hcomputes hhost
  have hspecs := specs_iff hchecked hwords hmacs
  constructor
  · rintro ⟨specs, raw, segment, hall, hnames, hhosts, haddr, hraw, hok⟩
    rw [hconf] at hall hraw
    obtain ⟨hnamed, hnames, hhosts⟩ := hspecs.mp ⟨specs, hall, hnames, hhosts, haddr⟩
    obtain ⟨hne, hname, hmethod, hcontrol⟩ :=
      (segment_iff hchecked hwords hhosts).mp ⟨raw, segment, hraw, hok⟩
    rw [← hconf] at hnamed hnames hhosts
    exact ⟨by rw [hconf]; simpa using hne, hnamed, hnames, hhosts, hname, hmethod, hcontrol⟩
  · rintro ⟨hne, hnamed, hnames, hhosts, hname, hmethod, hcontrol⟩
    rw [hconf] at hne hnamed hnames hhosts
    obtain ⟨specs, hall, hnames, hhosts', haddr⟩ := hspecs.mpr ⟨hnamed, hnames, hhosts⟩
    obtain ⟨raw, segment, hraw, hok⟩ :=
      (segment_iff hchecked hwords hhosts).mpr ⟨by simpa using hne, hname, hmethod, hcontrol⟩
    rw [← hconf] at hall hraw
    exact ⟨specs, raw, segment, hall, hnames, hhosts', haddr, hraw, hok⟩

end Configuration

/-! ## A configuration of two hosts -/

/-- A Redfish node with one port. -/
def redfishNode (name hostname mac : String) : Value := .dict [
  (.str "name", .str name),
  (.str "nova_hostname", .str hostname),
  (.str "driver", .str "redfish"),
  (.str "driver_info", .dict [
    (.str "redfish_address", .str ("bmc-" ++ name)),
    (.str "redfish_system_id", .str "1"),
    (.str "redfish_username", .str "admin"),
    (.str "redfish_password", .str "secret")]),
  (.str "network_interface", .str "noop"),
  (.str "desired_provision_state", .str "manageable"),
  (.str "ports", .list [.dict [(.str "address", .str mac)]])]

def globals (nodes : List Value) : Mapping := [
  (.str "enable_ironic", .str "yes"),
  (.str "enable_masakari", .str "yes"),
  (.str "enable_mistral", .str "yes"),
  (.str "enable_powerops", .str "yes"),
  (.str "powerops_ironic_nodes", .list nodes)]

def twoComputes : List Char := "[compute]\ncompute-01\ncompute-02\n".toList

def plainRole : Role := ⟨id, id⟩

/-- Two nodes with one hostname. -/
def sharedHostname : Mapping := globals [
  redfishNode "compute-01" "compute-01" "52:54:00:00:00:01",
  redfishNode "compute-02" "compute-01" "52:54:00:00:00:02"]

theorem validated_not_consumed :
    ¬ ∀ (rt : PyRuntime) (role : Role) (data : Mapping) (inventoryText : List Char),
      validateConfig rt data inventoryText = .ok [] → Consumed rt role data := by
  intro h
  obtain ⟨specs, raw, segment, _, _, _, _, hraw, hsegment⟩ :=
    h PyRuntime.ascii plainRole sharedHostname twoComputes (by rfl)
  cases hraw
  cases hsegment

/-- Two nodes, each with its own hostname. -/
def ownHostnames : Mapping := globals [
  redfishNode "compute-01" "compute-01" "52:54:00:00:00:01",
  redfishNode "compute-02" "compute-02" "52:54:00:00:00:02"]

theorem validated_iff_own : Consumed PyRuntime.ascii plainRole ownHostnames := by
  have hvalid : validateConfig PyRuntime.ascii ownHostnames twoComputes = .ok [] := rfl
  exact (validated_iff hvalid).mpr ⟨List.cons_ne_nil _ _, by decide, by decide, by decide, by decide,
    by decide, by decide⟩

end Declared
end KollaPowerOps
