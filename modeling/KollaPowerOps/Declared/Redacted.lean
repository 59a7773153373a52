import KollaPowerOps.Declared.Report

/-!
# Declared.Redacted

What the validation report can tell of the credentials: two globals files that differ only in
values of `driver_info` go through the same steps, since of these values only their truth is looked
at, and the identities of Redfish systems (`redacted_iff`).

The relations between the two files go down with the data: `DataLike` on the globals, `NodeLike` on
a node, `InfoLike` on its `driver_info`. Their parameter `exact` says whether the Redfish address
and system id have to be the same.
-/

namespace KollaPowerOps
namespace Declared
namespace Cli

/-- Entries of two mappings with the same keys in the same order, and values that `R` relates. -/
def EntriesLike (R : Value → Value → Value → Prop) (kvs kvs' : Mapping) : Prop :=
  List.Forall₂ (fun a b => a.1 = b.1 ∧ R a.1 a.2 b.2) kvs kvs'

/-- The keys that identify a Redfish system. -/
def identifying (key : Value) : Bool := key.isStr "redfish_address" || key.isStr "redfish_system_id"

/-- Two `driver_info` whose values are empty and non-empty alike. -/
def InfoLike (exact : Bool) (info info' : Value) : Prop :=
  ∃ kvs kvs', info = .dict kvs ∧ info' = .dict kvs' ∧
    EntriesLike (fun key v v' => v.truthy = v'.truthy ∧
      (exact = true → identifying key = true → v = v')) kvs kvs'

/-- Two nodes that differ at most in their `driver_info`. -/
def NodeLike (exact : Bool) : Mapping → Mapping → Prop :=
  EntriesLike fun key v v' => v = v' ∨ key.isStr "driver_info" = true ∧ InfoLike exact v v'

/-- Two items of the declared nodes. -/
def ItemLike (exact : Bool) (item item' : Value) : Prop :=
  item = item' ∨ ∃ node node', item = .dict node ∧ item' = .dict node' ∧ NodeLike exact node node'

/-- Two globals that differ at most in values of `driver_info`. -/
def DataLike (exact : Bool) : Mapping → Mapping → Prop :=
  EntriesLike fun key v v' => v = v' ∨ key.isStr "powerops_ironic_nodes" = true ∧
    ∃ items items', v = .list items ∧ v' = .list items' ∧ List.Forall₂ (ItemLike exact) items items'

/-- A look-up in two such mappings. -/
theorem EntriesLike.lookup {R : Value → Value → Value → Prop} {kvs kvs' : Mapping}
    (h : EntriesLike R kvs kvs') (key : String) :
    (Value.lookup kvs key = none ∧ Value.lookup kvs' key = none) ∨
      ∃ k v v', k.isStr key = true ∧ Value.lookup kvs key = some v ∧
        Value.lookup kvs' key = some v' ∧ R k v v' := by
  induction h with
  | nil => exact .inl ⟨rfl, rfl⟩
  | @cons a b kvs kvs' hab _ ih =>
    obtain ⟨hkey, hR⟩ := hab
    unfold Value.lookup
    rw [List.find?_cons, List.find?_cons, ← hkey]
    cases hstr : a.1.isStr key with
    | true => exact .inr ⟨a.1, a.2, b.2, hstr, rfl, rfl, hR⟩
    | false => exact ih

/-! The relations are symmetric. -/

theorem EntriesLike.symm {R : Value → Value → Value → Prop} {kvs kvs' : Mapping}
    (hR : ∀ key v v', R key v v' → R key v' v) (h : EntriesLike R kvs kvs') :
    EntriesLike R kvs' kvs := by
  induction h with
  | nil => exact .nil
  | @cons a b _ _ hab _ ih =>
    refine .cons ⟨hab.1.symm, ?_⟩ ih
    rw [← hab.1]
    exact hR _ _ _ hab.2

theorem InfoLike.symm {exact : Bool} {info info' : Value} (h : InfoLike exact info info') :
    InfoLike exact info' info := by
  obtain ⟨kvs, kvs', rfl, rfl, hentries⟩ := h
  refine ⟨kvs', kvs, rfl, rfl, hentries.symm fun key v v' hv => ?_⟩
  exact ⟨hv.1.symm, fun he hk => (hv.2 he hk).symm⟩

theorem NodeLike.symm {exact : Bool} {node node' : Mapping} (h : NodeLike exact node node') :
    NodeLike exact node' node :=
  EntriesLike.symm (fun _ _ _ hv => hv.imp Eq.symm fun hi => ⟨hi.1, hi.2.symm⟩) h

section Lookups

variable {exact : Bool} {kvs kvs' node node' data data' : Mapping}

theorem NodeLike.lookup_eq (h : NodeLike exact node node') {key : String}
    (hkey : key ≠ "driver_info") : Value.lookup node key = Value.lookup node' key := by
  obtain ⟨hnone, hnone'⟩ | ⟨k, v, v', hk, hv, hv', hR⟩ := EntriesLike.lookup h key
  · rw [hnone, hnone']
  · rcases hR with rfl | ⟨hinfo, _⟩
    · rw [hv, hv']
    · rw [Value.isStr_iff.mp hk, Value.isStr_iff] at hinfo
      exact absurd (Value.str.inj hinfo) hkey

theorem NodeLike.entry_eq (h : NodeLike exact node node') {key : String}
    (hkey : key ≠ "driver_info") : Value.entry node key = Value.entry node' key := by
  rw [Value.entry, h.lookup_eq hkey, Value.entry]

/-- The `driver_info` of two nodes are the same, or mappings alike. -/
theorem NodeLike.info (h : NodeLike exact node node') :
    infoOf node = infoOf node' ∨ InfoLike exact (infoOf node) (infoOf node') := by
  unfold infoOf Value.entry
  obtain ⟨hnone, hnone'⟩ | ⟨k, v, v', _, hv, hv', hR⟩ := EntriesLike.lookup h "driver_info"
  · exact .inl (by rw [hnone, hnone'])
  · rw [hv, hv', Option.getD_some, Option.getD_some]
    rcases hR with rfl | ⟨_, kvs, kvs', rfl, rfl, hentries⟩
    · exact .inl rfl
    · cases hentries with
      | nil => exact .inl rfl
      | cons ha hrest => exact .inr ⟨_, _, rfl, rfl, .cons ha hrest⟩

theorem InfoLike.get {info info' : Value} (h : InfoLike exact info info') (key : String) :
    ∃ v v', info.get key = .ok v ∧ info'.get key = .ok v' ∧ v.truthy = v'.truthy ∧
      (exact = true → identifying (.str key) = true → v = v') := by
  obtain ⟨kvs, kvs', rfl, rfl, hentries⟩ := h
  refine ⟨_, _, rfl, rfl, ?_⟩
  unfold Value.entry
  obtain ⟨hnone, hnone'⟩ | ⟨k, v, v', hk, hv, hv', htruth, hsame⟩ := hentries.lookup key
  · rw [hnone, hnone']
    exact ⟨rfl, fun _ _ => rfl⟩
  · rw [hv, hv']
    rw [Value.isStr_iff.mp hk] at hsame
    exact ⟨htruth, hsame⟩

/-- The declared nodes are the same, or lists with items alike. -/
theorem DataLike.nodes (h : DataLike exact data data') :
    declaredNodes data = declaredNodes data' ∨ ∃ items items', declaredNodes data = .list items ∧
      declaredNodes data' = .list items' ∧ List.Forall₂ (ItemLike exact) items items' := by
  unfold declaredNodes Value.entry
  obtain ⟨hnone, hnone'⟩ | ⟨k, v, v', _, hv, hv', hR⟩ :=
    EntriesLike.lookup h "powerops_ironic_nodes"
  · exact .inl (by rw [hnone, hnone'])
  · rw [hv, hv', Option.getD_some, Option.getD_some]
    rcases hR with rfl | ⟨_, items, items', rfl, rfl, hitems⟩
    · exact .inl rfl
    · cases hitems with
      | nil => exact .inl rfl
      | cons ha hrest => exact .inr ⟨_, _, rfl, rfl, .cons ha hrest⟩

theorem DataLike.entry_eq (h : DataLike exact data data') {key : String}
    (hkey : key ≠ "powerops_ironic_nodes") : Value.entry data key = Value.entry data' key := by
  unfold Value.entry
  obtain ⟨hnone, hnone'⟩ | ⟨k, v, v', hk, hv, hv', hR⟩ := EntriesLike.lookup h key
  · rw [hnone, hnone']
  · rcases hR with rfl | ⟨hnodes, _⟩
    · rw [hv, hv']
    · rw [Value.isStr_iff.mp hk, Value.isStr_iff] at hnodes
      exact absurd (Value.str.inj hnodes) hkey

end Lookups

/-! ## One node -/

section Node

variable {exact : Bool} {node node' : Mapping}

theorem checkFields_congr {info info' : Value} (h : InfoLike exact info info') (name : String)
    (keys : List String) : checkFields name info keys = checkFields name info' keys := by
  induction keys with
  | nil => rfl
  | cons key keys ih =>
    obtain ⟨v, v', hv, hv', htruth, _⟩ := h.get key
    rw [checkFields, checkFields, ih, hv, hv']
    simp only [bind, Except.bind, htruth]

theorem checkDriver_congr (h : NodeLike exact node node') (name : String) :
    checkDriver name (Value.entry node "driver") (infoOf node) =
      checkDriver name (Value.entry node' "driver") (infoOf node') := by
  rw [h.entry_eq (by decide)]
  rcases h.info with hsame | hlike
  · rw [hsame]
  · unfold checkDriver
    congr 1
    funext fields
    cases fields with
    | none => rfl
    | some keys => exact checkFields_congr hlike name keys

/-- With the same identities the check for duplicates comes to the same. -/
theorem checkSystem_congr (h : NodeLike true node node') (rt : PyRuntime) (systems : Systems) :
    checkSystem rt (Value.entry node "driver") (infoOf node) systems =
      checkSystem rt (Value.entry node' "driver") (infoOf node') systems := by
  rw [h.entry_eq (by decide)]
  rcases h.info with hsame | hlike
  · rw [hsame]
  · obtain ⟨a, a', ha, ha', _, haddress⟩ := hlike.get "redfish_address"
    obtain ⟨s, s', hs, hs', _, hsystem⟩ := hlike.get "redfish_system_id"
    unfold checkSystem
    rw [ha, ha', hs, hs', haddress rfl rfl, hsystem rfl rfl]

theorem portsOf_congr (h : NodeLike exact node node') : portsOf node = portsOf node' := by
  rw [portsOf, h.entry_eq (by decide), portsOf]

theorem label_congr (h : NodeLike exact node node') (rt : PyRuntime) :
    label rt node = label rt node' := by
  rw [label, h.entry_eq (by decide), label]

theorem driverOf_congr (h : NodeLike exact node node') : driverOf node = driverOf node' := by
  rw [driverOf, h.lookup_eq (by decide), driverOf]

theorem checkNode_congr (h : NodeLike true node node') (rt : PyRuntime) (computes : List String)
    (seen : Seen) : checkNode rt computes seen node = checkNode rt computes seen node' := by
  have hhost := h.entry_eq (show "nova_hostname" ≠ "driver_info" by decide)
  have hnetwork := h.entry_eq (show "network_interface" ≠ "driver_info" by decide)
  have hprovision := h.entry_eq (show "desired_provision_state" ≠ "driver_info" by decide)
  have hdriver := checkDriver_congr h (label rt node')
  have hsystem := checkSystem_congr h rt seen.systems
  have hports := portsOf_congr h
  unfold infoOf at hdriver hsystem
  unfold portsOf at hports
  unfold checkNode
  dsimp only
  rw [label_congr h rt, hhost, hnetwork, hprovision, hdriver, hsystem, hports]

end Node

/-! ## The whole configuration -/

section Configuration

variable {exact : Bool} {items items' : List Value} {data data' : Mapping}

theorem NodeLike.refl (node : Mapping) : NodeLike exact node node :=
  List.forall₂_same.mpr fun _ _ => ⟨rfl, .inl rfl⟩

/-- Items alike are both mappings, or the same. -/
theorem ItemLike.cases {item item' : Value} (h : ItemLike exact item item') :
    (∃ node node', item = .dict node ∧ item' = .dict node' ∧ NodeLike exact node node') ∨
      item = item' ∧ ∀ node, item ≠ .dict node := by
  rcases h with rfl | hlike
  · cases item with
    | dict node => exact .inl ⟨node, node, rfl, rfl, .refl node⟩
    | _ => exact .inr ⟨rfl, by simp⟩
  · exact .inl hlike

theorem mappingsOf_cons_other {item : Value} (h : ∀ node, item ≠ .dict node)
    (items : List Value) : mappingsOf (item :: items) = mappingsOf items := by
  cases item with
  | dict node => exact absurd rfl (h node)
  | _ => rfl

/-- A node of either list is like one of the other. -/
theorem exists_like {nodes nodes' : List Mapping} (h : List.Forall₂ (NodeLike exact) nodes nodes')
    {node' : Mapping} (hnode : node' ∈ nodes') : ∃ node ∈ nodes, NodeLike exact node node' := by
  induction h with
  | nil => cases hnode
  | @cons n n' _ _ hlike _ ih =>
    rcases List.mem_cons.mp hnode with rfl | hnode
    · exact ⟨n, List.mem_cons_self, hlike⟩
    · obtain ⟨node, hmem, hlike'⟩ := ih hnode
      exact ⟨node, List.mem_cons_of_mem _ hmem, hlike'⟩

theorem mappingsOf_like (h : List.Forall₂ (ItemLike exact) items items') :
    List.Forall₂ (NodeLike exact) (mappingsOf items) (mappingsOf items') := by
  induction h with
  | nil => exact .nil
  | cons hitem _ ih =>
    obtain ⟨node, node', rfl, rfl, hnode⟩ | ⟨rfl, hother⟩ := hitem.cases
    · exact .cons hnode ih
    · rwa [mappingsOf_cons_other hother, mappingsOf_cons_other hother]

theorem drivers_congr {nodes nodes' : List Mapping}
    (h : List.Forall₂ (NodeLike exact) nodes nodes') :
    nodes.map driverOf = nodes'.map driverOf := by
  induction h with
  | nil => rfl
  | cons hnode _ ih => rw [List.map_cons, List.map_cons, driverOf_congr hnode, ih]

theorem portCount_congr {nodes nodes' : List Mapping}
    (h : List.Forall₂ (NodeLike exact) nodes nodes') : portCount nodes = portCount nodes' := by
  induction h with
  | nil => rfl
  | cons hnode _ ih => rw [portCount, portCount, portsOf_congr hnode, ih]

/-- The report reads nothing of `driver_info`. -/
theorem buildReport_congr (h : DataLike exact data data') (errors : List String) :
    buildReport data errors = buildReport data' errors := by
  unfold buildReport
  rcases h.nodes with hsame | ⟨items, items', hitems, hitems', hlike⟩
  · rw [hsame]
  · have hnodes := mappingsOf_like hlike
    rw [hitems, hitems']
    simp only [Value.iter, Value.len, bind, Except.bind, drivers_congr hnodes, portCount_congr hnodes,
      hlike.length_eq]

theorem checkNodes_congr (h : List.Forall₂ (ItemLike true) items items') (rt : PyRuntime)
    (computes : List String) :
    ∀ seen, checkNodes rt computes items seen = checkNodes rt computes items' seen := by
  induction h with
  | nil => exact fun _ => rfl
  | @cons item item' _ _ hitem _ ih =>
    intro seen
    obtain ⟨node, node', rfl, rfl, hnode⟩ | ⟨rfl, hother⟩ := hitem.cases
    · simp only [checkNodes, checkNode_congr hnode, ih]
    · cases item with
      | dict node => exact absurd rfl (hother node)
      | _ => simp only [checkNodes, ih]

/-- What the validator adds to the errors of the nodes. -/
theorem services_congr (h : DataLike exact data data') :
    (requiredServices.flatMap fun key =>
        require ((Value.entry data key).isStr "yes") (key ++ " must be yes")) =
      requiredServices.flatMap fun key =>
        require ((Value.entry data' key).isStr "yes") (key ++ " must be yes") := by
  refine List.flatMap_congr fun key hkey => ?_
  have hne : key ≠ "powerops_ironic_nodes" := by
    rintro rfl
    exact absurd hkey (by decide)
  rw [h.entry_eq hne]

theorem validateConfig_congr (h : DataLike true data data') (rt : PyRuntime)
    (inventoryText : List Char) :
    validateConfig rt data inventoryText = validateConfig rt data' inventoryText := by
  unfold validateConfig
  rw [services_congr h]
  rcases h.nodes with hsame | ⟨items, items', hitems, hitems', hlike⟩
  · rw [hsame]
  · simp only [hitems, hitems', checkNodes_congr hlike]

end Configuration

/-! ## Systems that differ -/

/-- The identity of a node that is a Redfish system. -/
def identityOf (node : Mapping) : Option (Value × Value) :=
  if (Value.entry node "driver").isStr "redfish" then
    match infoOf node with
    | .dict kvs => some (Value.entry kvs "redfish_address", Value.entry kvs "redfish_system_id")
    | _ => none
  else none

def sameSystem (s t : Value × Value) : Bool := s.1.scalarEq t.1 && s.2.scalarEq t.2

/-- No two Redfish nodes share their identity. -/
def SystemsDistinct (data : Mapping) : Prop :=
  ∀ items, declaredNodes data = .list items →
    ((mappingsOf items).filterMap identityOf).Pairwise fun s t => sameSystem t s = false

section Fresh

variable {rt : PyRuntime} {computes : List String}

/-- A system that was not seen yet gives no error. -/
theorem checkSystem_fresh {node : Mapping} {systems : Systems} {r : List String × Systems}
    (h : checkSystem rt (Value.entry node "driver") (infoOf node) systems = .ok r)
    (hfresh : ∀ s ∈ identityOf node, ∀ t ∈ systems, sameSystem s t = false) :
    r = ([], (identityOf node).toList ++ systems) := by
  unfold checkSystem at h
  split at h
  · rename_i hredfish
    simp only [pyBind_ok] at h
    obtain ⟨address, haddress, system, hsystem, h⟩ := h
    cases hinfo : infoOf node with
    | dict kvs =>
      have hid : identityOf node =
          some (Value.entry kvs "redfish_address", Value.entry kvs "redfish_system_id") := by
        rw [identityOf, if_pos hredfish, hinfo]
      rw [hinfo] at haddress hsystem
      cases haddress
      cases hsystem
      rw [hid] at hfresh ⊢
      have hnew : (systems.any fun s => (Value.entry kvs "redfish_address").scalarEq s.1 &&
          (Value.entry kvs "redfish_system_id").scalarEq s.2) = false := by
        rw [List.any_eq_false]
        intro t ht
        rw [Bool.not_eq_true]
        exact hfresh _ rfl t ht
      split at h
      · rw [hnew] at h
        exact (Except.ok.inj h).symm
      · cases h
    | _ =>
      rw [hinfo] at haddress
      cases haddress
  · rename_i hother
    rw [identityOf, if_neg hother]
    exact (Except.ok.inj h).symm

/-- Two nodes alike, each with a system not seen yet: the same errors. -/
theorem checkNode_fresh {node node' : Mapping} (h : NodeLike false node node')
    {seen seen' : Seen} (hnames : seen.names = seen'.names) (hmacs : seen.macs = seen'.macs)
    (hfresh : ∀ s ∈ identityOf node, ∀ t ∈ seen.systems, sameSystem s t = false)
    (hfresh' : ∀ s ∈ identityOf node', ∀ t ∈ seen'.systems, sameSystem s t = false)
    {r r' : List String × Seen} (hr : checkNode rt computes seen node = .ok r)
    (hr' : checkNode rt computes seen' node' = .ok r') :
    r.1 = r'.1 ∧ r.2.names = r'.2.names ∧ r.2.macs = r'.2.macs ∧
      r.2.systems = (identityOf node).toList ++ seen.systems ∧
      r'.2.systems = (identityOf node').toList ++ seen'.systems := by
  have hhost := h.entry_eq (show "nova_hostname" ≠ "driver_info" by decide)
  have hnetwork := h.entry_eq (show "network_interface" ≠ "driver_info" by decide)
  have hprovision := h.entry_eq (show "desired_provision_state" ≠ "driver_info" by decide)
  have hdriver := checkDriver_congr h (label rt node')
  have hports := portsOf_congr h
  unfold portsOf at hports
  simp only [checkNode, pyBind_ok] at hr hr'
  obtain ⟨present, hpresent, errors, herrors, system, hsystem, values, hvalues, ports, hchecked,
    hr⟩ := hr
  obtain ⟨present', hpresent', errors', herrors', system', hsystem', values', hvalues', ports',
    hchecked', hr'⟩ := hr'
  have hs := checkSystem_fresh hsystem hfresh
  have hs' := checkSystem_fresh hsystem' hfresh'
  -- everything but the systems is read from entries that the two nodes share
  rw [hhost, hpresent'] at hpresent
  rw [label_congr h rt] at herrors hchecked hr
  unfold infoOf at hdriver
  rw [hdriver, herrors'] at herrors
  rw [hports, hvalues'] at hvalues
  cases hpresent
  cases herrors
  cases hvalues
  rw [hmacs, hchecked'] at hchecked
  cases hchecked
  cases hr
  cases hr'
  rw [hs, hs', hnames, hnetwork, hprovision]
  exact ⟨rfl, rfl, rfl, rfl, rfl⟩

/-- Two lists alike with distinct systems, none of them seen yet: the same errors. -/
theorem checkNodes_fresh {items items' : List Value}
    (h : List.Forall₂ (ItemLike false) items items') :
    ∀ {seen seen' : Seen} {errors errors' : List String}, seen.names = seen'.names →
      seen.macs = seen'.macs →
      ((seen.systems.reverse ++ (mappingsOf items).filterMap identityOf).Pairwise fun s t =>
        sameSystem t s = false) →
      ((seen'.systems.reverse ++ (mappingsOf items').filterMap identityOf).Pairwise fun s t =>
        sameSystem t s = false) →
      checkNodes rt computes items seen = .ok errors →
      checkNodes rt computes items' seen' = .ok errors' → errors = errors' := by
  induction h with
  | nil =>
    intro seen seen' errors errors' _ _ _ _ herrors herrors'
    cases herrors
    cases herrors'
    rfl
  | @cons item item' items items' hitem hrest ih =>
    intro seen seen' errors errors' hnames hmacs hd hd' herrors herrors'
    obtain ⟨node, node', rfl, rfl, hnode⟩ | ⟨rfl, hother⟩ := hitem.cases
    · simp only [checkNodes, pyBind_ok] at herrors herrors'
      obtain ⟨r, hr, rest, hrun, herrors⟩ := herrors
      obtain ⟨r', hr', rest', hrun', herrors'⟩ := herrors'
      rw [mappingsOf_cons_dict] at hd hd'
      have hsplit : ∀ (n : Mapping) (ns : List Mapping),
          (n :: ns).filterMap identityOf = (identityOf n).toList ++ ns.filterMap identityOf := by
        intro n ns
        cases hn : identityOf n <;> simp [hn]
      rw [hsplit] at hd hd'
      have hfresh : ∀ {n : Mapping} {systems : Systems} {later : List (Value × Value)},
          ((systems.reverse ++ ((identityOf n).toList ++ later)).Pairwise fun s t =>
            sameSystem t s = false) →
          ∀ s ∈ identityOf n, ∀ t ∈ systems, sameSystem s t = false := by
        intro n systems later hpair s hs t ht
        exact (List.pairwise_append.mp hpair).2.2 t (List.mem_reverse.mpr ht) s
          (List.mem_append_left _ (Option.mem_toList.mpr hs))
      obtain ⟨hsame, hn, hm, hsys, hsys'⟩ := checkNode_fresh hnode hnames hmacs (hfresh hd)
        (hfresh hd') hr hr'
      have hreverse : ∀ (o : Option (Value × Value)) (systems : Systems),
          (o.toList ++ systems).reverse = systems.reverse ++ o.toList := by
        intro o systems
        cases o <;> simp
      have htail := ih hn hm (by rwa [hsys, hreverse, List.append_assoc])
        (by rwa [hsys', hreverse, List.append_assoc]) hrun hrun'
      cases herrors
      cases herrors'
      rw [hsame, htail]
    · rw [mappingsOf_cons_other hother] at hd hd'
      cases item with
      | dict node => exact absurd rfl (hother node)
      | _ =>
        simp only [checkNodes, pyBind_ok] at herrors herrors'
        obtain ⟨rest, hrun, herrors⟩ := herrors
        obtain ⟨rest', hrun', herrors'⟩ := herrors'
        cases herrors
        cases herrors'
        rw [ih hnames hmacs hd hd' hrun hrun']

end Fresh

/-! ## What the report tells -/

/-- The list of errors, if the validator comes to one. -/
def reported (rt : PyRuntime) (inventoryText : List Char) (data : Mapping) :
    Option (List String) := (validateConfig rt data inventoryText).toOption

/-- The two configurations are reported on in the same way. -/
def SameReport (rt : PyRuntime) (inventoryText : List Char) (data data' : Mapping) : Prop :=
  reported rt inventoryText data = reported rt inventoryText data' ∧
    ∀ errors, buildReport data errors = buildReport data' errors

/-- The validator can read every node, apart from the identities of the Redfish systems. -/
def NodesReadable (data : Mapping) : Prop :=
  ∀ items, declaredNodes data = .list items → ∀ node ∈ mappingsOf items, NodeForm node

def SystemsHashable (data : Mapping) : Prop :=
  ∀ items, declaredNodes data = .list items → ∀ node ∈ mappingsOf items, SystemHashable node

section Told

variable {rt : PyRuntime} {inventoryText : List Char} {exact : Bool} {data data' : Mapping}

theorem reported_eq_some {errors : List String} :
    reported rt inventoryText data = some errors ↔
      validateConfig rt data inventoryText = .ok errors := by
  unfold reported
  cases validateConfig rt data inventoryText <;> simp [Except.toOption]

theorem reported_isSome_iff :
    (∃ errors, reported rt inventoryText data = some errors) ↔
      NodesReadable data ∧ SystemsHashable data := by
  simp only [reported_eq_some, validateConfig_ok_iff]
  constructor
  · exact fun h => ⟨fun items hitems node hnode => (h items hitems node hnode).1,
      fun items hitems node hnode => (h items hitems node hnode).2⟩
  · exact fun h items hitems node hnode => ⟨h.1 items hitems node hnode, h.2 items hitems node hnode⟩

theorem reported_eq_none (h : ¬ (NodesReadable data ∧ SystemsHashable data)) :
    reported rt inventoryText data = none := by
  cases hr : reported rt inventoryText data with
  | none => rfl
  | some errors => exact absurd (reported_isSome_iff.mp ⟨errors, hr⟩) h

theorem NodeLike.form {node node' : Mapping} (h : NodeLike exact node node')
    (hform : NodeForm node) : NodeForm node' := by
  have hdriver := h.entry_eq (show "driver" ≠ "driver_info" by decide)
  refine ⟨?_, ?_, ?_, ?_⟩
  · rw [← h.entry_eq (by decide)]
    exact hform.hostname
  · rw [← hdriver]
    exact hform.driver
  · intro hknown
    rw [← hdriver] at hknown
    rcases h.info with hsame | ⟨_, kvs', _, hkvs', _⟩
    · rw [← hsame]
      exact hform.info hknown
    · exact ⟨kvs', hkvs'⟩
  · rw [← portsOf_congr h]
    exact hform.ports

/-- The two configurations are readable alike. -/
theorem nodesReadable_iff (h : DataLike exact data data') :
    NodesReadable data ↔ NodesReadable data' := by
  rcases h.nodes with hsame | ⟨items, items', hitems, hitems', hlike⟩
  · unfold NodesReadable
    rw [hsame]
  · have hnodes := mappingsOf_like hlike
    simp only [NodesReadable, hitems, hitems', Value.list.injEq, forall_eq']
    constructor
    · intro hread node' hnode'
      obtain ⟨node, hnode, hpair⟩ := exists_like hnodes hnode'
      exact hpair.form (hread node hnode)
    · intro hread node hnode
      have hflip : List.Forall₂ (NodeLike exact) (mappingsOf items') (mappingsOf items) :=
        hnodes.flip.imp fun _ _ hpair => NodeLike.symm hpair
      obtain ⟨node', hnode', hpair⟩ := exists_like hflip hnode
      exact hpair.form (hread node' hnode')

/-- Where both validations come to a list, distinct systems leave no trace in it. -/
theorem validateConfig_fresh (h : DataLike false data data') (hd : SystemsDistinct data)
    (hd' : SystemsDistinct data') {errors errors' : List String}
    (herrors : validateConfig rt data inventoryText = .ok errors)
    (herrors' : validateConfig rt data' inventoryText = .ok errors') : errors = errors' := by
  unfold validateConfig at herrors herrors'
  rw [services_congr h] at herrors
  rcases h.nodes with hsame | ⟨items, items', hitems, hitems', hlike⟩
  · rw [hsame, herrors'] at herrors
    exact (Except.ok.inj herrors).symm
  · simp only [hitems, hitems', pyBind_ok] at herrors herrors'
    obtain ⟨rest, hrun, herrors⟩ := herrors
    obtain ⟨rest', hrun', herrors'⟩ := herrors'
    have hrest : rest = rest' := by
      refine checkNodes_fresh hlike rfl rfl ?_ ?_ hrun hrun'
      · exact hd items hitems
      · exact hd' items' hitems'
    cases herrors
    cases herrors'
    rw [hrest]

end Told

/-- **What the report tells of the credentials.** Of globals that differ only in values of
`driver_info` with the same truth, and not in a Redfish address or system id, the errors and the
report are the same. If those differ as well and no two Redfish nodes share theirs, the same holds
exactly unless just one of the two validations fails on an identity that cannot be hashed. -/
theorem redacted_iff (rt : PyRuntime) (inventoryText : List Char) (data data' : Mapping) :
    (DataLike true data data' → SameReport rt inventoryText data data') ∧
    (DataLike false data data' → SystemsDistinct data → SystemsDistinct data' →
      (SameReport rt inventoryText data data' ↔
        (NodesReadable data → (SystemsHashable data ↔ SystemsHashable data')))) := by
  refine ⟨fun h => ⟨?_, buildReport_congr h⟩, fun h hd hd' => ?_⟩
  · rw [reported, validateConfig_congr h, reported]
  have hreadable := nodesReadable_iff h
  by_cases hread : NodesReadable data
  swap
  · -- neither validation comes to a list
    refine iff_of_true ⟨?_, buildReport_congr h⟩ fun hr => absurd hr hread
    rw [reported_eq_none fun hr => hread hr.1, reported_eq_none fun hr => hread (hreadable.mpr hr.1)]
  by_cases hhash : SystemsHashable data <;> by_cases hhash' : SystemsHashable data'
  · obtain ⟨errors, herrors⟩ : ∃ errors, reported rt inventoryText data = some errors :=
      reported_isSome_iff.mpr ⟨hread, hhash⟩
    obtain ⟨errors', herrors'⟩ : ∃ errors, reported rt inventoryText data' = some errors :=
      reported_isSome_iff.mpr ⟨hreadable.mp hread, hhash'⟩
    refine iff_of_true ⟨?_, buildReport_congr h⟩ fun _ => iff_of_true hhash hhash'
    have hsame := validateConfig_fresh h hd hd' (reported_eq_some.mp herrors)
      (reported_eq_some.mp herrors')
    rw [herrors, herrors', hsame]
  · refine iff_of_false (fun hsame => ?_) fun hiff => hhash' ((hiff hread).mp hhash)
    obtain ⟨errors, herrors⟩ : ∃ errors, reported rt inventoryText data = some errors :=
      reported_isSome_iff.mpr ⟨hread, hhash⟩
    rw [hsame.1] at herrors
    exact hhash' (reported_isSome_iff.mp ⟨errors, herrors⟩).2
  · refine iff_of_false (fun hsame => ?_) fun hiff => hhash ((hiff hread).mpr hhash')
    obtain ⟨errors, herrors⟩ : ∃ errors, reported rt inventoryText data' = some errors :=
      reported_isSome_iff.mpr ⟨hreadable.mp hread, hhash'⟩
    rw [← hsame.1] at herrors
    exact hhash (reported_isSome_iff.mp ⟨errors, herrors⟩).2
  · refine iff_of_true ⟨?_, buildReport_congr h⟩ fun _ => iff_of_false hhash hhash'
    rw [reported_eq_none fun hr => hhash hr.2, reported_eq_none fun hr => hhash' hr.2]

/-- Globals with one Redfish node and this `driver_info`. -/
def oneSystem (info : Mapping) : Mapping :=
  [(.str "powerops_ironic_nodes", .list [.dict [(.str "name", .str "compute-01"),
    (.str "driver", .str "redfish"), (.str "driver_info", .dict info)]])]

theorem oneSystem_like {exact : Bool} {info info' : Mapping}
    (h : InfoLike exact (.dict info) (.dict info')) :
    DataLike exact (oneSystem info) (oneSystem info') := by
  have hnode : NodeLike exact
      [(.str "name", .str "compute-01"), (.str "driver", .str "redfish"),
        (.str "driver_info", .dict info)]
      [(.str "name", .str "compute-01"), (.str "driver", .str "redfish"),
        (.str "driver_info", .dict info')] :=
    .cons ⟨rfl, .inl rfl⟩ (.cons ⟨rfl, .inl rfl⟩
      (.cons ⟨rfl, .inr ⟨Value.isStr_iff.mpr rfl, h⟩⟩ .nil))
  exact .cons ⟨rfl, .inr ⟨Value.isStr_iff.mpr rfl, _, _, rfl, rfl,
    .cons (.inr ⟨_, _, rfl, rfl, hnode⟩) .nil⟩⟩ .nil

theorem redacted_password :
    SameReport PyRuntime.ascii "[compute]\ncompute-01\n".toList
      (oneSystem [(.str "redfish_password", .str "one")])
      (oneSystem [(.str "redfish_password", .str "two")]) := by
  refine (redacted_iff _ _ _ _).1 (oneSystem_like ⟨_, _, rfl, rfl, .cons ⟨rfl, rfl, ?_⟩ .nil⟩)
  intro _ hkey
  exact absurd hkey (by decide)

/-- An address in the form of a list is told apart from a text: the validation fails on it. -/
theorem redacted_unhashable :
    ¬ ∀ (rt : PyRuntime) (inventoryText : List Char) (data data' : Mapping),
      (DataLike true data data' → SameReport rt inventoryText data data') ∧
      (DataLike false data data' → SystemsDistinct data → SystemsDistinct data' →
        SameReport rt inventoryText data data') := by
  intro h
  let text : Value := .str "https://192.0.2.101"
  have hlike : DataLike false (oneSystem [(.str "redfish_address", text)])
      (oneSystem [(.str "redfish_address", .list [text])]) :=
    oneSystem_like ⟨_, _, rfl, rfl, .cons ⟨rfl, rfl, fun he => by cases he⟩ .nil⟩
  have hone : ∀ info : Mapping, SystemsDistinct (oneSystem info) := by
    intro info items hitems
    cases hitems
    cases hid : identityOf [(.str "name", .str "compute-01"), (.str "driver", .str "redfish"),
        (.str "driver_info", .dict info)] <;> simp [mappingsOf, hid]
  have hsame := ((h PyRuntime.ascii "[compute]\ncompute-01\n".toList _ _).2 hlike (hone _)
    (hone _)).1
  have hnone : reported PyRuntime.ascii "[compute]\ncompute-01\n".toList
      (oneSystem [(.str "redfish_address", .list [text])]) = none := rfl
  rw [hnone] at hsame
  have hsome : (reported PyRuntime.ascii "[compute]\ncompute-01\n".toList
      (oneSystem [(.str "redfish_address", text)])).isSome = true := rfl
  rw [hsame] at hsome
  cases hsome

end Cli
end Declared
end KollaPowerOps
