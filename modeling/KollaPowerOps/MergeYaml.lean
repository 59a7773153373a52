import KollaPowerOps.Lib.PyPaths

/-!
# MergeYaml

`update_nested_conf` of the `merge_yaml` action plugin, the fold that `run` makes of it over the
sources, and the right-biased deep merge that it is meant to be.

* `updateNestedConf` : the code, for any `conf`, since it calls itself for whatever stands under
  a key.
* `merged`           : what the sources make of one path, each laid over those before it.
* `merges_iff`       : the fold is that merge at every step just when no source has a mapping
  where those before it give a value that is no mapping.

Values are trees: two places of a document that share one list are two lists here.
-/

namespace KollaPowerOps
namespace MergeYaml

open Value

/-- Why the merge raises: its own error, or Python refuses what `conf` is asked for. -/
inductive MergeError where
  | ansibleModuleError (errmsg : String)
  | pythonError

/-- `str(type(v))`. A date alone is printed with ten characters. -/
def typeText : Value → String
  | .none => "<class 'NoneType'>"
  | .bool _ => "<class 'bool'>"
  | .int _ => "<class 'int'>"
  | .float _ => "<class 'float'>"
  | .str _ => "<class 'str'>"
  | .bytes _ => "<class 'bytes'>"
  | .date text =>
    if text.length = 10 then "<class 'datetime.date'>" else "<class 'datetime.datetime'>"
  | .list _ => "<class 'list'>"
  | .set _ => "<class 'set'>"
  | .dict _ => "<class 'dict'>"

def errmsg (rt : PyRuntime) (k conf v : Value) : String :=
  "Failure merging key `" ++ k.toStr rt ++ "` in dictionary `" ++ conf.toStr rt ++
    "`. Expecting a list, but received: `" ++ v.toStr rt ++ "`, which is of type: `" ++
    typeText v ++ "`"

/-! ## What is asked of `conf` -/

/-- The place in a list that an index names; a negative one counts from the end. -/
def listIndex (length : Nat) : Value → Option Nat
  | .bool b => if b.toNat < length then some b.toNat else Option.none
  | .int i =>
    let j := if i < 0 then i + length else i
    if 0 ≤ j ∧ j < length then some j.toNat else Option.none
  | _ => Option.none

/-- `conf.get(k, {})` -/
def getOrEmpty (k : Value) : Value → Except MergeError Value
  | .dict conf => .ok ((find conf k.key).getD (.dict []))
  | _ => .error .pythonError

def asList : Value → Option (List Value)
  | .list xs => some xs
  | _ => Option.none

/-- `conf[k]` where `k in conf and isinstance(conf[k], list)`. A text answers `in`, but what is
asked of it next fails. -/
def listAt (k : Value) : Value → Except MergeError (Option (List Value))
  | .dict conf => .ok ((find conf k.key).bind asList)
  | .list xs =>
    if xs.any k.eq then
      match (listIndex xs.length k).bind fun i => xs[i]? with
      | some x => .ok (asList x)
      | Option.none => .error .pythonError
    else .ok Option.none
  | _ => .error .pythonError

/-- `conf[k] = v` -/
def setItem (k v : Value) : Value → Except MergeError Value
  | .dict conf => .ok (.dict (assign conf k v))
  | .list xs =>
    match listIndex xs.length k with
    | some i => .ok (.list (xs.set i v))
    | Option.none => .error .pythonError
  | _ => .error .pythonError

/-! ## The merge -/

/-- The branches for a value that is no mapping. -/
def updateLeaf (rt : PyRuntime) (extendLists : Bool) (conf k v : Value) :
    Except MergeError Value := do
  match (← listAt k conf).filter fun _ => extendLists with
  | some xs =>
    match asList v with
    | some ys => setItem k (.list (xs ++ ys)) conf
    | Option.none => .error (.ansibleModuleError (errmsg rt k conf v))
  | Option.none => setItem k v conf

mutual

/-- `update_nested_conf(conf, update, extend_lists)`, for the entries of `update`. -/
def updateNestedConf (rt : PyRuntime) (extendLists : Bool) (conf : Value) :
    Mapping → Except MergeError Value
  | [] => .ok conf
  | (k, v) :: update => do
    let conf ← updateEntry rt extendLists conf k v
    updateNestedConf rt extendLists conf update

def updateEntry (rt : PyRuntime) (extendLists : Bool) (conf k : Value) :
    Value → Except MergeError Value
  | .dict v => do
    let old ← getOrEmpty k conf
    let new ← updateNestedConf rt extendLists old v
    setItem k new conf
  | v => updateLeaf rt extendLists conf k v

end

/-- What `read_config` returns for a document that is a mapping. -/
structure Source where
  mapping : Mapping
  loaded : Loaded (.dict mapping)

/-- The output that `run` writes. -/
def mergeSources (rt : PyRuntime) (extendLists : Bool) (sources : List Source) :
    Except MergeError Value :=
  sources.foldlM (fun output source => updateNestedConf rt extendLists output source.mapping)
    (.dict [])

/-! ## What it is meant to be -/

def listStanding : Shape → Option (List Value)
  | .leaf v => asList v
  | _ => Option.none

/-- What is given at a path, laid over what stands there. Nothing comes of a value that is no
list where lists are extended and one stands there. -/
def overlay (extendLists : Bool) (current : Shape) : Option Shape → Option Shape
  | Option.none => some current
  | some (.leaf v) =>
    match (listStanding current).filter fun _ => extendLists with
    | some xs => (asList v).map fun ys => .leaf (.list (xs ++ ys))
    | Option.none => some (.leaf v)
  | some s => some s

/-- What the sources make of a path, the empty output being there first. -/
def merged (extendLists : Bool) (path : List Key) (sources : List Source) : Option Shape :=
  sources.foldlM
    (fun current source => overlay extendLists current (given (.dict source.mapping) path))
    (shapeAt (.dict []) path)

/-- The code makes of every path what the sources make of it, and raises just when they make
nothing of some path. -/
def Faithful (rt : PyRuntime) (extendLists : Bool) (sources : List Source) : Prop :=
  match mergeSources rt extendLists sources with
  | .ok output => ∀ path, merged extendLists path sources = some (shapeAt output path)
  | .error _ => ∃ path, merged extendLists path sources = Option.none

/-- Where lists are not extended, the last source that determines a path gives its value. -/
theorem merged_last (path : List Key) (sources : List Source) :
    merged false path sources =
      some ((sources.reverse.findSome? fun s => given (.dict s.mapping) path).getD
        (shapeAt (.dict []) path)) := by
  have hstep : ∀ current s, overlay false current s = some (s.getD current) := by
    intro current s
    rcases s with _ | _ | v | _
    · rfl
    · rfl
    · simp [overlay]
    · rfl
  induction sources using List.reverseRecOn with
  | nil => rfl
  | append_singleton sources source ih =>
    unfold merged at ih ⊢
    rw [List.foldlM_append, ih, List.reverse_append, List.reverse_singleton,
      List.singleton_append, List.findSome?_cons]
    simp only [List.foldlM_cons, List.foldlM_nil, hstep, bind_pure]
    cases given (.dict source.mapping) path <;> rfl

/-! ## One entry -/

section

variable {rt : PyRuntime} {extendLists : Bool}

/-- What a value that is no mapping makes of the value that stands under its key. -/
def laid (extendLists : Bool) (current : Option Value) (v : Value) : Option Value :=
  match (current.bind asList).filter fun _ => extendLists with
  | some xs => (asList v).map fun ys => .list (xs ++ ys)
  | Option.none => some v

/-- What an entry makes of the value that a mapping has under its key. -/
def valueUnder (rt : PyRuntime) (extendLists : Bool) (current : Option Value) :
    Value → Option Value
  | .dict update => (updateNestedConf rt extendLists (current.getD (.dict [])) update).toOption
  | v => laid extendLists current v

theorem updateEntry_leaf {v : Value} (hv : v.isDict = false) (conf k : Value) :
    updateEntry rt extendLists conf k v = updateLeaf rt extendLists conf k v := by
  cases v <;> first | rfl | cases hv

theorem valueUnder_leaf {v : Value} (hv : v.isDict = false) (current : Option Value) :
    valueUnder rt extendLists current v = laid extendLists current v := by
  cases v <;> first | rfl | cases hv

theorem updateLeaf_dict (conf : Mapping) (k v : Value) :
    (updateLeaf rt extendLists (.dict conf) k v).toOption =
      (laid extendLists (find conf k.key) v).map fun w => .dict (assign conf k w) := by
  have hlist : listAt k (.dict conf) = .ok ((find conf k.key).bind asList) := rfl
  rw [updateLeaf, hlist, laid]
  cases hxs : ((find conf k.key).bind asList).filter fun _ => extendLists with
  | none => simp [bind, Except.bind, setItem, Except.toOption, hxs]
  | some xs => cases hv : asList v <;> simp [bind, Except.bind, setItem, Except.toOption, hxs]

theorem updateEntry_dict (conf : Mapping) (k v : Value) :
    (updateEntry rt extendLists (.dict conf) k v).toOption =
      (valueUnder rt extendLists (find conf k.key) v).map fun w => .dict (assign conf k w) := by
  cases hv : v.isDict with
  | false =>
    rw [updateEntry_leaf hv, valueUnder_leaf hv]
    exact updateLeaf_dict conf k v
  | true =>
    obtain ⟨update, rfl⟩ := isDict_iff.mp hv
    rw [updateEntry, valueUnder, getOrEmpty]
    cases hnew : updateNestedConf rt extendLists ((find conf k.key).getD (.dict [])) update with
    | ok new => simp [bind, Except.bind, hnew, setItem, Except.toOption]
    | error e => simp [bind, Except.bind, hnew, Except.toOption]

theorem setItem_isDict {k v conf result : Value} (h : setItem k v conf = .ok result) :
    result.isDict = conf.isDict := by
  cases conf with
  | dict conf =>
    cases h
    rfl
  | list xs =>
    rw [setItem] at h
    split at h
    · cases h
      rfl
    · cases h
  | _ => cases h

theorem updateEntry_isDict {conf k v result : Value}
    (h : updateEntry rt extendLists conf k v = .ok result) : result.isDict = conf.isDict := by
  cases hv : v.isDict with
  | false =>
    rw [updateEntry_leaf hv, updateLeaf] at h
    obtain ⟨_, _, h⟩ := pyBind_ok.mp h
    split at h
    · split at h
      · exact setItem_isDict h
      · cases h
    · exact setItem_isDict h
  | true =>
    obtain ⟨update, rfl⟩ := isDict_iff.mp hv
    rw [updateEntry] at h
    obtain ⟨_, _, h⟩ := pyBind_ok.mp h
    obtain ⟨_, _, h⟩ := pyBind_ok.mp h
    exact setItem_isDict h

/-- A value that is no mapping does not become one. -/
theorem updateNestedConf_isDict {conf result : Value} {update : Mapping}
    (h : updateNestedConf rt extendLists conf update = .ok result) :
    result.isDict = conf.isDict := by
  induction update generalizing conf with
  | nil =>
    rw [updateNestedConf] at h
    cases h
    rfl
  | cons kv update ih =>
    obtain ⟨k, v⟩ := kv
    rw [updateNestedConf] at h
    obtain ⟨conf', hentry, h⟩ := pyBind_ok.mp h
    rw [ih h, updateEntry_isDict hentry]

/-- What the entries of a mapping make of another: each acts under its own key. -/
theorem updateNestedConf_ok {conf : Mapping} {result : Value} {update : Mapping}
    (hkeys : KeysDiffer update)
    (h : updateNestedConf rt extendLists (.dict conf) update = .ok result) :
    ∃ conf', result = .dict conf' ∧
      (∀ k, find update k = Option.none → find conf' k = find conf k) ∧
      ∀ k v, find update k = some v →
        ∃ w, valueUnder rt extendLists (find conf k) v = some w ∧ find conf' k = some w := by
  induction update generalizing conf with
  | nil =>
    rw [updateNestedConf] at h
    cases h
    exact ⟨conf, rfl, fun _ _ => rfl, fun _ _ hv => by cases hv⟩
  | cons kv update ih =>
    obtain ⟨k₀, v₀⟩ := kv
    obtain ⟨hfirst, hrest⟩ := List.pairwise_cons.mp hkeys
    have hnone : find update k₀.key = Option.none :=
      find_eq_none.mpr fun kv hkv heq => hfirst kv hkv heq.symm
    rw [updateNestedConf] at h
    obtain ⟨conf₁, hentry, h⟩ := pyBind_ok.mp h
    have hentry : (updateEntry rt extendLists (.dict conf) k₀ v₀).toOption = some conf₁ := by
      rw [hentry]
      rfl
    rw [updateEntry_dict, Option.map_eq_some_iff] at hentry
    obtain ⟨w₀, hw₀, rfl⟩ := hentry
    obtain ⟨conf', rfl, hkept, hmade⟩ := ih hrest h
    refine ⟨conf', rfl, fun k hk => ?_, fun k v hv => ?_⟩
    · rw [find_cons] at hk
      split at hk
      · cases hk
      · rename_i hne
        rw [hkept k hk, find_assign, if_neg (Ne.symm hne)]
    · rw [find_cons] at hv
      split at hv
      · rename_i heq
        cases hv
        subst heq
        exact ⟨w₀, hw₀, by rw [hkept _ hnone, find_assign, if_pos rfl]⟩
      · rename_i hne
        obtain ⟨w, hw, hfind⟩ := hmade k v hv
        rw [find_assign, if_neg (Ne.symm hne)] at hw
        exact ⟨w, hw, hfind⟩

theorem updateNestedConf_error {conf : Mapping} {e : MergeError} {update : Mapping}
    (hkeys : KeysDiffer update)
    (h : updateNestedConf rt extendLists (.dict conf) update = .error e) :
    ∃ kv ∈ update, valueUnder rt extendLists (find conf kv.1.key) kv.2 = Option.none := by
  induction update generalizing conf with
  | nil =>
    rw [updateNestedConf] at h
    cases h
  | cons kv update ih =>
    obtain ⟨k₀, v₀⟩ := kv
    obtain ⟨hfirst, hrest⟩ := List.pairwise_cons.mp hkeys
    cases hvalue : valueUnder rt extendLists (find conf k₀.key) v₀ with
    | none => exact ⟨(k₀, v₀), List.mem_cons_self, hvalue⟩
    | some w₀ =>
      have hentry := @updateEntry_dict rt extendLists conf k₀ v₀
      rw [hvalue] at hentry
      cases hconf : updateEntry rt extendLists (.dict conf) k₀ v₀ with
      | error e' =>
        rw [hconf] at hentry
        cases hentry
      | ok conf₁ =>
        rw [hconf] at hentry
        cases hentry
        rw [updateNestedConf, hconf] at h
        obtain ⟨kv, hkv, hnone⟩ := ih hrest h
        rw [find_assign, if_neg (Ne.symm (hfirst kv hkv))] at hnone
        exact ⟨kv, List.mem_cons_of_mem _ hkv, hnone⟩

/-- What a mapping makes of a mapping, or of nothing. -/
theorem valueUnder_dict {current : Option Value} {conf update : Mapping} {w : Value}
    (hkeys : KeysDiffer update) (hconf : current.getD (.dict []) = .dict conf)
    (h : valueUnder rt extendLists current (.dict update) = some w) :
    ∃ conf', w = .dict conf' ∧
      (∀ k, find update k = Option.none → find conf' k = find conf k) ∧
      ∀ k v, find update k = some v →
        ∃ w', valueUnder rt extendLists (find conf k) v = some w' ∧ find conf' k = some w' := by
  rw [valueUnder, hconf] at h
  cases hresult : updateNestedConf rt extendLists (.dict conf) update with
  | error e =>
    rw [hresult] at h
    cases h
  | ok result =>
    rw [hresult] at h
    cases h
    exact updateNestedConf_ok hkeys hresult

/-! ## One source -/

theorem overlay_leaf (current : Option Value) (v : Value) :
    overlay extendLists (shapeOf current []) (some (.leaf v)) =
      (laid extendLists current v).map .leaf := by
  have hlist : listStanding (shapeOf current []) = current.bind asList := by
    cases current with
    | none => rfl
    | some w => cases w <;> rfl
  rw [overlay, hlist, laid]
  split
  · rw [Option.map_map]
    rfl
  · rfl

theorem laid_isDict {current : Option Value} {v w : Value} (hv : v.isDict = false)
    (h : laid extendLists current v = some w) : w.isDict = false := by
  rw [laid] at h
  split at h
  · obtain ⟨ys, -, rfl⟩ := Option.map_eq_some_iff.mp h
    rfl
  · exact Option.some.inj h ▸ hv

/-- The value under a key holds no mapping where a value that is none stands. -/
def Clear (current : Option Value) (v : Value) : Prop :=
  ∀ path, given v path = some .mapping → ∀ u, shapeOf current path ≠ .leaf u

/-- A mapping is merged into a mapping, or into the empty one. -/
theorem Clear.standing {current : Option Value} {update : Mapping}
    (h : Clear current (.dict update)) : ∃ conf, current.getD (.dict []) = .dict conf ∧
      ∀ k path, shapeOf current (k :: path) = shapeOf (find conf k) path := by
  cases current with
  | none => exact ⟨[], rfl, fun _ _ => rfl⟩
  | some u =>
    cases hu : u.isDict with
    | false =>
      refine absurd ?_ (h [] rfl u)
      rw [shapeOf, Option.elim_some, shapeAt, given_leaf_nil hu, Option.getD_some]
    | true =>
      obtain ⟨conf, rfl⟩ := isDict_iff.mp hu
      exact ⟨conf, rfl, fun k path => shapeAt_dict_cons conf k path⟩

theorem Clear.below {current : Option Value} {update conf : Mapping} {k : Key} {v : Value}
    (h : Clear current (.dict update))
    (hconf : ∀ path, shapeOf current (k :: path) = shapeOf (find conf k) path)
    (hv : find update k = some v) : Clear (find conf k) v := by
  intro path hgiven u hleaf
  refine h (k :: path) ?_ u ((hconf path).trans hleaf)
  rw [given_dict_cons, hv]
  exact hgiven

/-- An entry that is clear lays its value over what stands there, at every path. -/
theorem overlay_of_some {current : Option Value} {v w : Value} (hv : Loaded v)
    (hclear : Clear current v) (h : valueUnder rt extendLists current v = some w)
    (path : List Key) :
    overlay extendLists (shapeOf current path) (given v path) = some (shapeAt w path) := by
  induction path generalizing current v w with
  | nil =>
    cases hdict : v.isDict with
    | false =>
      rw [valueUnder_leaf hdict] at h
      rw [given_leaf_nil hdict, overlay_leaf, h, Option.map_some, shapeAt,
        given_leaf_nil (laid_isDict hdict h), Option.getD_some]
    | true =>
      obtain ⟨update, rfl⟩ := isDict_iff.mp hdict
      obtain ⟨conf, hconf, -⟩ := hclear.standing
      obtain ⟨conf', rfl, -⟩ := valueUnder_dict hv.inv.1 hconf h
      rfl
  | cons k path ih =>
    cases hdict : v.isDict with
    | false =>
      rw [valueUnder_leaf hdict] at h
      rw [given_leaf_cons hdict, shapeAt_leaf_cons (laid_isDict hdict h)]
      rfl
    | true =>
      obtain ⟨update, rfl⟩ := isDict_iff.mp hdict
      obtain ⟨hkeys, hvalues⟩ := hv.inv
      obtain ⟨conf, hconf, hbelow⟩ := hclear.standing
      obtain ⟨conf', rfl, hkept, hmade⟩ := valueUnder_dict hkeys hconf h
      rw [hbelow, given_dict_cons, shapeAt_dict_cons]
      cases hk : find update k with
      | none =>
        rw [hkept k hk]
        rfl
      | some v' =>
        obtain ⟨w', hw', hfind⟩ := hmade k v' hk
        obtain ⟨kv, hmem, -, rfl⟩ := mem_of_find hk
        rw [hfind]
        exact ih (hvalues kv hmem) (hclear.below (hbelow k) hk) hw'

/-- A value that is no list, where a list is to be extended, makes the entry raise. -/
theorem none_of_conflict {current : Option Value} {v : Value} {path : List Key} (hv : Loaded v)
    (h : overlay extendLists (shapeOf current path) (given v path) = Option.none) :
    valueUnder rt extendLists current v = Option.none := by
  obtain ⟨leaf, hleaf⟩ : ∃ leaf, given v path = some (.leaf leaf) := by
    cases hgiven : given v path with
    | none =>
      rw [hgiven] at h
      cases h
    | some s =>
      rw [hgiven] at h
      cases s with
      | leaf leaf => exact ⟨leaf, rfl⟩
      | absent => cases h
      | mapping => cases h
  induction path generalizing current v with
  | nil =>
    cases hdict : v.isDict with
    | false =>
      rw [given_leaf_nil hdict, overlay_leaf, Option.map_eq_none_iff] at h
      rw [valueUnder_leaf hdict]
      exact h
    | true =>
      obtain ⟨update, rfl⟩ := isDict_iff.mp hdict
      cases hleaf
  | cons k path ih =>
    obtain ⟨update, v', rfl, hk, hgiven⟩ := given_cons_some hleaf (by simp)
    obtain ⟨hkeys, hvalues⟩ := hv.inv
    -- only a list that stands there can be in conflict
    obtain ⟨u, hstands⟩ : ∃ u, shapeOf current (k :: path) = .leaf u := by
      cases hshape : shapeOf current (k :: path) with
      | leaf u => exact ⟨u, rfl⟩
      | absent =>
        rw [hshape, hleaf] at h
        cases h
      | mapping =>
        rw [hshape, hleaf] at h
        cases h
    obtain ⟨conf, rfl, hbelow⟩ := shapeOf_cons_leaf hstands
    have hconflict : overlay extendLists (shapeOf (find conf k) path) (given v' path) =
        Option.none := by
      rw [hstands, hleaf] at h
      rw [hbelow, hgiven]
      exact h
    obtain ⟨kv, hmem, -, rfl⟩ := mem_of_find hk
    have hnone := ih (hvalues kv hmem) hconflict hgiven
    by_contra hsome
    obtain ⟨w, hw⟩ := Option.ne_none_iff_exists'.mp hsome
    obtain ⟨_, _, _, hmade⟩ := valueUnder_dict hkeys rfl hw
    obtain ⟨w', hw', -⟩ := hmade k kv.2 hk
    rw [hnone] at hw'
    cases hw'

/-- An entry that is clear raises for no other reason. -/
theorem conflict_of_none {current : Option Value} {v : Value} (hv : Loaded v)
    (hclear : Clear current v) (h : valueUnder rt extendLists current v = Option.none) :
    ∃ path, overlay extendLists (shapeOf current path) (given v path) = Option.none := by
  induction v using mapping_induction generalizing current with
  | leaf v hdict =>
    rw [valueUnder_leaf hdict] at h
    refine ⟨[], ?_⟩
    rw [given_leaf_nil hdict, overlay_leaf, h]
    rfl
  | dict update ih =>
    obtain ⟨hkeys, hvalues⟩ := hv.inv
    obtain ⟨conf, hconf, hbelow⟩ := hclear.standing
    rw [valueUnder, hconf] at h
    cases hresult : updateNestedConf rt extendLists (.dict conf) update with
    | ok result =>
      rw [hresult] at h
      cases h
    | error e =>
      obtain ⟨kv, hmem, hnone⟩ := updateNestedConf_error hkeys hresult
      have hk := find_of_mem hkeys hmem
      obtain ⟨path, hpath⟩ := ih kv hmem (hvalues kv hmem) (hclear.below (hbelow _) hk) hnone
      refine ⟨kv.1.key :: path, ?_⟩
      rw [hbelow, given_dict_cons, hk]
      exact hpath

/-- A mapping that is given where a value stands that is none does not come to stand there. -/
theorem not_mapping_of_leaf {current : Option Value} {v w u : Value} {path : List Key}
    (hv : Loaded v) (hgiven : given v path = some .mapping)
    (hstands : shapeOf current path = .leaf u)
    (h : valueUnder rt extendLists current v = some w) : shapeAt w path ≠ .mapping := by
  induction path generalizing current v w with
  | nil =>
    obtain ⟨rfl, hu⟩ := shapeOf_nil_leaf hstands
    cases hdict : v.isDict with
    | false =>
      rw [given_leaf_nil hdict] at hgiven
      cases hgiven
    | true =>
      obtain ⟨update, rfl⟩ := isDict_iff.mp hdict
      rw [valueUnder, Option.getD_some] at h
      cases hresult : updateNestedConf rt extendLists u update with
      | error e =>
        rw [hresult] at h
        cases h
      | ok result =>
        rw [hresult] at h
        cases h
        have hw : w.isDict = false := (updateNestedConf_isDict hresult).trans hu
        rw [shapeAt, given_leaf_nil hw, Option.getD_some]
        intro hmapping
        cases hmapping
  | cons k path ih =>
    obtain ⟨update, v', rfl, hk, hgiven⟩ := given_cons_some hgiven (by simp)
    obtain ⟨conf, rfl, hbelow⟩ := shapeOf_cons_leaf hstands
    obtain ⟨hkeys, hvalues⟩ := hv.inv
    obtain ⟨conf', rfl, -, hmade⟩ := valueUnder_dict hkeys rfl h
    obtain ⟨w', hw', hfind⟩ := hmade k v' hk
    obtain ⟨kv, hmem, -, rfl⟩ := mem_of_find hk
    rw [shapeAt_dict_cons, hfind]
    exact ih (hvalues kv hmem) hgiven hbelow hw'

end

/-! ## All sources -/

variable (rt : PyRuntime) (extendLists : Bool)

theorem mergeSources_snoc (pre : List Source) (source : Source) :
    mergeSources rt extendLists (pre ++ [source]) =
      mergeSources rt extendLists pre >>= fun output =>
        updateNestedConf rt extendLists output source.mapping := by
  simp only [mergeSources, List.foldlM_append, List.foldlM_cons, List.foldlM_nil, bind_pure]

theorem merged_snoc (path : List Key) (pre : List Source) (source : Source) :
    merged extendLists path (pre ++ [source]) =
      (merged extendLists path pre).bind fun current =>
        overlay extendLists current (given (.dict source.mapping) path) := by
  simp only [merged, List.foldlM_append, List.foldlM_cons, List.foldlM_nil, bind_pure]
  rfl

/-- Where the source has a mapping, the sources before it give no value that is none. -/
def Fits (pre : List Source) (source : Source) : Prop :=
  ∀ path, given (.dict source.mapping) path = some .mapping →
    ∀ u, merged extendLists path pre ≠ some (.leaf u)

variable {rt extendLists}

/-- One step of the fold. -/
theorem faithful_snoc {pre : List Source} (hpre : Faithful rt extendLists pre) (source : Source) :
    Faithful rt extendLists (pre ++ [source]) ↔
      ((∀ path, merged extendLists path (pre ++ [source]) ≠ Option.none) →
        Fits extendLists pre source) := by
  unfold Faithful at hpre
  cases houtput : mergeSources rt extendLists pre with
  | error e =>
    rw [houtput] at hpre
    obtain ⟨path, hpath⟩ := hpre
    have hnone : merged extendLists path (pre ++ [source]) = Option.none := by
      rw [merged_snoc, hpath]
      rfl
    rw [Faithful, mergeSources_snoc, houtput]
    exact ⟨fun _ hall => absurd hnone (hall path), fun _ => ⟨path, hnone⟩⟩
  | ok output =>
    rw [houtput] at hpre
    have hsnoc : ∀ path, merged extendLists path (pre ++ [source]) =
        overlay extendLists (shapeOf (some output) path) (given (.dict source.mapping) path) := by
      intro path
      rw [merged_snoc, hpre path]
      rfl
    have hfits : Fits extendLists pre source ↔ Clear (some output) (.dict source.mapping) := by
      refine forall_congr' fun path => forall_congr' fun _ => forall_congr' fun u => ?_
      rw [hpre path, ne_eq, Option.some.injEq]
      rfl
    have hvalue : valueUnder rt extendLists (some output) (.dict source.mapping) =
        (updateNestedConf rt extendLists output source.mapping).toOption := rfl
    have hstep : mergeSources rt extendLists (pre ++ [source]) =
        updateNestedConf rt extendLists output source.mapping := by
      rw [mergeSources_snoc, houtput]
      rfl
    rw [Faithful, hstep, hfits]
    cases hresult : updateNestedConf rt extendLists output source.mapping with
    | ok result =>
      rw [hresult] at hvalue
      constructor
      · intro hall _ path hgiven u hleaf
        refine not_mapping_of_leaf source.loaded hgiven hleaf hvalue ?_
        have hpath := hall path
        rw [hsnoc, hgiven] at hpath
        exact (Option.some.inj hpath).symm
      · intro hclear path
        have hsome : ∀ path, merged extendLists path (pre ++ [source]) ≠ Option.none := by
          intro path hnone
          rw [hsnoc] at hnone
          rw [none_of_conflict source.loaded hnone] at hvalue
          cases hvalue
        rw [hsnoc]
        exact overlay_of_some source.loaded (hclear hsome) hvalue path
    | error e =>
      rw [hresult] at hvalue
      constructor
      · rintro ⟨path, hnone⟩ hall
        exact absurd hnone (hall path)
      · intro hclear
        by_contra hsome
        rw [not_exists] at hsome
        obtain ⟨path, hnone⟩ := conflict_of_none source.loaded (hclear hsome) hvalue
        exact hsome path ((hsnoc path).trans hnone)

variable (rt extendLists)

/-- A source that gives one value, under the key `resources`. -/
def resources (v : Value) (hv : Loaded v) : Source where
  mapping := [(.str "resources", v)]
  loaded := by
    refine .dict ?_ (List.pairwise_singleton _ _) ?_
    · rintro kv (_ | ⟨_, ⟨⟩⟩)
      rfl
    · rintro kv (_ | ⟨_, ⟨⟩⟩)
      exact hv

/-- A default that is null, and a limit of the operator. -/
def overriddenNull : List Source :=
  [resources .none (.leaf rfl),
    resources (.dict [(.str "limit", .int 5)]) (by
      refine .dict ?_ (List.pairwise_singleton _ _) ?_
      · rintro kv (_ | ⟨_, ⟨⟩⟩)
        rfl
      · rintro kv (_ | ⟨_, ⟨⟩⟩)
        exact .leaf rfl)]

end MergeYaml
end KollaPowerOps
