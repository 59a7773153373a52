import KollaPowerOps.Lib.PyValue

/-!
# Lib.PyPaths

Nested mappings read along paths of keys.

A mapping tries identity before `==` when it looks a key up, and every NaN that a loader builds is
one object. So the keys of this module are told apart by `Key`, where NaN is a key like any other.

* `find`, `assign` : `d.get(key)` and `d[key] = value`.
* `given`          : what a value determines at a path, if it determines it at all.
* `Loaded`         : a value as a loader builds it, with no key twice in a mapping.
-/

namespace KollaPowerOps

/-- What tells the keys of one mapping apart: numbers by their value, other scalars by
themselves. -/
inductive Key where
  | none
  | number (q : Rat)
  | float (text : String)
  | str (s : String)
  | bytes (b : List UInt8)
  | date (text : String)
  | container
  deriving DecidableEq

namespace Value

def key (v : Value) : Key :=
  match v.num? with
  | some q => .number q
  | Option.none =>
    match v with
    | .float x => .float x.text
    | .str s => .str s
    | .bytes b => .bytes b
    | .date text => .date text
    | .list _ | .set _ | .dict _ => .container
    | _ => .none

def isDict : Value → Bool
  | .dict _ => true
  | _ => false

theorem isDict_iff {v : Value} : v.isDict = true ↔ ∃ kvs, v = .dict kvs := by
  cases v <;> simp [isDict]

def find (kvs : Mapping) (k : Key) : Option Value :=
  (kvs.find? fun kv => kv.1.key = k).map Prod.snd

/-- `d[key] = value`: a key that stands there keeps its place and its spelling. -/
def assign (kvs : Mapping) (k v : Value) : Mapping :=
  if kvs.any fun kv => kv.1.key = k.key then
    kvs.map fun kv => if kv.1.key = k.key then (kv.1, v) else kv
  else kvs ++ [(k, v)]

/-- No key stands twice. -/
def KeysDiffer (kvs : Mapping) : Prop := kvs.Pairwise fun a b => a.1.key ≠ b.1.key

/-- A value that a loader can build. -/
inductive Loaded : Value → Prop where
  | leaf {v : Value} : v.isDict = false → Loaded v
  | dict {kvs : Mapping} : (∀ kv ∈ kvs, kv.1.hashable = true) → KeysDiffer kvs →
      (∀ kv ∈ kvs, Loaded kv.2) → Loaded (.dict kvs)

theorem Loaded.inv {kvs : Mapping} (h : Loaded (.dict kvs)) :
    KeysDiffer kvs ∧ ∀ kv ∈ kvs, Loaded kv.2 := by
  cases h with
  | leaf hv => cases hv
  | dict _ hkeys hvalues => exact ⟨hkeys, hvalues⟩

/-! ## Lookups -/

theorem find_cons (kv : Value × Value) (kvs : Mapping) (k : Key) :
    find (kv :: kvs) k = if kv.1.key = k then some kv.2 else find kvs k := by
  rw [find, List.find?_cons]
  by_cases hk : kv.1.key = k
  · rw [if_pos hk, decide_eq_true hk]
    rfl
  · rw [if_neg hk, decide_eq_false hk]
    rfl

theorem find_eq_none {kvs : Mapping} {k : Key} :
    find kvs k = Option.none ↔ ∀ kv ∈ kvs, kv.1.key ≠ k := by
  rw [find, Option.map_eq_none_iff, List.find?_eq_none]
  simp only [decide_eq_true_eq, ne_eq]

theorem mem_of_find {kvs : Mapping} {k : Key} {v : Value} (h : find kvs k = some v) :
    ∃ kv ∈ kvs, kv.1.key = k ∧ kv.2 = v := by
  obtain ⟨kv, hfind, hv⟩ := Option.map_eq_some_iff.mp h
  have hk : kv.1.key = k := by simpa using List.find?_some hfind
  exact ⟨kv, List.mem_of_find?_eq_some hfind, hk, hv⟩

theorem find_of_mem {kvs : Mapping} (hkeys : KeysDiffer kvs) {kv : Value × Value} (h : kv ∈ kvs) :
    find kvs kv.1.key = some kv.2 := by
  induction kvs with
  | nil => cases h
  | cons first kvs ih =>
    obtain ⟨hfirst, hrest⟩ := List.pairwise_cons.mp hkeys
    rw [find_cons]
    rcases List.mem_cons.mp h with rfl | h
    · exact if_pos rfl
    · rw [if_neg (hfirst kv h)]
      exact ih hrest h

theorem find_replace (kvs : Mapping) (k : Key) (v : Value) (other : Key) :
    find (kvs.map fun kv => if kv.1.key = k then (kv.1, v) else kv) other =
      if other = k then (find kvs k).map fun _ => v else find kvs other := by
  induction kvs with
  | nil => split <;> rfl
  | cons kv kvs ih =>
    have hkey : (if kv.1.key = k then (kv.1, v) else kv).1 = kv.1 := by split <;> rfl
    rw [List.map_cons, find_cons, find_cons, find_cons, hkey, ih]
    by_cases hk : kv.1.key = k
    · grind
    · grind

/-- What one assignment does to every lookup. -/
theorem find_assign (kvs : Mapping) (k v : Value) (other : Key) :
    find (assign kvs k v) other = if other = k.key then some v else find kvs other := by
  unfold assign
  split
  · rename_i hany
    rw [find_replace]
    have hsome : find kvs k.key ≠ Option.none := by
      rw [ne_eq, find_eq_none]
      intro hnone
      obtain ⟨kv, hmem, hk⟩ := List.any_eq_true.mp hany
      exact hnone kv hmem (of_decide_eq_true hk)
    obtain ⟨w, hw⟩ := Option.ne_none_iff_exists'.mp hsome
    rw [hw]
    rfl
  · rename_i hnone
    have hnone : find kvs k.key = Option.none := by
      rw [find_eq_none]
      intro kv hkv hk
      exact hnone (List.any_eq_true.mpr ⟨kv, hkv, decide_eq_true hk⟩)
    rw [find, List.find?_append, Option.map_or, ← find, ← find, find_cons]
    by_cases hother : other = k.key
    · rw [hother, hnone, if_pos rfl, if_pos rfl]
      rfl
    · rw [if_neg hother, if_neg (Ne.symm hother)]
      cases find kvs other <;> rfl

/-! ## Paths -/

/-- What stands at a path: nothing, a value that is no mapping, or a mapping. -/
inductive Shape where
  | absent
  | leaf (v : Value)
  | mapping

/-- What the value determines at a path. A mapping leaves the keys that it does not have to
others; a value that is no mapping says that nothing stands below it. -/
def given : Value → List Key → Option Shape
  | .dict _, [] => some .mapping
  | v, [] => some (.leaf v)
  | .dict kvs, k :: path =>
    match find kvs k with
    | some v => given v path
    | Option.none => Option.none
  | _, _ :: _ => some .absent

def shapeAt (v : Value) (path : List Key) : Shape := (given v path).getD .absent

/-- What stands at a path of what may be missing. -/
def shapeOf (v : Option Value) (path : List Key) : Shape := v.elim .absent (shapeAt · path)

theorem given_leaf_nil {v : Value} (hv : v.isDict = false) : given v [] = some (.leaf v) := by
  cases v <;> first | rfl | cases hv

theorem given_leaf_cons {v : Value} (hv : v.isDict = false) (k : Key) (path : List Key) :
    given v (k :: path) = some .absent := by
  cases v <;> first | rfl | cases hv

theorem given_dict_cons (kvs : Mapping) (k : Key) (path : List Key) :
    given (.dict kvs) (k :: path) = (find kvs k).bind (given · path) := by
  rw [given]
  cases find kvs k <;> rfl

theorem shapeAt_leaf_cons {v : Value} (hv : v.isDict = false) (k : Key) (path : List Key) :
    shapeAt v (k :: path) = .absent := by
  rw [shapeAt, given_leaf_cons hv, Option.getD_some]

theorem shapeAt_dict_cons (kvs : Mapping) (k : Key) (path : List Key) :
    shapeAt (.dict kvs) (k :: path) = shapeOf (find kvs k) path := by
  rw [shapeAt, given_dict_cons]
  cases find kvs k <;> rfl

/-- Below a mapping that is given, a value stands where the mapping has its key. -/
theorem given_cons_some {v : Value} {k : Key} {path : List Key} {s : Shape}
    (h : given v (k :: path) = some s) (hs : s ≠ .absent) :
    ∃ kvs w, v = .dict kvs ∧ find kvs k = some w ∧ given w path = some s := by
  cases hv : v.isDict with
  | false =>
    rw [given_leaf_cons hv] at h
    exact absurd (Option.some.inj h).symm hs
  | true =>
    obtain ⟨kvs, rfl⟩ := isDict_iff.mp hv
    rw [given_dict_cons, Option.bind_eq_some_iff] at h
    obtain ⟨w, hw, hgiven⟩ := h
    exact ⟨kvs, w, rfl, hw, hgiven⟩

theorem shapeOf_cons_leaf {v : Option Value} {k : Key} {path : List Key} {u : Value}
    (h : shapeOf v (k :: path) = .leaf u) :
    ∃ kvs, v = some (.dict kvs) ∧ shapeOf (find kvs k) path = .leaf u := by
  cases v with
  | none => cases h
  | some v =>
    cases hv : v.isDict with
    | false =>
      have habsent : shapeOf (some v) (k :: path) = .absent := shapeAt_leaf_cons hv k path
      rw [habsent] at h
      cases h
    | true =>
      obtain ⟨kvs, rfl⟩ := isDict_iff.mp hv
      have hbelow : shapeOf (some (.dict kvs)) (k :: path) = shapeOf (find kvs k) path :=
        shapeAt_dict_cons kvs k path
      exact ⟨kvs, rfl, hbelow ▸ h⟩

theorem shapeOf_nil_leaf {v : Option Value} {u : Value} (h : shapeOf v [] = .leaf u) :
    v = some u ∧ u.isDict = false := by
  cases v with
  | none => cases h
  | some v =>
    cases hv : v.isDict with
    | false =>
      have hleaf : shapeOf (some v) [] = .leaf v := by
        rw [shapeOf, Option.elim_some, shapeAt, given_leaf_nil hv, Option.getD_some]
      rw [hleaf] at h
      cases h
      exact ⟨rfl, hv⟩
    | true =>
      obtain ⟨kvs, rfl⟩ := isDict_iff.mp hv
      cases h

/-- Induction along the mappings of a value. -/
theorem mapping_induction {motive : Value → Prop}
    (leaf : ∀ v : Value, v.isDict = false → motive v)
    (dict : ∀ kvs : Mapping, (∀ kv ∈ kvs, motive kv.2) → motive (.dict kvs)) (v : Value) :
    motive v := by
  cases hv : v.isDict with
  | false => exact leaf v hv
  | true =>
    cases v with
    | dict kvs => exact dict kvs fun kv hkv => mapping_induction leaf dict kv.2
    | _ => cases hv
termination_by sizeOf v
decreasing_by
  have hlt : sizeOf kv < sizeOf kvs := List.sizeOf_lt_of_mem hkv
  obtain ⟨key, w⟩ := kv
  simp_wf
  simp only [Prod.mk.sizeOf_spec] at hlt
  omega

end Value
end KollaPowerOps
