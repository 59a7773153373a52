import Mathlib.Data.List.Nodup
import KollaPowerOps.Lib.PyValue

/-!
# Lib.PyMapping

Laws of Python mappings: keys are compared with `==`, which on scalars is symmetric and
transitive; `update` writes the entries it is given and leaves the entries of other keys.

* `DistinctKeys` : no key stands twice, as in every mapping that Python builds.
* `WellFormed`   : a value all of whose mappings are so.
* `Readable`     : under each key stands a value that equals it.
* `update_mem`, `update_filter` : what an update writes, and what it leaves.
-/

namespace KollaPowerOps
namespace Value

/-! ## Comparison of scalars -/

/-- What `==` compares of a scalar that is no number. A NaN and a container have nothing to
compare. -/
def plain? : Value → Option Value
  | .none => some .none
  | .float x => if x.text = "nan" then Option.none else some (.float ⟨Option.none, x.text⟩)
  | .str s => some (.str s)
  | .bytes b => some (.bytes b)
  | .date text => some (.date text)
  | _ => Option.none

/-- What `==` compares of a scalar. -/
def scalar? (v : Value) : Option (Rat ⊕ Value) :=
  match v.num? with
  | some q => some (.inl q)
  | Option.none => v.plain?.map .inr

theorem scalarEq_iff {a b : Value} :
    scalarEq a b = true ↔ ∃ c, scalar? a = some c ∧ scalar? b = some c := by
  unfold scalarEq scalar?
  cases ha : a.num? with
  | some x =>
    cases hb : b.num? with
    | some y =>
      simp only [beq_iff_eq, Option.some.injEq]
      exact ⟨fun h => ⟨.inl y, congrArg Sum.inl h, rfl⟩,
        fun ⟨_, hx, hy⟩ => Sum.inl.inj (hx.trans hy.symm)⟩
    | none => simp
  | none =>
    cases hb : b.num? with
    | some y => simp
    | none =>
      cases a <;> cases b <;> simp_all [num?, plain?]
      all_goals grind

theorem scalarEq_symm {a b : Value} (h : scalarEq a b = true) : scalarEq b a = true := by
  obtain ⟨c, ha, hb⟩ := scalarEq_iff.mp h
  exact scalarEq_iff.mpr ⟨c, hb, ha⟩

theorem scalarEq_trans {a b c : Value} (h : scalarEq a b = true) (h' : scalarEq b c = true) :
    scalarEq a c = true := by
  obtain ⟨k, ha, hb⟩ := scalarEq_iff.mp h
  obtain ⟨k', hb', hc⟩ := scalarEq_iff.mp h'
  have hsame : k' = k := Option.some.inj (hb'.symm.trans hb)
  exact scalarEq_iff.mpr ⟨k, ha, hsame ▸ hc⟩

/-- Equal keys find the same. -/
theorem scalarEq_congr {a b : Value} (h : scalarEq a b = true) (c : Value) :
    scalarEq a c = scalarEq b c := by
  rw [Bool.eq_iff_iff]
  exact ⟨scalarEq_trans (scalarEq_symm h), scalarEq_trans h⟩

theorem scalarEq_str (s : String) (v : Value) : scalarEq (.str s) v = v.isStr s := by
  cases v with
  | str t => simp [scalarEq, num?, isStr, eq_comm]
  | float x => cases hx : x.value <;> simp [scalarEq, num?, isStr, hx]
  | _ => simp [scalarEq, num?, isStr]

/-! ## Mappings -/

/-- No key stands twice. -/
def DistinctKeys (kvs : Mapping) : Prop := kvs.Pairwise fun a b => scalarEq a.1 b.1 = false

/-- A value that Python can build: no mapping in it has a key twice. -/
inductive WellFormed : Value → Prop where
  | scalar {v : Value} : v.hashable = true → WellFormed v
  | list {xs : List Value} : (∀ x ∈ xs, WellFormed x) → WellFormed (.list xs)
  | set {xs : List Value} : (∀ x ∈ xs, WellFormed x) → WellFormed (.set xs)
  | dict {kvs : Mapping} : DistinctKeys kvs → (∀ kv ∈ kvs, WellFormed kv.2) →
      WellFormed (.dict kvs)

theorem WellFormed.dict_inv {kvs : Mapping} (h : WellFormed (.dict kvs)) :
    DistinctKeys kvs ∧ ∀ kv ∈ kvs, WellFormed kv.2 := by
  cases h with
  | scalar hv => cases hv
  | dict hkeys hvalues => exact ⟨hkeys, hvalues⟩

theorem WellFormed.entry {kvs : Mapping} (h : WellFormed (.dict kvs)) (key : String) :
    WellFormed (entry kvs key) := by
  unfold Value.entry lookup
  cases hfind : kvs.find? fun kv => kv.1.isStr key with
  | none => exact .scalar rfl
  | some kv => exact h.dict_inv.2 kv (List.mem_of_find?_eq_some hfind)

/-- Every key can be looked up, and what stands there equals the value of the entry. A NaN, which
does not equal itself, is not readable. -/
def Readable (kvs : Mapping) : Prop :=
  ∀ kv ∈ kvs, scalarEq kv.1 kv.1 = true ∧ (getKey kvs kv.1).eq kv.2 = true

theorem getKey_congr {a b : Value} (h : scalarEq a b = true) (kvs : Mapping) :
    getKey kvs a = getKey kvs b := by
  unfold getKey
  simp only [scalarEq_congr h]

/-! ## Updates -/

theorem update_cons (kvs kvs' : Mapping) (kv : Value × Value) :
    update kvs (kv :: kvs') = update (insert kvs kv.1 kv.2) kvs' := rfl

/-- An inserted value stands under a key that equals the given one. -/
theorem insert_mem (kvs : Mapping) (key v : Value) :
    ∃ k, (k, v) ∈ insert kvs key v ∧ (k = key ∨ scalarEq key k = true) := by
  unfold insert
  split
  · rename_i hany
    obtain ⟨kv, hmem, hkey⟩ := List.any_eq_true.mp hany
    exact ⟨kv.1, List.mem_map.mpr ⟨kv, hmem, if_pos hkey⟩, .inr hkey⟩
  · exact ⟨key, List.mem_append_right _ (List.mem_singleton.mpr rfl), .inl rfl⟩

/-- An entry of another key stays. -/
theorem mem_insert_of_ne {kvs : Mapping} {key v : Value} {kv : Value × Value} (h : kv ∈ kvs)
    (hne : scalarEq key kv.1 = false) : kv ∈ insert kvs key v := by
  unfold insert
  split
  · refine List.mem_map.mpr ⟨kv, h, if_neg ?_⟩
    rw [hne]
    exact Bool.false_ne_true
  · exact List.mem_append_left _ h

theorem mem_update_of_ne {kvs kvs' : Mapping} {kv : Value × Value} (h : kv ∈ kvs)
    (hne : ∀ other ∈ kvs', scalarEq other.1 kv.1 = false) : kv ∈ update kvs kvs' := by
  induction kvs' generalizing kvs with
  | nil => exact h
  | cons other kvs' ih =>
    obtain ⟨hfirst, hrest⟩ := List.forall_mem_cons.mp hne
    exact ih (mem_insert_of_ne h hfirst) hrest

/-- Every entry of an update stands in its result. -/
theorem update_mem {kvs kvs' : Mapping} (hkeys : DistinctKeys kvs') {kv : Value × Value}
    (h : kv ∈ kvs') : ∃ k, (k, kv.2) ∈ update kvs kvs' ∧ (k = kv.1 ∨ scalarEq kv.1 k = true) := by
  induction kvs' generalizing kvs with
  | nil => cases h
  | cons first kvs' ih =>
    obtain ⟨hfirst, hrest⟩ := List.pairwise_cons.mp hkeys
    rcases List.mem_cons.mp h with rfl | h
    · obtain ⟨k, hmem, hk⟩ := insert_mem kvs kv.1 kv.2
      refine ⟨k, ?_, hk⟩
      rw [update_cons]
      refine mem_update_of_ne hmem fun other hother => ?_
      have hne := hfirst other hother
      by_contra hsame
      have hsame : scalarEq other.1 k = true := by simpa using hsame
      have heq : scalarEq kv.1 other.1 = true := by
        rcases hk with rfl | hk
        · exact scalarEq_symm hsame
        · exact scalarEq_trans hk (scalarEq_symm hsame)
      rw [hne] at heq
      cases heq
    · exact ih hrest h

/-- Where the result is readable, every entry of an update can be read back. -/
theorem getKey_update {kvs kvs' : Mapping} (hkeys : DistinctKeys kvs')
    (hread : Readable (update kvs kvs')) {kv : Value × Value} (h : kv ∈ kvs') :
    (getKey (update kvs kvs') kv.1).eq kv.2 = true := by
  obtain ⟨k, hmem, hk⟩ : ∃ k, (k, kv.2) ∈ update kvs kvs' ∧ (k = kv.1 ∨ scalarEq kv.1 k = true) :=
    update_mem hkeys h
  have hk' : getKey (update kvs kvs') kv.1 = getKey (update kvs kvs') k := by
    rcases hk with rfl | hk
    · rfl
    · exact getKey_congr hk _
  rw [hk']
  exact (hread _ hmem).2

/-! ## Lookups -/

/-- The value that stands under a key. -/
def lookupKey (kvs : Mapping) (key : Value) : Option Value :=
  (kvs.find? fun kv => scalarEq key kv.1).map Prod.snd

theorem lookup_eq (kvs : Mapping) (name : String) : lookup kvs name = lookupKey kvs (.str name) := by
  simp only [lookup, lookupKey, scalarEq_str]

theorem lookupKey_cons (kv : Value × Value) (kvs : Mapping) (key : Value) :
    lookupKey (kv :: kvs) key = if scalarEq key kv.1 then some kv.2 else lookupKey kvs key := by
  rw [lookupKey, List.find?_cons]
  cases scalarEq key kv.1 <;> rfl

theorem lookupKey_eq_none {kvs : Mapping} {key : Value} :
    lookupKey kvs key = Option.none ↔ ∀ kv ∈ kvs, scalarEq key kv.1 = false := by
  rw [lookupKey, Option.map_eq_none_iff, List.find?_eq_none]
  simp only [Bool.not_eq_true]

theorem lookupKey_congr {a b : Value} (h : scalarEq a b = true) (kvs : Mapping) :
    lookupKey kvs a = lookupKey kvs b := by
  unfold lookupKey
  simp only [scalarEq_congr h]

theorem lookupKey_replace (kvs : Mapping) (key v other : Value) :
    lookupKey (kvs.map fun kv => if scalarEq key kv.1 then (kv.1, v) else kv) other =
      if scalarEq other key && kvs.any (fun kv => scalarEq key kv.1) then some v
      else lookupKey kvs other := by
  induction kvs with
  | nil =>
    rw [List.any_nil, Bool.and_false]
    rfl
  | cons kv kvs ih =>
    have hkey : (if scalarEq key kv.1 then (kv.1, v) else kv).1 = kv.1 := by split <;> rfl
    rw [List.map_cons, lookupKey_cons, lookupKey_cons, hkey, List.any_cons, ih]
    by_cases hother : scalarEq other kv.1 = true
    · have hsame : scalarEq other key = scalarEq key kv.1 := by
        rw [scalarEq_congr hother]
        exact Bool.eq_iff_iff.mpr ⟨scalarEq_symm, scalarEq_symm⟩
      rw [if_pos hother, if_pos hother, hsame]
      cases scalarEq key kv.1 <;> rfl
    · rw [if_neg hother, if_neg hother]
      cases hsame : scalarEq other key with
      | false => rw [Bool.false_and, Bool.false_and]
      | true =>
        have hne : scalarEq key kv.1 = false := by
          rw [← scalarEq_congr hsame]
          exact Bool.not_eq_true _ ▸ hother
        rw [hne, Bool.false_or]

theorem lookupKey_insert (kvs : Mapping) (key v other : Value) :
    lookupKey (insert kvs key v) other =
      if scalarEq other key then some v else lookupKey kvs other := by
  unfold insert
  split
  · rename_i hany
    rw [lookupKey_replace, hany, Bool.and_true]
  · rename_i hnone
    have habsent : scalarEq other key = true → lookupKey kvs other = Option.none := by
      intro hsame
      rw [lookupKey_eq_none]
      intro kv hkv
      rw [scalarEq_congr hsame]
      by_contra hkey
      exact hnone (List.any_eq_true.mpr ⟨kv, hkv, Bool.not_eq_false _ ▸ hkey⟩)
    rw [lookupKey, List.find?_append, Option.map_or, ← lookupKey, ← lookupKey, lookupKey_cons]
    cases hsame : scalarEq other key with
    | false => cases lookupKey kvs other <;> rfl
    | true =>
      rw [habsent hsame]
      rfl

/-- An update stands before what is updated. -/
theorem lookupKey_update {kvs kvs' : Mapping} (hkeys : DistinctKeys kvs') (key : Value) :
    lookupKey (update kvs kvs') key = (lookupKey kvs' key).or (lookupKey kvs key) := by
  induction kvs' generalizing kvs with
  | nil => rfl
  | cons kv kvs' ih =>
    obtain ⟨hfirst, hrest⟩ := List.pairwise_cons.mp hkeys
    rw [update_cons, ih hrest, lookupKey_insert, lookupKey_cons]
    by_cases hkv : scalarEq key kv.1 = true
    · have hnone : lookupKey kvs' key = Option.none := by
        rw [lookupKey_congr hkv, lookupKey_eq_none]
        exact hfirst
      rw [if_pos hkv, if_pos hkv, hnone]
      rfl
    · rw [if_neg hkv, if_neg hkv]

/-- A selection of keys that has none of the inserted key. -/
theorem insert_filter {kvs : Mapping} {key v : Value} {p : Value → Bool} (hp : p key = false)
    (hsame : ∀ k, scalarEq key k = true → p k = false) :
    (insert kvs key v).filter (fun kv => p kv.1) = kvs.filter fun kv => p kv.1 := by
  unfold insert
  split
  · clear * - hsame
    induction kvs with
    | nil => rfl
    | cons kv kvs ih =>
      rw [List.map_cons, List.filter_cons, List.filter_cons, ih]
      by_cases hkey : scalarEq key kv.1 = true
      · rw [if_pos hkey, hsame kv.1 hkey]
        rfl
      · rw [if_neg hkey]
  · simp [hp]

/-- An update leaves the entries of other keys as they are. -/
theorem update_filter {kvs kvs' : Mapping} {p : Value → Bool}
    (h : ∀ kv ∈ kvs', p kv.1 = false ∧ ∀ k, scalarEq kv.1 k = true → p k = false) :
    (update kvs kvs').filter (fun kv => p kv.1) = kvs.filter fun kv => p kv.1 := by
  induction kvs' generalizing kvs with
  | nil => rfl
  | cons kv kvs' ih =>
    obtain ⟨⟨hp, hsame⟩, hrest⟩ := List.forall_mem_cons.mp h
    rw [update_cons, ih hrest, insert_filter hp hsame]

/-- A text that was inserted under a text is read back. -/
theorem entry_insert (kvs : Mapping) (key text : String) :
    (entry (insert kvs (.str key) (.str text)) key).isStr text = true := by
  have hfind : ∃ kv, (insert kvs (.str key) (.str text)).find? (fun kv => kv.1.isStr key) = some kv ∧
      kv.2 = .str text := by
    unfold insert
    simp only [scalarEq_str]
    split
    · rename_i hany
      induction kvs with
      | nil => cases hany
      | cons kv kvs ih =>
        rw [List.map_cons, List.find?_cons]
        by_cases hkey : kv.1.isStr key = true
        · rw [if_pos hkey, hkey]
          exact ⟨_, rfl, rfl⟩
        · have hrest : kvs.any (fun kv => kv.1.isStr key) = true := by
            simpa [hkey] using hany
          rw [if_neg hkey, Bool.eq_false_iff.mpr hkey]
          exact ih hrest
    · rename_i hnone
      have hnone : kvs.find? (fun kv => kv.1.isStr key) = Option.none := by
        simpa [List.find?_eq_none] using hnone
      rw [List.find?_append, hnone]
      exact ⟨(.str key, .str text), by simp [isStr], rfl⟩
  obtain ⟨kv, hfind, hv⟩ := hfind
  rw [entry, lookup, hfind, Option.map_some, Option.getD_some, hv]
  simp [isStr]

end Value
end KollaPowerOps
