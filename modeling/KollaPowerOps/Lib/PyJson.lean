import KollaPowerOps.Lib.PyMapping

/-!
# Lib.PyJson

Counting and sorting values as keys of a mapping, and which values `json.dumps` accepts. Keys
compare with `<` only within one kind (`kind?`), `sorted` refuses any others, and JSON has keys of
three kinds.

* `count`       : `Counter`.
* `sortedItems` : `sorted` on the items of a mapping.
* `dumpable`    : `json.dumps(value, sort_keys=True)` accepts the value.
-/

namespace KollaPowerOps

/-- What keys that compare with `<` have in common. -/
inductive KeyKind where
  | null
  | number
  | text
  | bytes
  | date
  deriving DecidableEq, Repr

/-- The kinds of key that JSON has. -/
def KeyKind.inJson : KeyKind → Bool
  | .null => true
  | .number => true
  | .text => true
  | _ => false

namespace Value

/-- The kind of a key. -/
def kind? : Value → Option KeyKind
  | .none => some .null
  | .bool _ => some .number
  | .int _ => some .number
  | .float _ => some .number
  | .str _ => some .text
  | .bytes _ => some .bytes
  | .date _ => some .date
  | _ => Option.none

/-- Python does not refuse `a < b` for these keys. It can refuse it for two dates, which no mapping
in JSON has as keys anyway. -/
def comparable (a b : Value) : Bool :=
  a.kind?.isSome && a.kind? == b.kind? && a.kind? != some .null

/-- JSON accepts the key. -/
def jsonKey (v : Value) : Bool := v.kind?.any KeyKind.inJson

/-- Numbers in their order, with the infinities. -/
def rank? : Value → Option (Int × Rat)
  | .float ⟨Option.none, text⟩ =>
    if text = "inf" then some (1, 0) else if text = "-inf" then some (-1, 0) else Option.none
  | v => v.num?.map (0, ·)

/-- `a < b` for keys. A NaN is less than nothing. -/
def keyLt : Value → Value → Bool
  | .str s, .str t => s < t
  | .bytes s, .bytes t => s < t
  | .date s, .date t => s < t
  | a, b =>
    match a.rank?, b.rank? with
    | some (i, x), some (j, y) => i < j || (i == j && x < y)
    | _, _ => false

/-! ## Counters -/

/-- Add one to the count of a key, which is there once. -/
def increment (counts : List (Value × Nat)) (key : Value) : List (Value × Nat) :=
  if counts.any fun kv => scalarEq key kv.1 then
    counts.map fun kv => if scalarEq key kv.1 then (kv.1, kv.2 + 1) else kv
  else counts ++ [(key, 1)]

/-- The entries of `Counter(keys)`, added to those there are. -/
def count (counts : List (Value × Nat)) : List Value → Except PyError (List (Value × Nat))
  | [] => .ok counts
  | key :: keys =>
    if key.hashable then count (increment counts key) keys
    else .error (.typeError "unhashable type")

/-- `sorted(counts.items())`. The keys of a mapping differ, so they alone decide. -/
def sortedItems (counts : List (Value × Nat)) : Except PyError (List (Value × Nat)) :=
  if counts.Pairwise fun x y => comparable x.1 y.1 then
    .ok (counts.mergeSort fun x y => !keyLt y.1 x.1)
  else .error (.typeError "'<' not supported")

/-- `dict(items)` -/
def countsDict (items : List (Value × Nat)) : Value := .dict (items.map fun kv => (kv.1, .int kv.2))

/-! ## JSON -/

mutual

/-- `json.dumps(v, sort_keys=True)` accepts the value. -/
def dumpable : Value → Bool
  | .list xs => dumpableItems xs
  | .dict kvs =>
    kvs.all (fun kv => jsonKey kv.1) && decide (kvs.Pairwise fun x y => comparable x.1 y.1) &&
      dumpableEntries kvs
  | .bytes _ => false
  | .date _ => false
  | .set _ => false
  | _ => true

def dumpableItems : List Value → Bool
  | [] => true
  | x :: xs => dumpable x && dumpableItems xs

def dumpableEntries : List (Value × Value) → Bool
  | [] => true
  | (_, v) :: kvs => dumpable v && dumpableEntries kvs

end

@[simp] theorem dumpable_str (s : String) : (Value.str s).dumpable = true := rfl

@[simp] theorem dumpable_int (i : Int) : (Value.int i).dumpable = true := rfl

theorem dumpableItems_iff {xs : List Value} :
    dumpableItems xs = true ↔ ∀ x ∈ xs, x.dumpable = true := by
  induction xs with
  | nil => simp [dumpableItems]
  | cons x xs ih => simp [dumpableItems, ih]

theorem dumpableEntries_iff {kvs : Mapping} :
    dumpableEntries kvs = true ↔ ∀ kv ∈ kvs, kv.2.dumpable = true := by
  induction kvs with
  | nil => simp [dumpableEntries]
  | cons kv kvs ih => simp [dumpableEntries, ih]

theorem dumpable_dict_iff {kvs : Mapping} :
    (Value.dict kvs).dumpable = true ↔ (∀ kv ∈ kvs, jsonKey kv.1 = true) ∧
      (kvs.Pairwise fun x y => comparable x.1 y.1 = true) ∧ ∀ kv ∈ kvs, kv.2.dumpable = true := by
  rw [dumpable]
  simp [dumpableEntries_iff, and_assoc]

/-! ## Keys of one kind -/

theorem hashable_of_kind {v : Value} {k : KeyKind} (h : v.kind? = some k) : v.hashable = true := by
  cases v <;> first | rfl | cases h

/-- Equal keys are of one kind. -/
theorem kind_of_scalarEq {a b : Value} (h : scalarEq a b = true) : a.kind? = b.kind? := by
  have hnum : ∀ v : Value, v.num?.isSome = true → v.kind? = some .number := by
    intro v hv
    cases v <;> first | rfl | cases hv
  unfold scalarEq at h
  split at h
  · rename_i x y ha hb
    rw [hnum a (by rw [ha]; rfl), hnum b (by rw [hb]; rfl)]
  · split at h <;> first | rfl | cases h
  · cases h

theorem comparable_symm {a b : Value} (h : comparable a b = true) : comparable b a = true := by
  simp only [comparable, Bool.and_eq_true, beq_iff_eq, bne_iff_ne] at h ⊢
  obtain ⟨⟨hsome, hkind⟩, hnull⟩ := h
  rw [← hkind]
  exact ⟨⟨hsome, rfl⟩, hnull⟩

theorem jsonKey_iff {v : Value} : v.jsonKey = true ↔ ∃ k, v.kind? = some k ∧ k.inJson = true := by
  unfold jsonKey
  cases v.kind? <;> simp

theorem increment_keys (counts : List (Value × Nat)) (key : Value) :
    (increment counts key).map Prod.fst =
      counts.map Prod.fst ++ if counts.any (fun kv => scalarEq key kv.1) then [] else [key] := by
  unfold increment
  split
  · rw [List.map_map, List.append_nil]
    refine List.map_congr_left fun kv _ => ?_
    dsimp only [Function.comp_apply]
    split <;> rfl
  · rw [List.map_append]
    rfl

/-- The keys are of one kind exactly if they were before and the new one is. -/
theorem increment_kind {counts : List (Value × Nat)} {key : Value} {k : KeyKind} :
    (∀ v ∈ (increment counts key).map Prod.fst, v.kind? = some k) ↔
      (∀ v ∈ counts.map Prod.fst, v.kind? = some k) ∧ key.kind? = some k := by
  rw [increment_keys, List.forall_mem_append]
  refine and_congr_right fun hall => ?_
  split
  · rename_i hany
    obtain ⟨kv, hmem, hkey⟩ := List.any_eq_true.mp hany
    have hkind := hall kv.1 (List.mem_map_of_mem hmem)
    rw [kind_of_scalarEq hkey]
    simp [hkind]
  · simp

theorem increment_distinct {counts : List (Value × Nat)} (key : Value)
    (h : (counts.map Prod.fst).Pairwise fun a b => scalarEq a b = false) :
    ((increment counts key).map Prod.fst).Pairwise fun a b => scalarEq a b = false := by
  rw [increment_keys]
  split
  · rwa [List.append_nil]
  · rename_i hnone
    refine List.pairwise_append.mpr ⟨h, List.pairwise_singleton _ _, fun a ha b hb => ?_⟩
    obtain ⟨kv, hmem, rfl⟩ := List.mem_map.mp ha
    rw [List.mem_singleton.mp hb]
    by_contra hsame
    have hsame : scalarEq kv.1 key = true := by simpa using hsame
    exact hnone (List.any_eq_true.mpr ⟨kv, hmem, scalarEq_symm hsame⟩)

/-- A counter is built exactly from keys that can be hashed. -/
theorem count_ok_iff {keys : List Value} {counts : List (Value × Nat)} :
    (∃ counts', count counts keys = .ok counts') ↔ ∀ key ∈ keys, key.hashable = true := by
  induction keys generalizing counts with
  | nil => simp [count]
  | cons key keys ih =>
    rw [count, List.forall_mem_cons]
    split
    · rename_i hkey
      rw [ih]
      simp [hkey]
    · rename_i hkey
      simp [hkey]

theorem count_kind {keys : List Value} {counts counts' : List (Value × Nat)} {k : KeyKind}
    (h : count counts keys = .ok counts') :
    (∀ v ∈ counts'.map Prod.fst, v.kind? = some k) ↔
      (∀ v ∈ counts.map Prod.fst, v.kind? = some k) ∧ ∀ key ∈ keys, key.kind? = some k := by
  induction keys generalizing counts with
  | nil => cases h; simp
  | cons key keys ih =>
    rw [count] at h
    split at h
    · rw [ih h, increment_kind, List.forall_mem_cons, and_assoc]
    · cases h

theorem count_distinct {keys : List Value} {counts counts' : List (Value × Nat)}
    (h : count counts keys = .ok counts')
    (hd : (counts.map Prod.fst).Pairwise fun a b => scalarEq a b = false) :
    (counts'.map Prod.fst).Pairwise fun a b => scalarEq a b = false := by
  induction keys generalizing counts with
  | nil => cases h; exact hd
  | cons key keys ih =>
    rw [count] at h
    split at h
    · exact ih h (increment_distinct key hd)
    · cases h

/-- Keys of a mapping can be sorted and dumped exactly if they are of one kind that JSON has. -/
theorem one_kind_iff {keys : List Value}
    (hd : keys.Pairwise fun a b => scalarEq a b = false) :
    (keys.Pairwise (fun a b => comparable a b = true) ∧ ∀ v ∈ keys, v.jsonKey = true) ↔
      ∃ k : KeyKind, k.inJson = true ∧ ∀ v ∈ keys, v.kind? = some k := by
  constructor
  · rintro ⟨hcomp, hjson⟩
    cases keys with
    | nil => exact ⟨.null, rfl, by simp⟩
    | cons key keys =>
      obtain ⟨k, hk, hin⟩ := jsonKey_iff.mp (hjson key List.mem_cons_self)
      refine ⟨k, hin, List.forall_mem_cons.mpr ⟨hk, fun v hv => ?_⟩⟩
      have hkey := (List.pairwise_cons.mp hcomp).1 v hv
      simp only [comparable, Bool.and_eq_true, beq_iff_eq] at hkey
      rw [← hkey.1.2, hk]
  · rintro ⟨k, hin, hall⟩
    refine ⟨?_, fun v hv => jsonKey_iff.mpr ⟨k, hall v hv, hin⟩⟩
    by_cases hnull : k = .null
    · -- a mapping has one null key at most
      have hnone : ∀ v ∈ keys, v = Value.none := by
        intro v hv
        have hv := hall v hv
        rw [hnull] at hv
        cases v <;> first | rfl | cases hv
      cases keys with
      | nil => exact List.Pairwise.nil
      | cons a keys =>
        cases keys with
        | nil => exact List.pairwise_singleton _ _
        | cons b keys =>
          have hne := (List.pairwise_cons.mp hd).1 b List.mem_cons_self
          rw [hnone a List.mem_cons_self, hnone b (by simp)] at hne
          cases hne
    · refine hd.imp_of_mem fun {a b} ha hb _ => ?_
      simp [comparable, hall a ha, hall b hb, hnull]

/-- The sorted counter can be dumped exactly if its keys are of one kind that JSON has. -/
theorem sortedItems_dumpable_iff {counts : List (Value × Nat)}
    (hd : (counts.map Prod.fst).Pairwise fun a b => scalarEq a b = false) :
    (∃ items, sortedItems counts = .ok items ∧ (countsDict items).dumpable = true) ↔
      ∃ k : KeyKind, k.inJson = true ∧ ∀ v ∈ counts.map Prod.fst, v.kind? = some k := by
  rw [← one_kind_iff hd, List.pairwise_map]
  unfold sortedItems
  constructor
  · rintro ⟨items, hsorted, hdump⟩
    split at hsorted
    · rename_i hcomp
      cases hsorted
      refine ⟨hcomp, fun v hv => ?_⟩
      obtain ⟨kv, hmem, rfl⟩ := List.mem_map.mp hv
      have hmem : kv ∈ counts.mergeSort fun x y => !keyLt y.1 x.1 := List.mem_mergeSort.mpr hmem
      exact (dumpable_dict_iff.mp hdump).1 _ (List.mem_map_of_mem hmem)
    · cases hsorted
  · rintro ⟨hcomp, hjson⟩
    refine ⟨_, if_pos hcomp, dumpable_dict_iff.mpr ⟨?_, ?_, ?_⟩⟩
    · intro kv hkv
      obtain ⟨item, hmem, rfl⟩ := List.mem_map.mp hkv
      exact hjson item.1 (List.mem_map_of_mem (List.mem_mergeSort.mp hmem))
    · rw [List.pairwise_map]
      have hperm := List.mergeSort_perm counts fun x y => !keyLt y.1 x.1
      exact hcomp.perm hperm.symm fun h => comparable_symm h
    · intro kv hkv
      obtain ⟨item, _, rfl⟩ := List.mem_map.mp hkv
      rfl

end Value
end KollaPowerOps
