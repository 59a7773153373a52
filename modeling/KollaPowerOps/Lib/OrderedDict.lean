import Mathlib.Data.List.Induction
import Mathlib.Data.List.Nodup

/-!
# Lib.OrderedDict

Dictionaries that keep their keys in the order they were first set, as Python's do.
-/

namespace KollaPowerOps

structure OrderedDict (K V : Type) where
  entries : List (K × V)
  nodup : (entries.map Prod.fst).Nodup

namespace OrderedDict

variable {K V W : Type} [DecidableEq K]

/-! ## First occurrences -/

/-- The elements of a list, each where it occurs first. -/
def firsts (l : List K) : List K := l.eraseDups

@[simp] theorem firsts_nil : firsts ([] : List K) = [] := rfl

@[simp] theorem mem_firsts {l : List K} {k : K} : k ∈ firsts l ↔ k ∈ l := List.mem_eraseDups

theorem firsts_snoc (l : List K) (k : K) :
    firsts (l ++ [k]) = if k ∈ l then firsts l else firsts l ++ [k] := by
  rw [firsts, List.eraseDups_append]
  by_cases hk : k ∈ l
  · simp [firsts, List.removeAll, hk]
  · simp [firsts, List.removeAll, hk, List.eraseDups_cons]

theorem firsts_of_nodup {l : List K} (hl : l.Nodup) : firsts l = l := by
  induction l using List.reverseRecOn with
  | nil => rfl
  | append_singleton l k ih =>
    rw [List.nodup_append] at hl
    have hk : k ∉ l := fun hmem => hl.2.2 k hmem k (List.mem_singleton.mpr rfl) rfl
    rw [firsts_snoc, if_neg hk, ih hl.1]

omit [DecidableEq K] in
theorem nodup_snoc {l : List K} (hl : l.Nodup) {k : K} (hk : k ∉ l) : (l ++ [k]).Nodup := by
  refine List.nodup_append.mpr ⟨hl, List.nodup_singleton k, fun a ha b hb => ?_⟩
  rw [List.mem_singleton.mp hb]
  rintro rfl
  exact hk ha

theorem head?_firsts (l : List K) : (firsts l).head? = l.head? := by
  cases l with
  | nil => rfl
  | cons k l => rw [firsts, List.eraseDups_cons, List.head?_cons, List.head?_cons]

theorem nodup_firsts (l : List K) : (firsts l).Nodup := by
  induction l using List.reverseRecOn with
  | nil => exact List.nodup_nil
  | append_singleton l k ih =>
    rw [firsts_snoc]
    split
    · exact ih
    · exact nodup_snoc ih (mem_firsts.not.mpr ‹_›)

/-- What loses nothing had no repetition. -/
theorem nodup_of_length_firsts {l : List K} (h : (firsts l).length = l.length) : l.Nodup := by
  have hle : ∀ l : List K, (firsts l).length ≤ l.length := by
    intro l
    induction l using List.reverseRecOn with
    | nil => exact Nat.le_refl 0
    | append_singleton l k ih =>
      rw [firsts_snoc, List.length_append, List.length_singleton]
      split
      · omega
      · rw [List.length_append, List.length_singleton]
        omega
  induction l using List.reverseRecOn with
  | nil => exact List.nodup_nil
  | append_singleton l k ih =>
    rw [firsts_snoc, List.length_append, List.length_singleton] at h
    have hlength := hle l
    split at h
    · omega
    · rw [List.length_append, List.length_singleton] at h
      exact nodup_snoc (ih (by omega)) ‹_›

theorem firsts_append_firsts (l l' : List K) : firsts (firsts l ++ firsts l') = firsts (l ++ l') := by
  induction l' using List.reverseRecOn with
  | nil =>
    rw [firsts_nil, List.append_nil, List.append_nil]
    exact firsts_of_nodup (nodup_firsts l)
  | append_singleton l' k ih =>
    rw [firsts_snoc, ← List.append_assoc, firsts_snoc, ← ih]
    by_cases hk' : k ∈ l'
    · rw [if_pos hk', if_pos (List.mem_append_right _ hk')]
    · rw [if_neg hk', ← List.append_assoc, firsts_snoc]
      by_cases hk : k ∈ l
      · rw [if_pos (by simp [hk]), if_pos (by simp [hk])]
      · rw [if_neg (by simp [hk, hk']), if_neg (by simp [hk, hk'])]

/-- Elements that are all the same count once. -/
theorem firsts_append_same {l b : List K} {k : K} (hk : k ∉ l) (hb : ∀ x ∈ b, x = k)
    (hne : b ≠ []) : firsts (l ++ b) = firsts l ++ [k] := by
  obtain ⟨n, rfl⟩ : ∃ n, b = List.replicate (n + 1) k := by
    have hlength := List.length_pos_iff.mpr hne
    refine ⟨b.length - 1, List.eq_replicate_iff.mpr ⟨by omega, hb⟩⟩
  clear hb hne
  induction n with
  | zero => exact (firsts_snoc l k).trans (if_neg hk)
  | succ n ih =>
    rw [List.replicate_succ', ← List.append_assoc, firsts_snoc, if_pos, ih]
    rw [List.replicate_succ]
    exact List.mem_append_right _ List.mem_cons_self

theorem firsts_flatMap {es : List (K × V)} (hes : (es.map Prod.fst).Nodup) {f : K × V → List K}
    (hf : ∀ e ∈ es, ∀ x ∈ f e, x = e.1) (hne : ∀ e ∈ es, f e ≠ []) :
    firsts (es.flatMap f) = es.map Prod.fst := by
  induction es using List.reverseRecOn with
  | nil => rfl
  | append_singleton es e ih =>
    rw [List.map_append, List.map_singleton] at hes ⊢
    rw [List.forall_mem_append] at hf hne
    have hout : e.1 ∉ es.flatMap f := by
      rintro hmem
      obtain ⟨e', he', hx⟩ := List.mem_flatMap.mp hmem
      refine (List.nodup_append.mp hes).2.2 e'.1 (List.mem_map_of_mem he') e.1 (by simp) ?_
      exact (hf.1 e' he' _ hx).symm
    rw [List.flatMap_append, List.flatMap_singleton,
      firsts_append_same hout (hf.2 e (by simp)) (hne.2 e (by simp)),
      ih (List.nodup_append.mp hes).1 hf.1 hne.1]

/-! ## Dictionaries -/

def empty : OrderedDict K V := ⟨[], List.nodup_nil⟩

def keys (d : OrderedDict K V) : List K := d.entries.map Prod.fst

def get? (d : OrderedDict K V) (k : K) : Option V := d.entries.lookup k

def setEntries (k : K) (v : V) : List (K × V) → List (K × V)
  | [] => [(k, v)]
  | e :: l => if e.1 = k then (k, v) :: l else e :: setEntries k v l

theorem lookup_cons_ite (k : K) (e : K × V) (l : List (K × V)) :
    (e :: l).lookup k = if k = e.1 then some e.2 else l.lookup k := by
  rw [List.lookup_cons]
  by_cases hk : k = e.1
  · rw [beq_iff_eq.mpr hk, if_pos hk]
  · rw [beq_eq_false_iff_ne.mpr hk, if_neg hk]

theorem keys_setEntries (k : K) (v : V) (l : List (K × V)) :
    (setEntries k v l).map Prod.fst =
      if k ∈ l.map Prod.fst then l.map Prod.fst else l.map Prod.fst ++ [k] := by
  induction l with
  | nil => rfl
  | cons e l ih =>
    rw [setEntries]
    by_cases he : e.1 = k
    · simp [he]
    · rw [if_neg he, List.map_cons, ih, List.map_cons]
      by_cases hk : k ∈ l.map Prod.fst
      · rw [if_pos hk, if_pos (List.mem_cons_of_mem _ hk)]
      · rw [if_neg hk, if_neg (by simpa [Ne.symm he] using hk), List.cons_append]

theorem lookup_setEntries (k k' : K) (v : V) (l : List (K × V)) :
    (setEntries k v l).lookup k' = if k' = k then some v else l.lookup k' := by
  induction l with
  | nil => rw [setEntries, lookup_cons_ite]
  | cons e l ih =>
    rw [setEntries]
    by_cases he : e.1 = k
    · subst he
      rw [if_pos rfl, lookup_cons_ite, lookup_cons_ite]
      split <;> rfl
    · rw [if_neg he, lookup_cons_ite, lookup_cons_ite, ih]
      by_cases hk : k' = e.1
      · rw [if_pos hk, if_pos hk, if_neg (hk ▸ he)]
      · rw [if_neg hk, if_neg hk]

/-- A key that is set again keeps its place. -/
def set (d : OrderedDict K V) (k : K) (v : V) : OrderedDict K V where
  entries := setEntries k v d.entries
  nodup := by
    have hd : (d.entries.map Prod.fst).Nodup := d.nodup
    rw [keys_setEntries]
    split
    · exact hd
    · exact nodup_snoc hd ‹_›

theorem setEntries_of_not_mem {k : K} (v : V) {l : List (K × V)} (hk : k ∉ l.map Prod.fst) :
    setEntries k v l = l ++ [(k, v)] := by
  induction l with
  | nil => rfl
  | cons e l ih =>
    rw [List.map_cons, List.mem_cons, not_or] at hk
    rw [setEntries, if_neg (Ne.symm hk.1), ih hk.2, List.cons_append]

/-- A new key comes last. -/
theorem entries_set_of_not_mem {d : OrderedDict K V} {k : K} (v : V) (hk : k ∉ d.keys) :
    (d.set k v).entries = d.entries ++ [(k, v)] := setEntries_of_not_mem v hk

omit [DecidableEq K] in
@[simp] theorem keys_empty : (empty : OrderedDict K V).keys = [] := rfl

@[simp] theorem get?_empty (k : K) : (empty : OrderedDict K V).get? k = none := rfl

theorem keys_set (d : OrderedDict K V) (k : K) (v : V) :
    (d.set k v).keys = if k ∈ d.keys then d.keys else d.keys ++ [k] := keys_setEntries ..

/-- Keys that are set one after another stand where they occur first. -/
theorem keys_set_firsts {d : OrderedDict K V} {l : List K} (hd : d.keys = firsts l) (k : K) (v : V) :
    (d.set k v).keys = firsts (l ++ [k]) := by
  rw [keys_set, hd, firsts_snoc]
  simp only [mem_firsts]

theorem get?_set (d : OrderedDict K V) (k k' : K) (v : V) :
    (d.set k v).get? k' = if k' = k then some v else d.get? k' := lookup_setEntries ..

@[simp] theorem get?_set_self (d : OrderedDict K V) (k : K) (v : V) : (d.set k v).get? k = some v := by
  rw [get?_set, if_pos rfl]

theorem get?_set_of_ne (d : OrderedDict K V) {k k' : K} (hk : k' ≠ k) (v : V) :
    (d.set k v).get? k' = d.get? k' := by
  rw [get?_set, if_neg hk]

theorem get?_eq_none {d : OrderedDict K V} {k : K} : d.get? k = none ↔ k ∉ d.keys := by
  rw [get?, List.lookup_eq_none_iff, keys, List.mem_map]
  constructor
  · rintro h ⟨e, he, rfl⟩
    simpa using h e he
  · intro h e he
    simpa using fun heq : k = e.1 => h ⟨e, he, heq.symm⟩

theorem mem_keys {d : OrderedDict K V} {k : K} : k ∈ d.keys ↔ ∃ v, d.get? k = some v := by
  rw [← not_not (a := k ∈ d.keys), ← get?_eq_none, Option.eq_none_iff_forall_ne_some, not_forall]
  simp only [not_not]

theorem mem_entries {d : OrderedDict K V} {k : K} {v : V} :
    (k, v) ∈ d.entries ↔ d.get? k = some v := by
  obtain ⟨l, hl⟩ := d
  rw [get?]
  change (k, v) ∈ l ↔ l.lookup k = some v
  induction l with
  | nil => simp
  | cons e l ih =>
    rw [List.map_cons, List.nodup_cons] at hl
    rw [List.mem_cons, lookup_cons_ite, ih hl.2]
    by_cases hk : k = e.1
    · have hout : l.lookup k ≠ some v := fun h =>
        hl.1 (List.mem_map.mpr ⟨(k, v), (ih hl.2).mpr h, hk⟩)
      rw [if_pos hk, or_iff_left hout, Option.some_inj, Prod.ext_iff]
      exact ⟨fun h => h.2.symm, fun h => ⟨hk, h.symm⟩⟩
    · rw [if_neg hk, or_iff_right fun h => hk (congrArg Prod.fst h)]

/-- What comes of one key only. -/
theorem flatMap_entries {α : Type} {d : OrderedDict K V} {k : K} {v : V} (hd : d.get? k = some v)
    {f : K × V → List α} (hf : ∀ e ∈ d.entries, e.1 ≠ k → f e = []) :
    d.entries.flatMap f = f (k, v) := by
  obtain ⟨l, l', hsplit⟩ := List.append_of_mem (mem_entries.mpr hd)
  have hnodup := d.nodup
  rw [hsplit, List.map_append, List.map_cons, List.nodup_append, List.nodup_cons] at hnodup
  rw [hsplit, List.forall_mem_append, List.forall_mem_cons] at hf
  have hl : l.flatMap f = [] := by
    refine List.flatMap_eq_nil_iff.mpr fun e he => hf.1 e he fun heq => ?_
    exact hnodup.2.2 e.1 (List.mem_map_of_mem he) k List.mem_cons_self heq
  have hl' : l'.flatMap f = [] := by
    refine List.flatMap_eq_nil_iff.mpr fun e he => hf.2.2 e he fun heq => ?_
    exact hnodup.2.1.1 (List.mem_map.mpr ⟨e, he, heq⟩)
  rw [hsplit, List.flatMap_append, List.flatMap_cons, hl, hl', List.append_nil, List.nil_append]

theorem flatMap_entries_of_none {α : Type} {d : OrderedDict K V} {k : K} (hd : d.get? k = none)
    {f : K × V → List α} (hf : ∀ e ∈ d.entries, e.1 ≠ k → f e = []) : d.entries.flatMap f = [] := by
  refine List.flatMap_eq_nil_iff.mpr fun e he => hf e he fun heq => ?_
  exact get?_eq_none.mp hd (List.mem_map.mpr ⟨e, he, heq⟩)

/-- A dictionary is its keys, in order, and their values. -/
theorem ext_get? {d d' : OrderedDict K V} (hkeys : d.keys = d'.keys)
    (hget : ∀ k, d.get? k = d'.get? k) : d = d' := by
  obtain ⟨l, hl⟩ := d
  obtain ⟨l', hl'⟩ := d'
  have hentries : l = l' := by
    change l.map Prod.fst = l'.map Prod.fst at hkeys
    have hmem : ∀ e, e ∈ l ↔ e ∈ l' := fun e => by
      have h := mem_entries (d := ⟨l, hl⟩) (k := e.1) (v := e.2)
      rw [hget, ← mem_entries] at h
      exact h
    clear hget
    induction l generalizing l' with
    | nil =>
      rw [List.map_nil, eq_comm, List.map_eq_nil_iff] at hkeys
      exact hkeys.symm
    | cons e l ih =>
      cases l' with
      | nil => cases hkeys
      | cons e' l' =>
        rw [List.map_cons, List.map_cons, List.cons.injEq] at hkeys
        rw [List.map_cons, List.nodup_cons] at hl hl'
        have hout : ∀ x ∈ l, x.1 ≠ e.1 := fun x hx heq =>
          hl.1 (List.mem_map.mpr ⟨x, hx, heq⟩)
        have hout' : ∀ x ∈ l', x.1 ≠ e'.1 := fun x hx heq =>
          hl'.1 (List.mem_map.mpr ⟨x, hx, heq⟩)
        have he : e = e' := by
          rcases List.mem_cons.mp ((hmem e).mp List.mem_cons_self) with h | h
          · exact h
          · exact absurd hkeys.1 (hout' e h)
        subst he
        refine congrArg _ (ih hl.2 l' hl'.2 hkeys.2 fun x => ?_)
        have h := hmem x
        rw [List.mem_cons, List.mem_cons] at h
        constructor
        · intro hx
          exact (h.mp (.inr hx)).resolve_left fun heq => hout x hx (congrArg Prod.fst heq)
        · intro hx
          exact (h.mpr (.inr hx)).resolve_left fun heq => hout' x hx (congrArg Prod.fst heq)
  subst hentries
  rfl

/-! ## Deleting and comparing -/

/-- To set what stands there changes nothing. -/
theorem set_of_get? {d : OrderedDict K V} {k : K} {v : V} (h : d.get? k = some v) : d.set k v = d := by
  refine ext_get? ?_ fun k' => ?_
  · rw [keys_set, if_pos (mem_keys.mpr ⟨v, h⟩)]
  · rw [get?_set]
    split
    · rename_i hk
      rw [hk, h]
    · rfl

/-- `del d[k]`, for a key that is there. -/
def erase (d : OrderedDict K V) (k : K) : OrderedDict K V where
  entries := d.entries.filter fun e => e.1 ≠ k
  nodup := d.nodup.sublist (List.filter_sublist.map _)

theorem get?_erase (d : OrderedDict K V) (k k' : K) :
    (d.erase k).get? k' = if k' = k then none else d.get? k' := by
  have hiff : ∀ v, (d.erase k).get? k' = some v ↔ k' ≠ k ∧ d.get? k' = some v := by
    intro v
    rw [← mem_entries, ← mem_entries, erase, List.mem_filter, decide_eq_true_iff, and_comm]
  split
  · rename_i hk
    rw [Option.eq_none_iff_forall_ne_some]
    exact fun v hv => ((hiff v).mp hv).1 hk
  · rename_i hk
    refine Option.ext fun v => ?_
    rw [hiff v, and_iff_right hk]

/-- `d == d'`: the order of the keys is no matter. -/
def same [DecidableEq V] (d d' : OrderedDict K V) : Bool :=
  (d.entries.all fun e => d'.get? e.1 = some e.2) && d'.entries.all fun e => d.get? e.1 = some e.2

theorem same_iff [DecidableEq V] {d d' : OrderedDict K V} :
    d.same d' = true ↔ ∀ k, d.get? k = d'.get? k := by
  have hall : ∀ a b : OrderedDict K V, (a.entries.all fun e => b.get? e.1 = some e.2) = true ↔
      ∀ k v, a.get? k = some v → b.get? k = some v := by
    intro a b
    rw [List.all_eq_true]
    constructor
    · intro h k v hk
      exact of_decide_eq_true (h (k, v) (mem_entries.mpr hk))
    · intro h e he
      exact decide_eq_true (h e.1 e.2 (mem_entries.mp he))
  rw [same, Bool.and_eq_true, hall, hall]
  constructor
  · rintro ⟨h, h'⟩ k
    exact Option.ext fun v => ⟨h k v, h' k v⟩
  · intro h
    exact ⟨fun k v hk => (h k).symm.trans hk, fun k v hk => (h k).trans hk⟩

/-! ## From pairs -/

/-- `dict(pairs)`: a key that comes again gets the later value. -/
def ofList (l : List (K × V)) : OrderedDict K V := l.foldl (fun d e => d.set e.1 e.2) empty

theorem ofList_snoc (l : List (K × V)) (e : K × V) :
    ofList (l ++ [e]) = (ofList l).set e.1 e.2 := List.foldl_append ..

theorem keys_ofList (l : List (K × V)) : (ofList l).keys = firsts (l.map Prod.fst) := by
  induction l using List.reverseRecOn with
  | nil => rfl
  | append_singleton l e ih =>
    rw [ofList_snoc, List.map_append]
    exact keys_set_firsts ih _ _

theorem mem_of_mem_ofList {l : List (K × V)} {e : K × V} (he : e ∈ (ofList l).entries) : e ∈ l := by
  induction l using List.reverseRecOn with
  | nil => cases he
  | append_singleton l e' ih =>
    rw [ofList_snoc, mem_entries, get?_set] at he
    rw [List.mem_append, List.mem_singleton]
    split at he
    · rename_i hk
      exact .inr (Prod.ext hk (Option.some.inj he).symm)
    · exact .inl (ih (mem_entries.mpr he))

/-- A key has the last of its values. -/
theorem get?_ofList (l : List (K × V)) (k : K) :
    (ofList l).get? k = ((l.filter fun e => e.1 = k).getLast?).map Prod.snd := by
  induction l using List.reverseRecOn with
  | nil => rfl
  | append_singleton l e ih =>
    rw [ofList_snoc, get?_set, List.filter_append, ih]
    by_cases hk : e.1 = k
    · rw [if_pos hk.symm, List.filter_cons_of_pos (by simpa using hk), List.filter_nil,
        List.getLast?_concat]
      rfl
    · rw [if_neg fun h => hk h.symm, List.filter_cons_of_neg (by simpa using hk), List.filter_nil,
        List.append_nil]

/-- Where a key has one value only, the dictionary has all pairs. -/
theorem mem_ofList {l : List (K × V)} (hl : ∀ e ∈ l, ∀ e' ∈ l, e.1 = e'.1 → e = e') {e : K × V} :
    e ∈ (ofList l).entries ↔ e ∈ l := by
  refine ⟨mem_of_mem_ofList, fun he => ?_⟩
  have hkey : e.1 ∈ (ofList l).keys := by
    rw [keys_ofList, mem_firsts]
    exact List.mem_map_of_mem he
  obtain ⟨v, hv⟩ := mem_keys.mp hkey
  have hentry := mem_entries.mpr hv
  have hsame := hl e he _ (mem_of_mem_ofList hentry) rfl
  rwa [hsame]

/-- A dictionary is read back from its entries. -/
theorem get?_ofList_entries (d : OrderedDict K V) (k : K) : (ofList d.entries).get? k = d.get? k := by
  refine Option.ext fun v => ?_
  rw [← mem_entries, ← mem_entries]
  exact mem_ofList fun e he e' he' hkey => List.inj_on_of_nodup_map d.nodup he he' hkey

/-- `\x7bf(k): v for k, v in d.items()\x7d` -/
def mapKeys (f : K → K) (d : OrderedDict K V) : OrderedDict K V :=
  ofList (d.entries.map fun e => (f e.1, e.2))

theorem keys_mapKeys {f : K → K} (hf : f.Injective) (d : OrderedDict K V) :
    (d.mapKeys f).keys = d.keys.map f := by
  rw [mapKeys, keys_ofList, List.map_map, keys, List.map_map]
  refine firsts_of_nodup ?_
  have hnodup := d.nodup.map hf
  rwa [List.map_map] at hnodup

theorem get?_mapKeys {f : K → K} (hf : f.Injective) (d : OrderedDict K V) (k : K) :
    (d.mapKeys f).get? (f k) = d.get? k := by
  have hone : ∀ e ∈ d.entries.map (fun e => (f e.1, e.2)),
      ∀ e' ∈ d.entries.map (fun e => (f e.1, e.2)), e.1 = e'.1 → e = e' := by
    simp only [List.mem_map]
    rintro _ ⟨e, he, rfl⟩ _ ⟨e', he', rfl⟩ hkey
    rw [List.inj_on_of_nodup_map d.nodup he he' (hf hkey)]
  refine Option.ext fun v => ?_
  rw [← mem_entries, mapKeys, mem_ofList hone, ← mem_entries, List.mem_map]
  constructor
  · rintro ⟨e, he, heq⟩
    obtain ⟨hkey, rfl⟩ := Prod.mk.inj heq
    rwa [← hf hkey]
  · exact fun h => ⟨(k, v), h, rfl⟩

/-! ## Values -/

def mapValues (f : V → W) (d : OrderedDict K V) : OrderedDict K W where
  entries := d.entries.map fun e => (e.1, f e.2)
  nodup := by
    have hkeys := d.nodup
    rw [List.map_map]
    exact hkeys

omit [DecidableEq K] in
@[simp] theorem keys_mapValues (f : V → W) (d : OrderedDict K V) : (d.mapValues f).keys = d.keys := by
  rw [keys, mapValues, List.map_map]
  rfl

theorem get?_mapValues (f : V → W) (d : OrderedDict K V) (k : K) :
    (d.mapValues f).get? k = (d.get? k).map f := by
  obtain ⟨l, hl⟩ := d
  change (l.map fun e => (e.1, f e.2)).lookup k = (l.lookup k).map f
  clear hl
  induction l with
  | nil => rfl
  | cons e l ih =>
    rw [List.map_cons, lookup_cons_ite, lookup_cons_ite, ih]
    split <;> rfl

/-! ## Merging -/

/-- The entries of the second dictionary are set one after another, each to what `f` makes of the
value that is there and the new one. -/
def mergeWith (f : Option V → W → V) (d : OrderedDict K V) (d' : OrderedDict K W) :
    OrderedDict K V :=
  d'.entries.foldl (fun d e => d.set e.1 (f (d.get? e.1) e.2)) d

/-- `d.update(d')` -/
def update (d d' : OrderedDict K V) : OrderedDict K V := d.mergeWith (fun _ v => v) d'

theorem keys_mergeWith (f : Option V → W → V) (d : OrderedDict K V) (d' : OrderedDict K W) :
    (d.mergeWith f d').keys = firsts (d.keys ++ d'.keys) := by
  obtain ⟨l, hl⟩ := d'
  rw [mergeWith]
  change (l.foldl _ d).keys = firsts (d.keys ++ l.map Prod.fst)
  clear hl
  induction l using List.reverseRecOn with
  | nil =>
    rw [List.map_nil, List.append_nil, List.foldl_nil]
    exact (firsts_of_nodup d.nodup).symm
  | append_singleton l e ih =>
    rw [List.foldl_append, List.map_append, ← List.append_assoc]
    change (OrderedDict.set _ _ _).keys = firsts (d.keys ++ l.map Prod.fst ++ [e.1])
    rw [keys_set, firsts_snoc, ih]
    simp only [mem_firsts]

theorem get?_mergeWith (f : Option V → W → V) (d : OrderedDict K V) (d' : OrderedDict K W) (k : K) :
    (d.mergeWith f d').get? k =
      match d'.get? k with
      | none => d.get? k
      | some w => some (f (d.get? k) w) := by
  obtain ⟨l, hl⟩ := d'
  rw [mergeWith]
  change (l.foldl _ d).get? k = match l.lookup k with
    | none => d.get? k
    | some w => some (f (d.get? k) w)
  induction l generalizing d with
  | nil => rfl
  | cons e l ih =>
    rw [List.map_cons, List.nodup_cons] at hl
    rw [List.foldl_cons, ih _ hl.2, lookup_cons_ite]
    by_cases hk : k = e.1
    · have hout : l.lookup k = none := (get?_eq_none (d := ⟨l, hl.2⟩)).mpr (hk ▸ hl.1)
      rw [hout, if_pos hk, hk, get?_set_self]
    · rw [get?_set_of_ne _ hk, if_neg hk]

theorem keys_update (d d' : OrderedDict K V) : (d.update d').keys = firsts (d.keys ++ d'.keys) :=
  keys_mergeWith ..

theorem get?_update (d d' : OrderedDict K V) (k : K) :
    (d.update d').get? k = (d'.get? k).or (d.get? k) := by
  rw [update, get?_mergeWith]
  cases d'.get? k <;> rfl

/-! ## Assigning -/

/-- The keys of a list are set one after another, each to what `f` has for it. -/
def assign (f : K → Option V) (l : List K) (d : OrderedDict K V) : OrderedDict K V :=
  l.foldl (fun d k =>
    match f k with
    | none => d
    | some v => d.set k v) d

theorem get?_assign (f : K → Option V) (l : List K) (d : OrderedDict K V) (k : K) :
    (d.assign f l).get? k = if k ∈ l then (f k).or (d.get? k) else d.get? k := by
  induction l generalizing d with
  | nil => rfl
  | cons k' l ih =>
    rw [assign, List.foldl_cons]
    change (OrderedDict.assign f l _).get? k = _
    rw [ih]
    cases hf : f k' with
    | none =>
      by_cases hk : k = k'
      · subst hk
        simp [hf]
      · simp [hk]
    | some v =>
      by_cases hk : k = k'
      · subst hk
        simp [hf]
      · simp [hk, get?_set_of_ne d hk]

theorem keys_assign (f : K → Option V) {l : List K} {d : OrderedDict K V} (hl : l ⊆ d.keys) :
    (d.assign f l).keys = d.keys := by
  induction l generalizing d with
  | nil => rfl
  | cons k l ih =>
    obtain ⟨hk, hl⟩ := List.cons_subset.mp hl
    rw [assign, List.foldl_cons]
    change (OrderedDict.assign f l _).keys = _
    cases f k with
    | none => exact ih hl
    | some v =>
      have hkeys : (d.set k v).keys = d.keys := by rw [keys_set, if_pos hk]
      rw [ih (hkeys ▸ hl), hkeys]

end OrderedDict
end KollaPowerOps
