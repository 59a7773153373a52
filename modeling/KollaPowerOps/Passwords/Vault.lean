import Mathlib.Data.List.Perm.Subperm
import KollaPowerOps.Lib.OrderedDict
import KollaPowerOps.Lib.PyMapping

/-!
# Passwords.Vault

`writepwd` copies a passwords file into a KV store, `readpwd` writes the file anew from the store.
The writer turns a text into a secret with the one entry `password`; the reader takes the entry
`password` of any secret for a text that the writer has turned.

A KV store is its latest secret at each path. The service takes mappings only: `writepwd` is `none`
where a value is refused. The keys of a passwords file are of any type `K`, with the text that
`format` gives for them.

* `writeKeys_holds` : after the writer the path of every value that is not empty holds the secret
  of a key with that path.
* `vault_round_trip_iff`  : the passwords that survive the round trip.
-/

namespace KollaPowerOps
namespace Passwords

open Value

/-! ## The programs -/

structure Secret where
  entries : Mapping
  distinct : DistinctKeys entries

abbrev Vault : Type := String → Option Secret

instance (kvs : Mapping) : Decidable (DistinctKeys kvs) :=
  inferInstanceAs (Decidable (kvs.Pairwise _))

/-- `dict(password=value)` for a text, else the value itself, which the service takes if it is a
mapping. -/
def secretOf : Value → Option Secret
  | .str s => some ⟨[(.str "password", .str s)], List.pairwise_singleton _ _⟩
  | .dict kvs => if h : DistinctKeys kvs then some ⟨kvs, h⟩ else Option.none
  | _ => Option.none

/-- `data['password']` if there is such a key, else `data`. -/
def passwordOf (data : Secret) : Value := (lookup data.entries "password").getD (.dict data.entries)

section Programs

variable {K : Type} [DecidableEq K] (format : K → String) (kvPath : String)

/-- `"{}/{}".format(vault_kv_path, key)` -/
def path (key : K) : String := kvPath ++ "/" ++ format key

def writeKey (vault : Vault) (key : K) (value : Value) : Option Vault :=
  if !value.truthy then some vault
  else
    match secretOf value with
    | Option.none => Option.none
    | some secret =>
      match vault (path format kvPath key) with
      | Option.none => some (Function.update vault (path format kvPath key) (some secret))
      | some remote =>
        if (Value.dict remote.entries).eq (.dict secret.entries) then some vault
        else some (Function.update vault (path format kvPath key) (some secret))

def writeKeys (vault : Vault) : List (K × Value) → Option Vault
  | [] => some vault
  | e :: entries =>
    match writeKey format kvPath vault e.1 e.2 with
    | Option.none => Option.none
    | some vault => writeKeys vault entries

def writepwd (vault : Vault) (passwords : OrderedDict K Value) : Option Vault :=
  writeKeys format kvPath vault passwords.entries

def readKey (vault : Vault) (key : K) : Value :=
  match vault (path format kvPath key) with
  | Option.none => .none
  | some data => passwordOf data

def readpwd (vault : Vault) (passwords : OrderedDict K Value) : OrderedDict K Value :=
  OrderedDict.ofList (passwords.keys.map fun key => (key, readKey format kvPath vault key))

end Programs

/-! ## Passwords -/

/-- The mapping of these texts. -/
def items (d : OrderedDict String String) : Mapping := d.entries.map fun e => (.str e.1, .str e.2)

/-- A text or a structured secret, without an empty text. -/
inductive Password where
  | text (s : String) (nonempty : s ≠ "")
  | secret (d : OrderedDict String String) (nonempty : ∀ e ∈ d.entries, e.2 ≠ "")

namespace Password

def value : Password → Value
  | .text s _ => .str s
  | .secret d _ => .dict (items d)

/-- `a == b` -/
def same (a b : Password) : Bool := a.value.eq b.value

/-- No structured secret with an entry `password`. -/
def unambiguous : Password → Bool
  | .text _ _ => true
  | .secret d _ => (d.get? "password").isNone

def isEmpty : Password → Bool
  | .text _ _ => false
  | .secret d _ => d.entries.isEmpty

def isText : Password → Bool
  | .text _ _ => true
  | .secret _ _ => false

/-- What the writer stores. -/
def stored : Password → OrderedDict String String
  | .text s _ => .ofList [("password", s)]
  | .secret d _ => d

end Password

/-! ## Mappings of texts -/

theorem mem_items {d : OrderedDict String String} {k s : String} :
    (Value.str k, Value.str s) ∈ items d ↔ d.get? k = some s := by
  rw [← OrderedDict.mem_entries, items, List.mem_map]
  constructor
  · rintro ⟨e, he, heq⟩
    injection heq with hk hs
    injection hk with hk
    injection hs with hs
    rwa [← hk, ← hs]
  · intro he
    exact ⟨(k, s), he, rfl⟩

theorem mem_items_inv {d : OrderedDict String String} {kv : Value × Value} (h : kv ∈ items d) :
    ∃ k s, kv = (.str k, .str s) := by
  obtain ⟨e, _, rfl⟩ := List.mem_map.mp h
  exact ⟨e.1, e.2, rfl⟩

theorem distinct_items (d : OrderedDict String String) : DistinctKeys (items d) := by
  have hnodup := d.nodup
  rw [List.Nodup, List.pairwise_map] at hnodup
  rw [DistinctKeys, items, List.pairwise_map]
  refine hnodup.imp fun {a b} hne => ?_
  rw [scalarEq_str]
  exact Bool.eq_false_iff.mpr fun h => hne (Value.str.inj (isStr_iff.mp h)).symm

/-- A key stands once, so the order is no matter for what stands under it. -/
theorem lookup_iff {kvs : Mapping} (hkvs : DistinctKeys kvs) {key : String} {v : Value} :
    lookup kvs key = some v ↔ (.str key, v) ∈ kvs := by
  induction kvs with
  | nil => simp [lookup]
  | cons kv kvs ih =>
    obtain ⟨hfirst, hrest⟩ := List.pairwise_cons.mp hkvs
    rw [lookup, List.find?_cons, List.mem_cons]
    cases hkey : kv.1.isStr key with
    | true =>
      have hkey := isStr_iff.mp hkey
      have hout : (Value.str key, v) ∉ kvs := by
        intro hmem
        have hne := hfirst _ hmem
        rw [hkey, scalarEq_str, isStr_iff.mpr rfl] at hne
        cases hne
      rw [or_iff_left hout, Option.map_some, Option.some_inj, Prod.ext_iff, hkey]
      exact ⟨fun h => ⟨rfl, h.symm⟩, fun h => h.2.symm⟩
    | false =>
      have hne : (Value.str key, v) ≠ kv := by
        rintro rfl
        rw [isStr_iff.mpr rfl] at hkey
        cases hkey
      rw [or_iff_right hne]
      exact ih hrest

theorem lookup_perm {kvs kvs' : Mapping} (hkvs : DistinctKeys kvs) (hkvs' : DistinctKeys kvs')
    (h : kvs.Perm kvs') (key : String) : lookup kvs key = lookup kvs' key := by
  refine Option.ext fun v => ?_
  rw [lookup_iff hkvs, lookup_iff hkvs', h.mem_iff]

theorem lookup_items (d : OrderedDict String String) (key : String) :
    lookup (items d) key = (d.get? key).map Value.str := by
  refine Option.ext fun v => ?_
  rw [lookup_iff (distinct_items d), Option.map_eq_some_iff]
  constructor
  · intro h
    obtain ⟨k, s, heq⟩ := mem_items_inv h
    injection heq with hk hs
    injection hk with hk
    subst hk hs
    exact ⟨s, mem_items.mp h, rfl⟩
  · rintro ⟨s, hs, rfl⟩
    exact mem_items.mpr hs

theorem eq_str_iff {v : Value} {s : String} : v.eq (.str s) = true ↔ v = .str s := by
  cases v with
  | str t =>
    change scalarEq (.str t) (.str s) = true ↔ _
    rw [scalarEq_str, isStr_iff]
    exact eq_comm
  | float x => cases hx : x.value <;> simp [Value.eq, scalarEq, num?, hx]
  | _ => simp [Value.eq, scalarEq, num?]

theorem eqEntries_iff {kvs kvs' : Mapping} : eqEntries kvs kvs' = true ↔
    ∀ kv ∈ kvs, ∃ kv', (kvs'.find? fun other : Value × Value => scalarEq kv.1 other.1) = some kv' ∧
      kv.2.eq kv'.2 = true := by
  induction kvs with
  | nil => simp [eqEntries]
  | cons kv kvs ih =>
    rw [eqEntries, Bool.and_eq_true, ih, List.forall_mem_cons]
    refine and_congr_left fun _ => ?_
    cases kvs'.find? fun other => scalarEq kv.1 other.1 with
    | none => simp
    | some kv' => simp

/-- Mappings are equal if they have the same entries, in any order. -/
theorem eq_items_iff {kvs : Mapping} (hkvs : DistinctKeys kvs) (d : OrderedDict String String) :
    (Value.dict kvs).eq (.dict (items d)) = true ↔ kvs.Perm (items d) := by
  rw [Value.eq, Bool.and_eq_true, beq_iff_eq, eqEntries_iff]
  constructor
  · rintro ⟨hlength, hall⟩
    have hsub : kvs ⊆ items d := by
      intro kv hkv
      obtain ⟨kv', hfind, heq⟩ := hall kv hkv
      have hmem := List.mem_of_find?_eq_some hfind
      obtain ⟨k, s, rfl⟩ := mem_items_inv hmem
      have hkey : scalarEq (.str k) kv.1 = true :=
        scalarEq_symm
          (List.find?_some (p := fun other : Value × Value => scalarEq kv.1 other.1) hfind)
      rw [scalarEq_str, isStr_iff] at hkey
      have hentry : kv = (.str k, .str s) := Prod.ext hkey (eq_str_iff.mp heq)
      rwa [hentry]
    have hnodup : kvs.Nodup := by
      refine List.Pairwise.imp_of_mem (fun {a b} ha _ hne => ?_) hkvs
      rintro rfl
      obtain ⟨k, s, rfl⟩ := mem_items_inv (hsub ha)
      rw [scalarEq_str, isStr_iff.mpr rfl] at hne
      cases hne
    exact (List.subperm_of_subset hnodup hsub).perm_of_length_le hlength.ge
  · intro hperm
    refine ⟨hperm.length_eq, fun kv hkv => ?_⟩
    have hmem := hperm.mem_iff.mp hkv
    obtain ⟨k, s, rfl⟩ := mem_items_inv hmem
    have hlookup := (lookup_iff (distinct_items d)).mpr hmem
    rw [lookup, Option.map_eq_some_iff] at hlookup
    obtain ⟨kv', hfind, hv⟩ := hlookup
    refine ⟨kv', ?_, ?_⟩
    · simp only [scalarEq_str]
      exact hfind
    · rw [hv]
      exact eq_str_iff.mpr rfl

/-! ## Equal passwords -/

namespace Password

theorem eq_value_str {s : String} {p : Password} :
    (Value.str s).eq p.value = true ↔ p.value = .str s := by
  cases p with
  | text t _ => rw [value, eq_str_iff, eq_comm]
  | secret d _ => simp [value, Value.eq, scalarEq, num?]

theorem eq_value_dict {kvs : Mapping} (hkvs : DistinctKeys kvs) {p : Password} :
    (Value.dict kvs).eq p.value = true ↔ p.isText = false ∧ kvs.Perm (items p.stored) := by
  cases p with
  | text t _ => simp [value, eq_str_iff, isText]
  | secret d _ =>
    rw [value, eq_items_iff hkvs, isText, stored]
    exact (and_iff_right rfl).symm

theorem same_iff {a b : Password} :
    a.same b = true ↔ a.isText = b.isText ∧ (items a.stored).Perm (items b.stored) := by
  cases a with
  | secret d _ =>
    rw [same, value, eq_value_dict (distinct_items d)]
    rw [isText, eq_comm (a := false), stored]
  | text s _ =>
    rw [same, value, eq_value_str]
    cases b with
    | secret d _ => simp [value, isText]
    | text t _ =>
      change Value.str t = .str s ↔ _ ∧ [_].Perm [_]
      rw [List.singleton_perm_singleton]
      simp [isText, eq_comm]

theorem same_symm {a b : Password} (h : a.same b = true) : b.same a = true := by
  rw [same_iff] at h ⊢
  exact ⟨h.1.symm, h.2.symm⟩

theorem same_trans {a b c : Password} (h : a.same b = true) (h' : b.same c = true) :
    a.same c = true := by
  rw [same_iff] at h h' ⊢
  exact ⟨h.1.trans h'.1, h.2.trans h'.2⟩

theorem isEmpty_iff {p : Password} : p.isEmpty = true ↔ p.isText = false ∧ items p.stored = [] := by
  cases p with
  | text s _ => simp [isEmpty, isText]
  | secret d _ => simp [isEmpty, isText, stored, items]

theorem isEmpty_of_same {a b : Password} (h : a.same b = true) (ha : a.isEmpty = true) :
    b.isEmpty = true := by
  rw [same_iff] at h
  rw [isEmpty_iff] at ha ⊢
  refine ⟨h.1.symm.trans ha.1, List.nil_perm.mp ?_⟩
  rw [← ha.2]
  exact h.2

theorem truthy_value (p : Password) : p.value.truthy = !p.isEmpty := by
  cases p with
  | text s hs => simpa [value, isEmpty] using hs
  | secret d _ => simp [value, isEmpty, Value.truthy, items]

theorem secretOf_value (p : Password) :
    secretOf p.value = some ⟨items p.stored, distinct_items p.stored⟩ := by
  cases p with
  | text s _ => rfl
  | secret d _ => exact dif_pos (distinct_items d)

end Password

/-! ## Reading -/

/-- The secret is what the writer makes of the password. -/
def Holds (data : Option Secret) (p : Password) : Prop :=
  ∃ w, data = some w ∧ w.entries.Perm (items p.stored)

/-- An empty mapping, or an entry `password` that is one. -/
def HeldEmpty (data : Option Secret) : Prop :=
  ∃ w, data = some w ∧ (w.entries = [] ∨ lookup w.entries "password" = some (.dict []))

theorem passwordOf_stored {w : Secret} {q : Password} (hw : w.entries.Perm (items q.stored)) :
    passwordOf w = ((q.stored.get? "password").map Value.str).getD (.dict w.entries) := by
  rw [passwordOf, lookup_perm w.distinct (distinct_items _) hw, lookup_items]

/-- What reads as one text or one mapping stands for one password. -/
theorem reads_same {w : Secret} {q p : Password} (hw : w.entries.Perm (items q.stored))
    (hq : q.unambiguous = true) : (passwordOf w).eq p.value = true ↔ q.same p = true := by
  rw [passwordOf_stored hw]
  cases q with
  | text s _ => exact Iff.rfl
  | secret d _ =>
    have hnone : d.get? "password" = Option.none := Option.isNone_iff_eq_none.mp hq
    rw [Password.stored, hnone, Option.map_none, Option.getD_none,
      Password.eq_value_dict w.distinct, Password.same, Password.value,
      Password.eq_value_dict (distinct_items d)]
    exact and_congr_right fun _ => ⟨hw.symm.trans, hw.trans⟩

/-- A secret with an entry `password` is read as a text. -/
theorem unambiguous_of_reads {w : Secret} {q p : Password} (hw : w.entries.Perm (items q.stored))
    (h : (passwordOf w).eq p.value = true) : p.unambiguous = true := by
  cases p with
  | text s _ => rfl
  | secret d hd =>
    rw [passwordOf_stored hw] at h
    cases hpassword : q.stored.get? "password" with
    | some s =>
      rw [hpassword, Option.map_some, Option.getD_some, Password.eq_value_str] at h
      cases h
    | none =>
      rw [hpassword, Option.map_none, Option.getD_none, Password.eq_value_dict w.distinct] at h
      have hlookup := lookup_perm (distinct_items q.stored) (distinct_items d) (hw.symm.trans h.2)
        "password"
      rw [lookup_items, lookup_items, hpassword, Option.map_none, eq_comm,
        Option.map_eq_none_iff] at hlookup
      rw [Password.unambiguous, hlookup]
      rfl

theorem reads_empty {w : Secret} {p : Password} (hp : p.isEmpty = true) :
    (passwordOf w).eq p.value = true ↔ HeldEmpty (some w) := by
  have hvalue : p.value = .dict [] := by
    cases p with
    | text s _ => cases hp
    | secret d _ =>
      have hitems := (Password.isEmpty_iff.mp hp).2
      rw [Password.value]
      exact congrArg Value.dict hitems
  have hnil : ∀ v : Value, v.eq (.dict []) = true ↔ v = .dict [] := by
    intro v
    cases v with
    | dict kvs => cases kvs <;> simp [Value.eq, eqEntries]
    | float x => cases hx : x.value <;> simp [Value.eq, scalarEq, num?, hx]
    | _ => simp [Value.eq, scalarEq, num?]
  rw [hvalue, hnil, passwordOf]
  cases hlookup : lookup w.entries "password" with
  | some v =>
    have hne : w.entries ≠ [] := by
      intro hnil
      rw [hnil] at hlookup
      cases hlookup
    simp [HeldEmpty, hlookup, hne]
  | none => simp [HeldEmpty, hlookup]

/-! ## Writing -/

section RoundTrip

variable {K : Type} {format : K → String} {kvPath : String}

theorem writeKey_empty (vault : Vault) (key : K) {p : Password} (hp : p.isEmpty = true) :
    writeKey format kvPath vault key p.value = some vault := by
  rw [writeKey, Password.truthy_value, hp]
  rfl

/-- A value that is not empty is there afterwards, and nothing else has changed. -/
theorem writeKey_holds (format : K → String) (kvPath : String) (vault : Vault) (key : K)
    {p : Password} (hp : p.isEmpty = false) :
    ∃ vault', writeKey format kvPath vault key p.value = some vault' ∧
      Holds (vault' (path format kvPath key)) p ∧
      ∀ other, other ≠ path format kvPath key → vault' other = vault other := by
  let secret : Secret := ⟨items p.stored, distinct_items p.stored⟩
  have hwritten : ∃ vault', some (Function.update vault (path format kvPath key) (some secret)) =
      some vault' ∧ Holds (vault' (path format kvPath key)) p ∧
      ∀ other, other ≠ path format kvPath key → vault' other = vault other := by
    refine ⟨_, rfl, ⟨secret, Function.update_self .., List.Perm.refl _⟩, fun other hne => ?_⟩
    exact Function.update_of_ne hne ..
  rw [writeKey, Password.truthy_value, hp, Password.secretOf_value]
  dsimp only
  rw [Bool.not_not, if_neg Bool.false_ne_true]
  cases hremote : vault (path format kvPath key) with
  | none => exact hwritten
  | some remote =>
    dsimp only
    by_cases heq : (Value.dict remote.entries).eq (.dict (items p.stored)) = true
    · rw [if_pos heq]
      exact ⟨vault, rfl, ⟨remote, hremote, (eq_items_iff remote.distinct _).mp heq⟩,
        fun _ _ => rfl⟩
    · rw [if_neg heq]
      exact hwritten

/-- **What the writer leaves at a path.** The secret of a key with that path; where every such key
has an empty value, what was there before. -/
theorem writeKeys_holds (format : K → String) (kvPath : String) (entries : List (K × Password))
    (vault : Vault) :
    ∃ vault', writeKeys format kvPath vault (entries.map fun e => (e.1, e.2.value)) = some vault' ∧
      ∀ place, ((∀ e ∈ entries, path format kvPath e.1 = place → e.2.isEmpty = true) ∧
          vault' place = vault place) ∨
        ∃ e ∈ entries, path format kvPath e.1 = place ∧ e.2.isEmpty = false ∧
          Holds (vault' place) e.2 := by
  induction entries generalizing vault with
  | nil => exact ⟨vault, rfl, fun place => .inl ⟨by simp, rfl⟩⟩
  | cons e entries ih =>
    rw [List.map_cons, writeKeys]
    cases he : e.2.isEmpty with
    | true =>
      obtain ⟨vault', hrun, hleft⟩ := ih vault
      dsimp only
      rw [writeKey_empty vault e.1 he]
      refine ⟨vault', hrun, fun place => ?_⟩
      rcases hleft place with ⟨hall, hsame⟩ | ⟨e', hmem, hheld⟩
      · exact .inl ⟨List.forall_mem_cons.mpr ⟨fun _ => he, hall⟩, hsame⟩
      · exact .inr ⟨e', List.mem_cons_of_mem _ hmem, hheld⟩
    | false =>
      obtain ⟨vault₁, hwrite, hholds, hothers⟩ :=
        writeKey_holds format kvPath vault e.1 he
      obtain ⟨vault', hrun, hleft⟩ := ih vault₁
      dsimp only
      rw [hwrite]
      refine ⟨vault', hrun, fun place => ?_⟩
      rcases hleft place with ⟨hall, hsame⟩ | ⟨e', hmem, hheld⟩
      · by_cases hat : path format kvPath e.1 = place
        · refine .inr ⟨e, List.mem_cons_self, hat, he, ?_⟩
          rw [hsame, ← hat]
          exact hholds
        · refine .inl ⟨List.forall_mem_cons.mpr ⟨fun h => absurd h hat, hall⟩, ?_⟩
          rw [hsame, hothers place (Ne.symm hat)]
      · exact .inr ⟨e', List.mem_cons_of_mem _ hmem, hheld⟩

/-! ## The round trip -/

variable [DecidableEq K] (format kvPath)

/-- The reader writes the passwords that the writer was given. -/
def RoundTrip (vault : Vault) (passwords : OrderedDict K Password) : Prop :=
  ∃ vault', writepwd format kvPath vault (passwords.mapValues Password.value) = some vault' ∧
    (readpwd format kvPath vault' (passwords.mapValues Password.value)).keys = passwords.keys ∧
    ∀ key p, passwords.get? key = some p → ∃ v,
      (readpwd format kvPath vault' (passwords.mapValues Password.value)).get? key = some v ∧
        v.eq p.value = true

/-- No structured secret has an entry `password`, keys with one path have one value, and an empty
mapping is what the store has already. -/
structure Survivable (vault : Vault) (passwords : OrderedDict K Password) : Prop where
  unambiguous : ∀ e ∈ passwords.entries, e.2.unambiguous = true
  alike : ∀ e ∈ passwords.entries, ∀ e' ∈ passwords.entries,
    path format kvPath e.1 = path format kvPath e'.1 → e.2.same e'.2 = true
  empties : ∀ e ∈ passwords.entries, e.2.isEmpty = true →
    HeldEmpty (vault (path format kvPath e.1))

theorem keys_readpwd (vault : Vault) (passwords : OrderedDict K Value) :
    (readpwd format kvPath vault passwords).keys = passwords.keys := by
  rw [readpwd, OrderedDict.keys_ofList, List.map_map]
  have hid : (Prod.fst ∘ fun key => (key, readKey format kvPath vault key)) = id := rfl
  rw [hid, List.map_id]
  exact OrderedDict.firsts_of_nodup passwords.nodup

theorem get?_readpwd (vault : Vault) {passwords : OrderedDict K Value} {key : K}
    (hkey : key ∈ passwords.keys) :
    (readpwd format kvPath vault passwords).get? key = some (readKey format kvPath vault key) := by
  rw [← OrderedDict.mem_entries, readpwd, OrderedDict.mem_ofList]
  · exact List.mem_map_of_mem hkey
  · intro e he e' he' hsame
    obtain ⟨k, _, rfl⟩ := List.mem_map.mp he
    obtain ⟨k', _, rfl⟩ := List.mem_map.mp he'
    cases hsame
    rfl

/-- The round trip, key by key. -/
theorem roundTrip_iff_reads {vault vault' : Vault} {passwords : OrderedDict K Password}
    (hrun : writepwd format kvPath vault (passwords.mapValues Password.value) = some vault') :
    RoundTrip format kvPath vault passwords ↔
      ∀ e ∈ passwords.entries, (readKey format kvPath vault' e.1).eq e.2.value = true := by
  have hget : ∀ e ∈ passwords.entries,
      (readpwd format kvPath vault' (passwords.mapValues Password.value)).get? e.1 =
        some (readKey format kvPath vault' e.1) := by
    intro e he
    refine get?_readpwd format kvPath vault' ?_
    rw [OrderedDict.keys_mapValues]
    exact List.mem_map_of_mem he
  constructor
  · rintro ⟨final, hfinal, _, hreads⟩ e he
    cases hrun.symm.trans hfinal
    obtain ⟨v, hv, heq⟩ := hreads e.1 e.2 (OrderedDict.mem_entries.mp he)
    cases (hget e he).symm.trans hv
    exact heq
  · intro h
    refine ⟨vault', hrun, ?_, fun key p hp => ?_⟩
    · rw [keys_readpwd, OrderedDict.keys_mapValues]
    · have he := OrderedDict.mem_entries.mpr hp
      exact ⟨_, hget _ he, h _ he⟩

/-- **Which passwords survive the round trip.** -/
theorem vault_round_trip_iff (vault : Vault) (passwords : OrderedDict K Password) :
    RoundTrip format kvPath vault passwords ↔ Survivable format kvPath vault passwords := by
  obtain ⟨vault', hrun, hleft⟩ :=
    writeKeys_holds format kvPath passwords.entries vault
  have hread : ∀ e : K × Password, ∀ w, vault' (path format kvPath e.1) = some w →
      readKey format kvPath vault' e.1 = passwordOf w := by
    intro e w hw
    rw [readKey, hw]
  rw [roundTrip_iff_reads format kvPath hrun]
  constructor
  · intro h
    have hunambiguous : ∀ e ∈ passwords.entries, e.2.unambiguous = true := by
      intro e he
      rcases hleft (path format kvPath e.1) with ⟨hall, _⟩ | ⟨q, _, _, _, w, hw, hperm⟩
      · have hempty := Password.isEmpty_iff.mp (hall e he rfl)
        cases hp : e.2 with
        | text s _ => rfl
        | secret d _ =>
          rw [hp] at hempty
          have hnil : d.entries = [] := List.map_eq_nil_iff.mp hempty.2
          rw [Password.unambiguous, OrderedDict.get?, hnil]
          rfl
      · have hreads := h e he
        rw [hread e w hw] at hreads
        exact unambiguous_of_reads hperm hreads
    -- every key with the path of a key that was written reads the password written last
    have hlast : ∀ e ∈ passwords.entries, ∀ q ∈ passwords.entries,
        Holds (vault' (path format kvPath e.1)) q.2 → q.2.same e.2 = true := by
      rintro e he q hq ⟨w, hw, hperm⟩
      have hreads := h e he
      rw [hread e w hw] at hreads
      exact (reads_same hperm (hunambiguous q hq)).mp hreads
    refine ⟨hunambiguous, fun e he e' he' hpath => ?_, fun e he hempty => ?_⟩
    · rcases hleft (path format kvPath e.1) with ⟨hall, _⟩ | ⟨q, hq, _, _, hholds⟩
      · have hempty := Password.isEmpty_iff.mp (hall e he rfl)
        have hempty' := Password.isEmpty_iff.mp (hall e' he' hpath.symm)
        rw [Password.same_iff, hempty.1, hempty'.1, hempty.2, hempty'.2]
        exact ⟨rfl, List.Perm.refl _⟩
      · have hsame := hlast e he q hq hholds
        rw [hpath] at hholds
        exact Password.same_trans (Password.same_symm hsame) (hlast e' he' q hq hholds)
    · have hreads := h e he
      rcases hleft (path format kvPath e.1) with ⟨_, hkept⟩ | ⟨q, hq, _, hfull, hholds⟩
      · rw [← hkept]
        cases hdata : vault' (path format kvPath e.1) with
        | none =>
          rw [readKey, hdata] at hreads
          cases hp : e.2 with
          | text s _ => rw [hp] at hempty; cases hempty
          | secret d _ => rw [hp] at hreads; cases hreads
        | some w =>
          rw [hread e w hdata] at hreads
          exact (reads_empty hempty).mp hreads
      · have hsame := Password.same_symm (hlast e he q hq hholds)
        rw [Password.isEmpty_of_same hsame hempty] at hfull
        cases hfull
  · rintro ⟨hunambiguous, halike, hempties⟩ e he
    rcases hleft (path format kvPath e.1) with ⟨hall, hkept⟩ | ⟨q, hq, hpath, _, w, hw, hperm⟩
    · obtain ⟨w, hw, hempty⟩ := hempties e he (hall e he rfl)
      rw [hread e w (hkept.trans hw), reads_empty (hall e he rfl)]
      exact ⟨w, rfl, hempty⟩
    · rw [hread e w hw, reads_same hperm (hunambiguous q hq)]
      exact halike q hq e he hpath

end RoundTrip

/-- A structured secret with an entry `password`, next to another entry. -/
def accountPassword : OrderedDict String Password :=
  .ofList [("account", .secret (.ofList [("user", "admin"), ("password", "pw")]) (by decide))]

/-- The reader gives back the text only. -/
theorem entry_password_lost : ¬ ∀ (K : Type) [DecidableEq K] (format : K → String)
    (kvPath : String) (vault : Vault) (passwords : OrderedDict K Password),
    RoundTrip format kvPath vault passwords := by
  intro h
  have hsurvives := (vault_round_trip_iff id "kolla_passwords" (fun _ => none) accountPassword).mp
    (h String id "kolla_passwords" (fun _ => none) accountPassword)
  exact absurd (hsurvives.unambiguous _ List.mem_cons_self) (by decide)

end Passwords
end KollaPowerOps
