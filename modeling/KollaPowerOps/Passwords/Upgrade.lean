import Mathlib.Logic.Embedding.Basic
import KollaPowerOps.Lib.OrderedDict
import KollaPowerOps.Lib.PyMapping

/-!
# Passwords.Upgrade

A passwords file is upgraded in two steps: `mergepwd` puts the old passwords into the template of
the new release, `genpwd` generates those that are still missing.

The keys of a passwords file are of any type `K`; `name` is the key that a text is. What the
generators draw is a `Supply`. A file that is written and loaded again has the same entries in
another order (`Loads`).

* `mergepwd_merged`   : what `mergepwd` keeps, carries over and takes from the template.
* `genpwd_generates`  : what `genpwd` replaces, and that it leaves everything else.
-/

namespace KollaPowerOps
namespace Passwords

open Value

variable {K : Type} [DecidableEq K] (name : String ↪ K)

/-! ## Merging -/

/-- The password of Redis becomes that of Valkey. -/
def carryRedis (old new : OrderedDict K Value) : OrderedDict K Value :=
  if name "valkey_master_password" ∈ new.keys ∧ name "redis_master_password" ∈ old.keys ∧
      name "valkey_master_password" ∉ old.keys then
    match old.get? (name "redis_master_password") with
    | Option.none => new
    | some oldRedisPass =>
      if oldRedisPass.truthy then new.set (name "valkey_master_password") oldRedisPass else new
  else new

def mergepwd (old new : OrderedDict K Value) (clean : Bool) : OrderedDict K Value :=
  let new := carryRedis name old new
  if clean then new.assign old.get? new.keys else new.update old

/-! ## Generating -/

/-- The keys that are generated in a way of their own, or not at all. -/
structure KeyClasses (K : Type) where
  uuid : List K
  ssh : List K
  blank : List K
  hmacMd5 : List K
  fernet : List K
  bcrypt : List K
  blank_not_ssh : ∀ k ∈ blank, k ∉ ssh

def keyClasses : KeyClasses K where
  uuid := ["rbd_secret_uuid", "cinder_rbd_secret_uuid", "gnocchi_project_id",
    "gnocchi_resource_id", "gnocchi_user_id", "designate_pool_id"].map name
  ssh := ["kolla_ssh_key", "nova_ssh_key", "keystone_ssh_key", "bifrost_ssh_key",
    "octavia_amp_ssh_key", "neutron_ssh_key", "haproxy_ssh_key"].map name
  blank := ["docker_registry_password"].map name
  hmacMd5 := ["designate_rndc_key", "osprofiler_secret"].map name
  fernet := ["barbican_crypto_key"].map name
  bcrypt := ["prometheus_bcrypt_salt"].map name
  blank_not_ssh := by simp

/-- What the generators give for each key. -/
structure Supply (K : Type) where
  /-- `generate_RSA()`, the private key first -/
  rsa : K → String × String
  uuid : K → String
  /-- the digest of the empty message under this key -/
  hexdigest : String → String
  fernet : K → String
  salt : K → Nat → String
  /-- the choices among letters and digits -/
  choice : K → Nat → Char

variable (classes : KeyClasses K) (supply : Supply K) (length : Nat)

def sshPair (k : K) : Value :=
  .dict [(.str "private_key", .str (supply.rsa k).1), (.str "public_key", .str (supply.rsa k).2)]

def generated (k : K) : Value :=
  if k ∈ classes.uuid then .str (supply.uuid k)
  else if k ∈ classes.hmacMd5 then .str (supply.hexdigest (supply.uuid k))
  else if k ∈ classes.fernet then .str (supply.fernet k)
  else if k ∈ classes.bcrypt then .str (supply.salt k 22)
  else .str (String.ofList ((List.range length).map (supply.choice k)))

/-- `v is None` -/
def isNone : Value → Bool
  | .none => true
  | _ => false

/-- `v is None or v.get('public_key') is None and v.get('private_key') is None` -/
def pairMissing (v : Value) : Except PyError Bool :=
  if isNone v then .ok true
  else do
    let publicKey ← v.get "public_key"
    if isNone publicKey then
      let privateKey ← v.get "private_key"
      return isNone privateKey
    else return false

/-- The value that an entry gets, if it gets one. -/
def replacement (k : K) (v : Value) : Except PyError (Option Value) := do
  let missing ← if k ∈ classes.ssh then pairMissing v else pure false
  if missing then return some (sshPair supply k)
  else if isNone v then
    if k ∈ classes.blank then return Option.none
    else return some (generated classes supply length k)
  else return Option.none

def generateKeys (passwords : OrderedDict K Value) :
    List (K × Value) → Except PyError (OrderedDict K Value)
  | [] => .ok passwords
  | (k, v) :: entries => do
    match ← replacement classes supply length k v with
    | Option.none => generateKeys passwords entries
    | some v' => generateKeys (passwords.set k v') entries

def genpwd (passwords : OrderedDict K Value) : Except PyError (OrderedDict K Value) :=
  generateKeys classes supply length passwords passwords.entries

/-! ## What is kept -/

/-- The file that was written, loaded again. -/
def Loads (written loaded : OrderedDict K Value) : Prop := ∀ k, loaded.get? k = written.get? k

/-- The SSH entries are null or mappings. -/
def SshEntries (passwords : OrderedDict K Value) : Prop :=
  ∀ k ∈ classes.ssh, ∀ v, passwords.get? k = some v → v = .none ∨ ∃ kvs, v = .dict kvs

/-- The old password of Redis is there, is not empty and has to be carried over. -/
def Carried (old new : OrderedDict K Value) (v : Value) : Prop :=
  name "valkey_master_password" ∈ new.keys ∧ name "valkey_master_password" ∉ old.keys ∧
    old.get? (name "redis_master_password") = some v ∧ v.truthy = true

structure Merged (old new : OrderedDict K Value) (clean : Bool) (merged : OrderedDict K Value) :
    Prop where
  keys : ∀ k, k ∈ merged.keys ↔ k ∈ new.keys ∨ clean = false ∧ k ∈ old.keys
  kept : ∀ k ∈ merged.keys, ∀ v, old.get? k = some v → merged.get? k = some v
  carried : ∀ v, Carried name old new v → merged.get? (name "valkey_master_password") = some v
  template : ∀ k ∈ merged.keys, k ∉ old.keys →
    (k = name "valkey_master_password" → ∀ v, ¬ Carried name old new v) →
      merged.get? k = new.get? k

/-- A null, which an SSH mapping is too if both halves are null. -/
def Null (k : K) (v : Value) : Prop :=
  v = .none ∨ k ∈ classes.ssh ∧ ∃ kvs, v = .dict kvs ∧ entry kvs "public_key" = .none ∧
    entry kvs "private_key" = .none

/-- The generated value of a key, whichever way it is generated. -/
def generatedValue (k : K) : Value :=
  if k ∈ classes.ssh then sshPair supply k else generated classes supply length k

structure Generated (before after : OrderedDict K Value) : Prop where
  keys : ∀ k, k ∈ after.keys ↔ k ∈ before.keys
  kept : ∀ k v, before.get? k = some v → ¬ Null classes k v → after.get? k = some v
  blank : ∀ k ∈ classes.blank, before.get? k = some .none → after.get? k = some .none
  filled : ∀ k v, before.get? k = some v → Null classes k v → k ∉ classes.blank →
    after.get? k = some (generatedValue classes supply length k)

/-! ## The merge -/

section Merge

variable {old new : OrderedDict K Value}

theorem carryRedis_of_carried {v : Value} (h : Carried name old new v) :
    carryRedis name old new = new.set (name "valkey_master_password") v := by
  obtain ⟨hnew, hold, hredis, hv⟩ := h
  rw [carryRedis, if_pos ⟨hnew, OrderedDict.mem_keys.mpr ⟨v, hredis⟩, hold⟩, hredis]
  exact if_pos hv

theorem carryRedis_of_not (h : ∀ v, ¬ Carried name old new v) : carryRedis name old new = new := by
  unfold carryRedis
  split
  · rename_i hkeys
    split
    · rfl
    · rename_i v hredis
      exact if_neg fun hv => h v ⟨hkeys.1, hkeys.2.2, hredis, hv⟩
  · rfl

theorem keys_carryRedis : (carryRedis name old new).keys = new.keys := by
  by_cases h : ∃ v, Carried name old new v
  · obtain ⟨v, hv⟩ := h
    rw [carryRedis_of_carried name hv, OrderedDict.keys_set, if_pos hv.1]
  · rw [carryRedis_of_not name fun v hv => h ⟨v, hv⟩]

/-- An old value goes before a new one, cleaning or not. -/
theorem get?_mergepwd {clean : Bool} {k : K} (hk : k ∈ (mergepwd name old new clean).keys) :
    (mergepwd name old new clean).get? k = (old.get? k).or ((carryRedis name old new).get? k) := by
  cases clean with
  | false => exact OrderedDict.get?_update ..
  | true =>
    have hkeys : (mergepwd name old new true).keys = (carryRedis name old new).keys :=
      OrderedDict.keys_assign _ (List.Subset.refl _)
    have hget := OrderedDict.get?_assign old.get? (carryRedis name old new).keys
      (carryRedis name old new) k
    rw [if_pos (hkeys ▸ hk)] at hget
    exact hget

theorem mem_keys_mergepwd {clean : Bool} {k : K} :
    k ∈ (mergepwd name old new clean).keys ↔ k ∈ new.keys ∨ clean = false ∧ k ∈ old.keys := by
  cases clean with
  | false =>
    have hkeys : (mergepwd name old new false).keys = _ := OrderedDict.keys_update ..
    rw [hkeys, OrderedDict.mem_firsts, List.mem_append, keys_carryRedis]
    simp
  | true =>
    have hkeys : (mergepwd name old new true).keys = (carryRedis name old new).keys :=
      OrderedDict.keys_assign _ (List.Subset.refl _)
    rw [hkeys, keys_carryRedis]
    simp

theorem mergepwd_merged (old new : OrderedDict K Value) (clean : Bool) :
    Merged name old new clean (mergepwd name old new clean) := by
  refine ⟨fun k => mem_keys_mergepwd name, fun k hk v hv => ?_, fun v hv => ?_,
    fun k hk hold hcarried => ?_⟩
  · rw [get?_mergepwd name hk, hv]
    rfl
  · have hk : name "valkey_master_password" ∈ (mergepwd name old new clean).keys :=
      (mem_keys_mergepwd name).mpr (.inl hv.1)
    rw [get?_mergepwd name hk, OrderedDict.get?_eq_none.mpr hv.2.1, carryRedis_of_carried name hv,
      OrderedDict.get?_set_self]
    rfl
  · rw [get?_mergepwd name hk, OrderedDict.get?_eq_none.mpr hold, Option.none_or]
    by_cases h : ∃ v, Carried name old new v
    · obtain ⟨v, hv⟩ := h
      rw [carryRedis_of_carried name hv, OrderedDict.get?_set_of_ne]
      exact fun hkey => hcarried hkey v hv
    · rw [carryRedis_of_not name fun v hv => h ⟨v, hv⟩]

theorem merged_sshEntries {merged : OrderedDict K Value} {clean : Bool}
    (hmerged : Merged name old new clean merged) (hold : SshEntries (keyClasses name) old)
    (hnew : SshEntries (keyClasses name) new) : SshEntries (keyClasses name) merged := by
  intro k hk v hv
  have hmem : k ∈ merged.keys := OrderedDict.mem_keys.mpr ⟨v, hv⟩
  by_cases hkey : k ∈ old.keys
  · obtain ⟨w, hw⟩ := OrderedDict.mem_keys.mp hkey
    have hvw := hmerged.kept k hmem w hw
    cases hv.symm.trans hvw
    exact hold k hk v hw
  · have hvalkey : k ≠ name "valkey_master_password" := by
      rintro rfl
      simp [keyClasses] at hk
    rw [hmerged.template k hmem hkey fun h => absurd h hvalkey] at hv
    exact hnew k hk v hv

end Merge

/-! ## The generation -/

section Generate

variable {classes supply length}

theorem isNone_iff {v : Value} : isNone v = true ↔ v = .none := by
  cases v <;> simp [isNone]

theorem pairMissing_iff {v : Value} (hv : v = .none ∨ ∃ kvs, v = .dict kvs) :
    ∃ missing, pairMissing v = .ok missing ∧ (missing = true ↔ v = .none ∨
      ∃ kvs, v = .dict kvs ∧ entry kvs "public_key" = .none ∧ entry kvs "private_key" = .none) := by
  rcases hv with rfl | ⟨kvs, rfl⟩
  · exact ⟨true, rfl, by simp⟩
  · refine ⟨isNone (entry kvs "public_key") && isNone (entry kvs "private_key"), ?_, ?_⟩
    · change (if isNone (entry kvs "public_key") then _ else _) = _
      cases isNone (entry kvs "public_key") <;> rfl
    · simp [isNone_iff]

/-- What happens to one entry. -/
theorem replacement_eq (supply : Supply K) (length : Nat) {k : K} {v : Value}
    (hssh : k ∈ classes.ssh → v = .none ∨ ∃ kvs, v = .dict kvs) :
    (Null classes k v ∧ k ∉ classes.blank → replacement classes supply length k v =
        .ok (some (generatedValue classes supply length k))) ∧
      (¬ (Null classes k v ∧ k ∉ classes.blank) →
        replacement classes supply length k v = .ok Option.none) := by
  by_cases hk : k ∈ classes.ssh
  · have hblank : k ∉ classes.blank := fun h => classes.blank_not_ssh k h hk
    obtain ⟨missing, hrun, hiff⟩ := pairMissing_iff (hssh hk)
    have hnull : Null classes k v ↔ missing = true := by
      rw [hiff, Null]
      simp [hk]
    rw [and_iff_left hblank, hnull, replacement, if_pos hk, hrun]
    constructor
    · rintro rfl
      rw [generatedValue, if_pos hk]
      rfl
    · intro hmissing
      have hnone : isNone v = false := by
        by_contra h
        have hv : v = .none := isNone_iff.mp (by simpa using h)
        exact hmissing (hiff.mpr (.inl hv))
      cases missing with
      | true => exact absurd rfl hmissing
      | false =>
        change (if isNone v then _ else _) = _
        rw [hnone]
        rfl
  · have hnull : Null classes k v ↔ isNone v = true := by
      rw [isNone_iff, Null]
      simp [hk]
    rw [hnull, replacement, if_neg hk, generatedValue, if_neg hk]
    change (_ → (if isNone v then _ else _) = _) ∧ (_ → (if isNone v then _ else _) = _)
    constructor
    · rintro ⟨hv, hblank⟩
      rw [if_pos hv, if_neg hblank]
      rfl
    · intro h
      split
      · rename_i hv
        have hblank : k ∈ classes.blank := by
          by_contra hblank
          exact h ⟨hv, hblank⟩
        rw [if_pos hblank]
        rfl
      · rfl

/-- The loop sets its keys to what it finds for each of them. -/
theorem generateKeys_eq {f : K → Option Value} {entries : List (K × Value)}
    (hf : ∀ e ∈ entries, replacement classes supply length e.1 e.2 = .ok (f e.1))
    (passwords : OrderedDict K Value) :
    generateKeys classes supply length passwords entries =
      .ok (passwords.assign f (entries.map Prod.fst)) := by
  induction entries generalizing passwords with
  | nil => rfl
  | cons e entries ih =>
    obtain ⟨hfirst, hrest⟩ := List.forall_mem_cons.mp hf
    rw [generateKeys, hfirst, List.map_cons, OrderedDict.assign, List.foldl_cons]
    change (match f e.1 with
      | Option.none => _
      | some _ => _) = _
    cases f e.1 with
    | none => exact ih hrest passwords
    | some v => exact ih hrest (passwords.set e.1 v)

theorem generatedValue_not_null (k : K) :
    ¬ Null classes k (generatedValue classes supply length k) := by
  unfold generatedValue
  split
  · rintro (h | ⟨_, kvs, h, hpublic, _⟩)
    · cases h
    · injection h with h
      rw [← h] at hpublic
      cases hpublic
  · rename_i hk
    rintro (h | ⟨hssh, _⟩)
    · unfold generated at h
      split at h
      · cases h
      · split at h
        · cases h
        · split at h
          · cases h
          · split at h <;> cases h
    · exact hk hssh

open Classical in
/-- **What `genpwd` does.** -/
theorem genpwd_generates (supply : Supply K) (length : Nat) {passwords : OrderedDict K Value}
    (hssh : SshEntries classes passwords) :
    ∃ result, genpwd classes supply length passwords = .ok result ∧
      Generated classes supply length passwords result := by
  let f : K → Option Value := fun k =>
    if ∃ v, passwords.get? k = some v ∧ Null classes k v ∧ k ∉ classes.blank then
      some (generatedValue classes supply length k) else Option.none
  have hf : ∀ e ∈ passwords.entries, replacement classes supply length e.1 e.2 = .ok (f e.1) := by
    intro e he
    have hget := OrderedDict.mem_entries.mp he
    have heq := replacement_eq supply length fun hk => hssh e.1 hk e.2 hget
    have hiff :
        (∃ v, passwords.get? e.1 = some v ∧ Null classes e.1 v ∧ e.1 ∉ classes.blank) ↔
          Null classes e.1 e.2 ∧ e.1 ∉ classes.blank := by
      rw [hget]
      simp
    by_cases h : Null classes e.1 e.2 ∧ e.1 ∉ classes.blank
    · rw [heq.1 h]
      exact congrArg Except.ok (if_pos (hiff.mpr h)).symm
    · rw [heq.2 h]
      exact congrArg Except.ok (if_neg (hiff.not.mpr h)).symm
  refine ⟨passwords.assign f passwords.keys, generateKeys_eq hf passwords, ?_⟩
  have hkeys : (passwords.assign f passwords.keys).keys = passwords.keys :=
    OrderedDict.keys_assign f (List.Subset.refl _)
  have hget : ∀ k v, passwords.get? k = some v →
      (passwords.assign f passwords.keys).get? k = (f k).or (some v) := by
    intro k v hv
    rw [OrderedDict.get?_assign, if_pos (OrderedDict.mem_keys.mpr ⟨v, hv⟩), hv]
  refine ⟨fun k => by rw [hkeys], fun k v hv hnull => ?_, fun k hk hv => ?_,
    fun k v hv hnull hblank => ?_⟩
  · have hnone : f k = Option.none := by
      refine if_neg ?_
      rintro ⟨w, hw, hnull', _⟩
      cases hv.symm.trans hw
      exact hnull hnull'
    rw [hget k v hv, hnone, Option.none_or]
  · have hnone : f k = Option.none := by
      refine if_neg ?_
      rintro ⟨_, _, _, hblank⟩
      exact hblank hk
    rw [hget k _ hv, hnone, Option.none_or]
  · have hsome : f k = some (generatedValue classes supply length k) :=
      if_pos ⟨v, hv, hnull, hblank⟩
    rw [hget k v hv, hsome, Option.some_or]

/-- What was generated is not null, and every null that is left stays blank. -/
theorem generated_complete {before after : OrderedDict K Value}
    (h : Generated classes supply length before after) {k : K} {v : Value}
    (hv : after.get? k = some v) (hnull : Null classes k v) : k ∈ classes.blank ∧ v = .none := by
  obtain ⟨w, hw⟩ := OrderedDict.mem_keys.mp ((h.keys k).mp (OrderedDict.mem_keys.mpr ⟨v, hv⟩))
  by_cases hwnull : Null classes k w
  · by_cases hblank : k ∈ classes.blank
    · refine ⟨hblank, ?_⟩
      rcases hnull with hnone | ⟨hssh, _⟩
      · exact hnone
      · exact absurd hssh (classes.blank_not_ssh k hblank)
    · have hfilled := h.filled k w hw hwnull hblank
      cases hv.symm.trans hfilled
      exact absurd hnull (generatedValue_not_null k)
  · have hkept := h.kept k w hw hwnull
    cases hv.symm.trans hkept
    exact absurd hnull hwnull

theorem generated_sshEntries {before after : OrderedDict K Value}
    (h : Generated classes supply length before after) (hssh : SshEntries classes before) :
    SshEntries classes after := by
  intro k hk v hv
  obtain ⟨w, hw⟩ := OrderedDict.mem_keys.mp ((h.keys k).mp (OrderedDict.mem_keys.mpr ⟨v, hv⟩))
  by_cases hnull : Null classes k w
  · have hfilled := h.filled k w hw hnull fun hblank => classes.blank_not_ssh k hblank hk
    cases hv.symm.trans hfilled
    rw [generatedValue, if_pos hk]
    exact .inr ⟨_, rfl⟩
  · have hkept := h.kept k w hw hnull
    cases hv.symm.trans hkept
    exact hssh k hk v hw

/-- Where only blank keys are null, nothing is generated. -/
theorem generated_unchanged {before after : OrderedDict K Value}
    (h : Generated classes supply length before after)
    (hnull : ∀ k v, before.get? k = some v → Null classes k v → k ∈ classes.blank ∧ v = .none) :
    Loads before after := by
  intro k
  cases hget : before.get? k with
  | none =>
    rw [OrderedDict.get?_eq_none, h.keys, ← OrderedDict.get?_eq_none]
    exact hget
  | some v =>
    by_cases hv : Null classes k v
    · obtain ⟨hblank, rfl⟩ := hnull k v hget hv
      exact h.blank k hblank hget
    · exact h.kept k v hget hv

theorem Loads.sshEntries {written loaded : OrderedDict K Value} (h : Loads written loaded)
    (hssh : SshEntries classes written) : SshEntries classes loaded := by
  intro k hk v hv
  rw [h k] at hv
  exact hssh k hk v hv

end Generate

/-! ## The upgrade -/

/-- **An upgrade changes no secret.** The merge keeps every old password; the generation fills in
what is missing, for any supply, and a second one changes nothing. -/
theorem upgrade_keeps_secrets {old new : OrderedDict K Value} (clean : Bool)
    (hold : SshEntries (keyClasses name) old) (hnew : SshEntries (keyClasses name) new) :
    Merged name old new clean (mergepwd name old new clean) ∧
      ∀ loaded, Loads (mergepwd name old new clean) loaded → ∀ supply : Supply K, ∃ result,
        genpwd (keyClasses name) supply 40 loaded = .ok result ∧
        Generated (keyClasses name) supply 40 loaded result ∧
        (∀ k, ¬ Null (keyClasses name) k (generatedValue (keyClasses name) supply 40 k)) ∧
        ∀ again, Loads result again → ∀ supply' : Supply K, ∃ final,
          genpwd (keyClasses name) supply' 40 again = .ok final ∧ Loads again final := by
  have hmerged := mergepwd_merged name old new clean
  refine ⟨hmerged, fun loaded hloaded supply => ?_⟩
  have hssh := hloaded.sshEntries (merged_sshEntries name hmerged hold hnew)
  obtain ⟨result, hrun, hgen⟩ := genpwd_generates supply 40 hssh
  refine ⟨result, hrun, hgen, generatedValue_not_null, fun again hagain supply' => ?_⟩
  have hssh' := hagain.sshEntries (generated_sshEntries hgen hssh)
  obtain ⟨final, hrun', hgen'⟩ := genpwd_generates supply' 40 hssh'
  refine ⟨final, hrun', generated_unchanged hgen' fun k v hv hnull => ?_⟩
  rw [hagain k] at hv
  exact generated_complete hgen hv hnull

def oldPasswords : OrderedDict String Value :=
  .ofList [("redis_master_password", .str "pw"), ("nova_ssh_key", .none)]

def newPasswords : OrderedDict String Value :=
  .ofList [("valkey_master_password", .none),
    ("nova_ssh_key", .dict [(.str "private_key", .none), (.str "public_key", .none)])]

theorem upgrade_carries_redis :
    (mergepwd (.refl String) oldPasswords newPasswords true).get? "valkey_master_password" =
      some (.str "pw") := by
  have hold : SshEntries (keyClasses (.refl String)) oldPasswords := by
    intro k hk v hv
    rw [← OrderedDict.mem_entries] at hv
    have hentries : (k, v) = ("redis_master_password", .str "pw") ∨
        (k, v) = ("nova_ssh_key", .none) := by
      simpa using OrderedDict.mem_of_mem_ofList hv
    rcases hentries with h | h <;> injection h with hkey hvalue
    · subst hkey
      simp [keyClasses] at hk
    · exact .inl hvalue
  have hnew : SshEntries (keyClasses (.refl String)) newPasswords := by
    intro k _ v hv
    rw [← OrderedDict.mem_entries] at hv
    have hentries := OrderedDict.mem_of_mem_ofList hv
    simp only [List.mem_cons, Prod.mk.injEq, List.not_mem_nil, or_false] at hentries
    rcases hentries with ⟨_, hvalue⟩ | ⟨_, hvalue⟩
    · exact .inl hvalue
    · exact .inr ⟨_, hvalue⟩
  exact (upgrade_keeps_secrets (.refl String) true hold hnew).1.carried (.str "pw")
    ⟨by decide, by decide, rfl, rfl⟩

end Passwords
end KollaPowerOps
