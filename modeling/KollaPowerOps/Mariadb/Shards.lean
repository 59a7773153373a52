import KollaPowerOps.Lib.OrderedDict
import KollaPowerOps.Lib.PyValue

/-!
# Mariadb.Shards

`database_shards_info`: the shards of the database hosts, and the users of each shard.

* `addHost`, `databaseShardsInfo` : the pass over the hosts.
* `Sharded`                       : the shards partition the hosts and each has its users.
* `sharded_iff`                   : the passwords that this needs.

`str` and `toBool` are those of the interpreter and of the filter `bool`.
-/

namespace KollaPowerOps
namespace Mariadb

abbrev Text := List Char

/-- What is read of the variables of a host; `none` is not there or null. -/
structure ShardVars (V : Type) where
  mariadbShardId : Option V := none
  enableMariabackup : Option V := none
  databasePassword : Option V := none
  mariadbShardRootUserPrefix : Option V := none
  mariadbShardBackupUserPrefix : Option V := none
  mariadbBackupDatabasePassword : Option V := none

structure ShardUser (V : Type) where
  password : Option V
  user : Text
  shardId : Text

structure ShardsInfo (V : Type) where
  shards : OrderedDict Text (List Text)
  users : List (ShardUser V)

structure FilterError where
  message : Text

section Shards

variable {V : Type} (str : V → Text) (toBool : V → Bool) (hostvars : Text → Option (ShardVars V))

def need {α : Type} (x : Option α) (message : Text) : Except FilterError α :=
  match x with
  | none => .error ⟨message⟩
  | some a => .ok a

def unavailable (name : Text) : Text := '\'' :: name ++ "' variable is unavailable".toList

def quoted (name : Text) : Text := '\'' :: name ++ ['\'']

/-- The users that come with the first host of a shard. -/
def firstUsers (host : ShardVars V) (shardId : Text) : Except FilterError (List (ShardUser V)) := do
  let backupEnabled ← need host.enableMariabackup (unavailable "enable_mariabackup".toList)
  let dbPassword ← need host.databasePassword (unavailable "database_password".toList)
  let dbRootPrefix ← need host.mariadbShardRootUserPrefix
    (unavailable "mariadb_shard_root_user_prefix".toList)
  let root : ShardUser V := ⟨some dbPassword, str dbRootPrefix ++ shardId, shardId⟩
  if toBool backupEnabled then
    let dbBackupPrefix ← need host.mariadbShardBackupUserPrefix
      (unavailable "mariadb_shard_backup_user_prefix".toList)
    pure [root, ⟨host.mariadbBackupDatabasePassword, str dbBackupPrefix ++ shardId, shardId⟩]
  else
    pure [root]

/-- One pass of the loop. -/
def addHost (info : ShardsInfo V) (hostname : Text) : Except FilterError (ShardsInfo V) := do
  let host ← need (hostvars hostname) (quoted hostname ++ " not in 'hostvars'".toList)
  let id ← need host.mariadbShardId
    ("'mariadb_shard_id' is undefined for host ".toList ++ quoted hostname)
  let hostShardId := str id
  match info.shards.get? hostShardId with
  | none =>
    let users ← firstUsers str toBool host hostShardId
    pure ⟨info.shards.set hostShardId [hostname], info.users ++ users⟩
  | some hosts => pure ⟨info.shards.set hostShardId (hosts ++ [hostname]), info.users⟩

def addHosts : List Text → ShardsInfo V → Except FilterError (ShardsInfo V)
  | [], info => .ok info
  | hostname :: hostnames, info => do
    let info ← addHost str toBool hostvars info hostname
    addHosts hostnames info

def databaseShardsInfo (hostnames : List Text) : Except FilterError (ShardsInfo V) :=
  addHosts str toBool hostvars hostnames ⟨.empty, []⟩

/-! ## The partition -/

/-- `mariadb_shard_id` of a host, as a text. -/
def shardOf (hostname : Text) : Option Text :=
  ((hostvars hostname).bind ShardVars.mariadbShardId).map str

/-- The hosts of a shard, in their order. -/
def shardHosts (hostnames : List Text) (id : Text) : List Text :=
  hostnames.filter fun hostname => shardOf str hostvars hostname = some id

def backsUp (host : ShardVars V) : Bool := host.enableMariabackup.any toBool

def rootUser (host : ShardVars V) (id : Text) : ShardUser V where
  password := host.databasePassword
  user := (host.mariadbShardRootUserPrefix.map str).getD [] ++ id
  shardId := id

def backupUser (host : ShardVars V) (id : Text) : ShardUser V where
  password := host.mariadbBackupDatabasePassword
  user := (host.mariadbShardBackupUserPrefix.map str).getD [] ++ id
  shardId := id

/-- The users of a shard, by its first host. -/
def shardUsers (host : ShardVars V) (id : Text) : List (ShardUser V) :=
  rootUser str host id :: if backsUp toBool host then [backupUser str host id] else []

/-- The variables of the first host of a shard. -/
def firstVars (hostnames : List Text) (id : Text) : Option (ShardVars V) :=
  (shardHosts str hostvars hostnames id).head?.bind hostvars

def usersOf (hostnames : List Text) (id : Text) : List (ShardUser V) :=
  match firstVars str hostvars hostnames id with
  | none => []
  | some host => shardUsers str toBool host id

/-- Every host stands in the shard that it names and in no other, in its order and with no shard
empty, and the users are those of the shards. -/
structure Partitioned (hostnames : List Text) (info : ShardsInfo V) : Prop where
  every : ∀ hostname ∈ hostnames, ∃ id, shardOf str hostvars hostname = some id
  shards : ∀ id, info.shards.get? id =
    if shardHosts str hostvars hostnames id = [] then none
    else some (shardHosts str hostvars hostnames id)
  users : info.users = info.shards.keys.flatMap (usersOf str toBool hostvars hostnames)

/-- All users have a password besides. -/
structure Sharded (hostnames : List Text) (info : ShardsInfo V) : Prop
    extends Partitioned str toBool hostvars hostnames info where
  passwords : ∀ user ∈ info.users, user.password.isSome = true

/-- Each shard whose first host enables the backup has the password of the backup there. -/
def BackupPasswords (hostnames : List Text) : Prop :=
  ∀ id host, firstVars str hostvars hostnames id = some host → backsUp toBool host = true →
    host.mariadbBackupDatabasePassword.isSome = true

variable {str toBool hostvars}

theorem need_ok {α : Type} {x : Option α} {message : Text} {a : α} :
    need x message = .ok a ↔ x = some a := by
  cases x with
  | none => simp [need]
  | some b => simp [need]

theorem firstUsers_ok {host : ShardVars V} {id : Text} {users : List (ShardUser V)}
    (h : firstUsers str toBool host id = .ok users) :
    users = shardUsers str toBool host id ∧ host.databasePassword.isSome = true := by
  obtain ⟨enabled, henabled, h⟩ := pyBind_ok.mp h
  obtain ⟨password, hpassword, h⟩ := pyBind_ok.mp h
  obtain ⟨root, hroot, h⟩ := pyBind_ok.mp h
  rw [need_ok] at henabled hpassword hroot
  refine ⟨?_, by rw [hpassword, Option.isSome_some]⟩
  rw [shardUsers, rootUser, backsUp, henabled, hpassword, hroot, Option.any_some]
  split at h
  · rename_i htrue
    obtain ⟨backup, hbackup, h⟩ := pyBind_ok.mp h
    rw [need_ok] at hbackup
    rw [if_pos htrue, backupUser, hbackup]
    exact (Except.ok.inj h).symm
  · rename_i hfalse
    rw [if_neg hfalse]
    exact (Except.ok.inj h).symm

/-- What one pass of the loop does: it opens the shard of the host, or adds the host to it. -/
theorem addHost_ok {info info' : ShardsInfo V} {hostname : Text}
    (h : addHost str toBool hostvars info hostname = .ok info') :
    ∃ host id, hostvars hostname = some host ∧ shardOf str hostvars hostname = some id ∧
      ((info.shards.get? id = none ∧ host.databasePassword.isSome = true ∧
          info' = ⟨info.shards.set id [hostname], info.users ++ shardUsers str toBool host id⟩) ∨
        ∃ hosts, info.shards.get? id = some hosts ∧
          info' = ⟨info.shards.set id (hosts ++ [hostname]), info.users⟩) := by
  obtain ⟨host, hhost, h⟩ := pyBind_ok.mp h
  obtain ⟨shardId, hid, h⟩ := pyBind_ok.mp h
  rw [need_ok] at hhost hid
  have hshard : shardOf str hostvars hostname = some (str shardId) := by
    rw [shardOf, hhost, Option.bind_some, hid, Option.map_some]
  refine ⟨host, str shardId, hhost, hshard, ?_⟩
  dsimp only at h
  split at h
  · rename_i hnew
    obtain ⟨users, husers, h⟩ := pyBind_ok.mp h
    obtain ⟨rfl, hpassword⟩ := firstUsers_ok husers
    exact .inl ⟨hnew, hpassword, (Except.ok.inj h).symm⟩
  · rename_i hosts hold
    exact .inr ⟨hosts, hold, (Except.ok.inj h).symm⟩

/-! ## The shards of some hosts, and of one more -/

theorem shardHosts_snoc (hostnames : List Text) (hostname id : Text) :
    shardHosts str hostvars (hostnames ++ [hostname]) id =
      shardHosts str hostvars hostnames id ++
        if shardOf str hostvars hostname = some id then [hostname] else [] := by
  rw [shardHosts, List.filter_append, List.filter_singleton, Bool.cond_decide]
  rfl

theorem shardHosts_snoc_ne (hostnames : List Text) {hostname id id' : Text}
    (hid : shardOf str hostvars hostname = some id) (hne : id' ≠ id) :
    shardHosts str hostvars (hostnames ++ [hostname]) id' =
      shardHosts str hostvars hostnames id' := by
  rw [shardHosts_snoc, hid, if_neg fun h => hne (Option.some.inj h).symm, List.append_nil]

theorem shardHosts_snoc_self (hostnames : List Text) {hostname id : Text}
    (hid : shardOf str hostvars hostname = some id) :
    shardHosts str hostvars (hostnames ++ [hostname]) id =
      shardHosts str hostvars hostnames id ++ [hostname] := by
  rw [shardHosts_snoc, if_pos hid]

/-- The first host of a shard stays the first. -/
theorem firstVars_snoc {hostnames : List Text} {id : Text} (hostname : Text)
    (hid : shardHosts str hostvars hostnames id ≠ []) :
    firstVars str hostvars (hostnames ++ [hostname]) id = firstVars str hostvars hostnames id := by
  rw [firstVars, shardHosts_snoc, List.head?_append_of_ne_nil _ hid]
  rfl

theorem firstVars_new {hostnames : List Text} {hostname id : Text}
    (hid : shardOf str hostvars hostname = some id)
    (hnew : shardHosts str hostvars hostnames id = []) :
    firstVars str hostvars (hostnames ++ [hostname]) id = hostvars hostname := by
  rw [firstVars, shardHosts_snoc_self _ hid, hnew]
  rfl

theorem usersOf_snoc {hostnames : List Text} {id : Text} (hostname : Text)
    (hid : shardHosts str hostvars hostnames id ≠ []) :
    usersOf str toBool hostvars (hostnames ++ [hostname]) id =
      usersOf str toBool hostvars hostnames id := by
  rw [usersOf, firstVars_snoc hostname hid]
  rfl

theorem shardHosts_ne_nil {hostnames : List Text} {id : Text} {host : ShardVars V}
    (h : firstVars str hostvars hostnames id = some host) :
    shardHosts str hostvars hostnames id ≠ [] := by
  intro hnil
  rw [firstVars, hnil] at h
  cases h

theorem Partitioned.mem_keys {hostnames : List Text} {info : ShardsInfo V}
    (h : Partitioned str toBool hostvars hostnames info) {id : Text} :
    id ∈ info.shards.keys ↔ shardHosts str hostvars hostnames id ≠ [] := by
  rw [← not_iff_not, ← OrderedDict.get?_eq_none, h.shards, not_not]
  split
  · rename_i hnil
    exact iff_of_true rfl hnil
  · rename_i hne
    exact iff_of_false (by simp) hne

/-- A pass of the loop keeps the grouping of the hosts before it. -/
theorem Partitioned.step {hostnames : List Text} {info info' : ShardsInfo V} {hostname : Text}
    (hinfo : Partitioned str toBool hostvars hostnames info)
    (h : addHost str toBool hostvars info hostname = .ok info') :
    Partitioned str toBool hostvars (hostnames ++ [hostname]) info' := by
  obtain ⟨host, id, hhost, hid, hcases⟩ := addHost_ok h
  have hevery : ∀ name ∈ hostnames ++ [hostname], ∃ id, shardOf str hostvars name = some id := by
    refine List.forall_mem_append.mpr ⟨hinfo.every, ?_⟩
    rintro name hname
    rw [List.mem_singleton.mp hname]
    exact ⟨id, hid⟩
  have hshards : ∀ hosts, hosts = shardHosts str hostvars hostnames id ++ [hostname] → ∀ id',
      (info.shards.set id hosts).get? id' =
        if shardHosts str hostvars (hostnames ++ [hostname]) id' = [] then none
        else some (shardHosts str hostvars (hostnames ++ [hostname]) id') := by
    rintro hosts rfl id'
    by_cases hne : id' = id
    · subst hne
      rw [OrderedDict.get?_set_self, shardHosts_snoc_self _ hid,
        if_neg (List.append_ne_nil_of_right_ne_nil _ (List.cons_ne_nil _ _))]
    · rw [OrderedDict.get?_set_of_ne _ hne, shardHosts_snoc_ne _ hid hne, hinfo.shards]
  -- The users of the shards that are there do not change: their first hosts do not.
  have hold : ∀ keys : List Text, (∀ key ∈ keys, key ∈ info.shards.keys) →
      keys.flatMap (usersOf str toBool hostvars (hostnames ++ [hostname])) =
        keys.flatMap (usersOf str toBool hostvars hostnames) := fun keys hkeys =>
    List.flatMap_congr fun key hkey => usersOf_snoc hostname (hinfo.mem_keys.mp (hkeys key hkey))
  have hget := hinfo.shards id
  rcases hcases with ⟨hnone, -, rfl⟩ | ⟨hosts, hsome, rfl⟩
  · rw [hnone] at hget
    have hnil : shardHosts str hostvars hostnames id = [] := by
      by_contra hne
      rw [if_neg hne] at hget
      cases hget
    refine ⟨hevery, hshards _ (by rw [hnil, List.nil_append]), ?_⟩
    have hout : id ∉ info.shards.keys := OrderedDict.get?_eq_none.mp hnone
    dsimp only
    rw [OrderedDict.keys_set, if_neg hout, List.flatMap_append, hold _ fun _ hkey => hkey,
      hinfo.users, List.flatMap_singleton, usersOf, firstVars_new hid hnil, hhost]
  · rw [hsome] at hget
    have hne : shardHosts str hostvars hostnames id ≠ [] := by
      intro hnil
      rw [if_pos hnil] at hget
      cases hget
    rw [if_neg hne] at hget
    refine ⟨hevery, hshards _ (by rw [Option.some.inj hget]), ?_⟩
    have hin : id ∈ info.shards.keys := hinfo.mem_keys.mpr hne
    dsimp only
    rw [OrderedDict.keys_set, if_pos hin, hold _ fun _ hkey => hkey, hinfo.users]

/-- The password of the root is looked at when a shard is opened. -/
def RootPasswords (str : V → Text) (hostvars : Text → Option (ShardVars V))
    (hostnames : List Text) : Prop :=
  ∀ id host, firstVars str hostvars hostnames id = some host → host.databasePassword.isSome = true

theorem RootPasswords.step {hostnames : List Text} {info info' : ShardsInfo V} {hostname : Text}
    (hinfo : Partitioned str toBool hostvars hostnames info)
    (hroots : RootPasswords str hostvars hostnames)
    (h : addHost str toBool hostvars info hostname = .ok info') :
    RootPasswords str hostvars (hostnames ++ [hostname]) := by
  obtain ⟨host, id, hhost, hid, hcases⟩ := addHost_ok h
  intro id' host' hfirst
  by_cases hnil : shardHosts str hostvars hostnames id' = []
  · by_cases hne : id' = id
    · subst hne
      rw [firstVars_new hid hnil, hhost] at hfirst
      have hget := hinfo.shards id'
      rw [if_pos hnil] at hget
      rcases hcases with ⟨-, hpassword, -⟩ | ⟨hosts, hsome, -⟩
      · rwa [← Option.some.inj hfirst]
      · rw [hget] at hsome
        cases hsome
    · rw [firstVars, shardHosts_snoc_ne _ hid hne, hnil] at hfirst
      cases hfirst
  · rw [firstVars_snoc hostname hnil] at hfirst
    exact hroots id' host' hfirst

theorem addHosts_partitioned {hostnames rest : List Text} {info info' : ShardsInfo V}
    (hinfo : Partitioned str toBool hostvars hostnames info)
    (hroots : RootPasswords str hostvars hostnames)
    (h : addHosts str toBool hostvars rest info = .ok info') :
    Partitioned str toBool hostvars (hostnames ++ rest) info' ∧
      RootPasswords str hostvars (hostnames ++ rest) := by
  induction rest generalizing hostnames info with
  | nil =>
    cases h
    rw [List.append_nil]
    exact ⟨hinfo, hroots⟩
  | cons hostname rest ih =>
    obtain ⟨next, hnext, h⟩ := pyBind_ok.mp h
    rw [List.append_cons]
    exact ih (hinfo.step hnext) (RootPasswords.step hinfo hroots hnext) h

theorem databaseShardsInfo_partitioned {hostnames : List Text} {info : ShardsInfo V}
    (h : databaseShardsInfo str toBool hostvars hostnames = .ok info) :
    Partitioned str toBool hostvars hostnames info ∧ RootPasswords str hostvars hostnames := by
  refine @addHosts_partitioned V str toBool hostvars [] hostnames _ _ ⟨?_, ?_, rfl⟩ ?_ h
  · rintro hostname hmem
    cases hmem
  · intro id
    rfl
  · intro id host hfirst
    cases hfirst

/-! ## The passwords of the users -/

theorem shardUsers_passwords {host : ShardVars V} (hroot : host.databasePassword.isSome = true)
    (id : Text) : (∀ user ∈ shardUsers str toBool host id, user.password.isSome = true) ↔
      (backsUp toBool host = true → host.mariadbBackupDatabasePassword.isSome = true) := by
  rw [shardUsers, List.forall_mem_cons, and_iff_right (by exact hroot)]
  split
  · rename_i htrue
    simp [backupUser, htrue]
  · rename_i hfalse
    simp [hfalse]

theorem Partitioned.passwords_iff {hostnames : List Text} {info : ShardsInfo V}
    (hinfo : Partitioned str toBool hostvars hostnames info)
    (hroots : RootPasswords str hostvars hostnames) :
    (∀ user ∈ info.users, user.password.isSome = true) ↔
      BackupPasswords str toBool hostvars hostnames := by
  rw [hinfo.users]
  constructor
  · intro h id host hfirst
    have hiff := @shardUsers_passwords V str toBool host (hroots id host hfirst) id
    refine hiff.mp fun user huser => ?_
    refine h user (List.mem_flatMap.mpr ⟨id, hinfo.mem_keys.mpr (shardHosts_ne_nil hfirst), ?_⟩)
    rw [usersOf, hfirst]
    exact huser
  · intro h user huser
    obtain ⟨id, -, huser⟩ := List.mem_flatMap.mp huser
    rw [usersOf] at huser
    split at huser
    · cases huser
    · rename_i host hfirst
      have hiff := @shardUsers_passwords V str toBool host (hroots id host hfirst) id
      exact hiff.mpr (h id host hfirst) user huser

/-- Of the passwords only that of the backup is not looked at. -/
theorem sharded_iff (hostnames : List Text) (info : ShardsInfo V)
    (h : databaseShardsInfo str toBool hostvars hostnames = .ok info) :
    Sharded str toBool hostvars hostnames info ↔
      BackupPasswords str toBool hostvars hostnames := by
  obtain ⟨hpartition, hroots⟩ := databaseShardsInfo_partitioned h
  rw [← hpartition.passwords_iff hroots]
  exact ⟨fun hsharded => hsharded.passwords, fun hpasswords => ⟨hpartition, hpasswords⟩⟩

end Shards

/-! ## Two hosts of a shard -/

def exampleVars (password : Option Text) : ShardVars Text where
  mariadbShardId := some "0".toList
  enableMariabackup := some "yes".toList
  databasePassword := some "secret".toList
  mariadbShardRootUserPrefix := some "root_shard_".toList
  mariadbShardBackupUserPrefix := some "backup_shard_".toList
  mariadbBackupDatabasePassword := password

def exampleHosts : List Text := ["controller0".toList, "controller1".toList]

def yes (value : Text) : Bool := value = "yes".toList

def exampleInfo (password : Option Text) : ShardsInfo Text where
  shards := OrderedDict.empty.set "0".toList exampleHosts
  users := [⟨some "secret".toList, "root_shard_0".toList, "0".toList⟩,
    ⟨password, "backup_shard_0".toList, "0".toList⟩]

theorem example_shards (password : Option Text) :
    databaseShardsInfo id yes (fun _ => some (exampleVars password)) exampleHosts =
      .ok (exampleInfo password) := by
  rfl

theorem two_hosts_sharded :
    databaseShardsInfo id yes (fun _ => some (exampleVars (some "dump".toList))) exampleHosts =
        .ok (exampleInfo (some "dump".toList)) ∧
      Sharded id yes (fun _ => some (exampleVars (some "dump".toList))) exampleHosts
        (exampleInfo (some "dump".toList)) := by
  refine ⟨example_shards _, (sharded_iff exampleHosts _ (example_shards _)).mpr ?_⟩
  intro id host hfirst _
  obtain ⟨name, -, hname⟩ := Option.bind_eq_some_iff.mp hfirst
  rw [← Option.some.inj hname]
  rfl

/-- The backup is enabled, and no password of it is set: the shard gets a backup user all the same,
without one. -/
theorem backup_without_password :
    exampleHosts.Nodup ∧
      databaseShardsInfo id yes (fun _ => some (exampleVars none)) exampleHosts =
        .ok (exampleInfo none) ∧
      ¬ Sharded id yes (fun _ => some (exampleVars none)) exampleHosts (exampleInfo none) := by
  refine ⟨by decide, example_shards _, fun h => ?_⟩
  have hbackup : (⟨none, "backup_shard_0".toList, "0".toList⟩ : ShardUser Text) ∈
      (exampleInfo none).users := by simp [exampleInfo]
  cases h.passwords _ hbackup

end Mariadb
end KollaPowerOps
