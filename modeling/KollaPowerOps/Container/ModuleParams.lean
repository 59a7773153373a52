import KollaPowerOps.Lib.OrderedDict
import KollaPowerOps.Lib.PyMapping
import KollaPowerOps.Lib.PyNumber
import KollaPowerOps.Container.Dimensions

/-!
# Container.ModuleParams

The parameters that `generate_module` gives to a worker.

* `generateModule` : explicit parameters over common options over defaults.
* `Resolves`       : what each comes to by precedence, as it was written.
* `Unmistakable`   : the common options of which no text is mistaken (`resolves_iff`).
-/

namespace KollaPowerOps
namespace Container

open Value (lookup update truthy DistinctKeys)

/-! ## Digits -/

/-- `str.isdigit` and `unicodedata.decimal`, for a character. -/
structure DigitTable where
  isDigit : Char → Bool
  decimal : Char → Option Nat
  isDigit_ascii : ∀ c, c.toNat < 128 → isDigit c = c.isDigit
  decimal_ascii : ∀ c, c.toNat < 128 → decimal c = if c.isDigit then some (c.toNat - 48) else none

def DigitTable.ascii : DigitTable where
  isDigit := Char.isDigit
  decimal c := if c.isDigit then some (c.toNat - 48) else none
  isDigit_ascii _ _ := rfl
  decimal_ascii _ _ := rfl

variable (table : DigitTable)

/-- `s.isdigit()` -/
def isDigits (s : String) : Bool := s != "" && s.toList.all table.isDigit

/-- `int(s)`; decimal digits of all scripts count as those of ASCII. -/
def pyInt (s : String) : Option Int :=
  PyNumber.parseInt (s.toList.map fun c => ((table.decimal c).map Nat.digitChar).getD c)

/-! ## The module -/

/-- The parameters that are left when `common_options` and `environment` are taken. -/
def optionNames : List String := [
  "action", "api_version", "auth_email", "auth_password", "auth_registry", "auth_username",
  "command", "container_engine", "detach", "labels", "name", "healthcheck", "image", "ipc_mode",
  "cap_add", "security_opt", "pid_mode", "cgroupns_mode", "privileged", "graceful_timeout",
  "remove_on_exit", "restart_policy", "restart_retries", "state", "tls_verify", "tls_cert",
  "tls_key", "tls_cacert", "tmpfs", "volumes", "volumes_from", "dimensions", "tty",
  "client_timeout", "ignore_missing"]

def commonOptionsDefaults : List (String × Value) := [
  ("auth_email", .none),
  ("auth_password", .none),
  ("auth_registry", .none),
  ("auth_username", .none),
  ("environment", .none),
  ("restart_policy", .none),
  ("restart_retries", .int 10),
  ("api_version", .str "auto"),
  ("graceful_timeout", .int 10),
  ("client_timeout", .int 120),
  ("container_engine", .str "docker")]

/-- What is given to the module; a parameter that is not given is null. -/
structure ModuleParams where
  commonOptions : Option (OrderedDict String Value) := none
  environment : Option Mapping := none
  option : String → Value
  distinct : DistinctKeys (environment.getD []) := by exact List.Pairwise.nil
  mapping : ∀ v, (commonOptions.getD .empty).get? "environment" = some v → v.truthy = true →
    ∃ kvs, v = .dict kvs

/-- `v is None` -/
def isNull : Value → Bool
  | .none => true
  | _ => false

/-- One pass of the loop. -/
def mergeOption (newArgs : OrderedDict String Value) (k : String) (v : Value) :
    Except WorkerExit (OrderedDict String Value) :=
  if isNull v then
    match commonOptionsDefaults.lookup k with
    | none => .ok newArgs
    | some default =>
      match newArgs.get? k with
      -- a common option can be a text or a number
      | some (.str s) =>
        if isDigits table s then
          match pyInt table s with
          | some n => .ok (newArgs.set k (.int n))
          | none => .error (.raised .valueError)
        else
          .ok newArgs
      | some _ => .ok newArgs
      | none => .ok (if isNull default then newArgs else newArgs.set k default)
  else
    .ok (newArgs.set k v)

def mergeEnvironment (newArgs : OrderedDict String Value) (environment : Mapping) :
    Except WorkerExit (OrderedDict String Value) :=
  match ((newArgs.get? "environment").getD (.dict [])).or (.dict []) with
  | .dict kvs => .ok ((newArgs.erase "environment").set "environment" (.dict (update kvs environment)))
  | _ => .error (.raised .attributeError)

/-- An option that is empty is removed. -/
def removeEmpty (newArgs : OrderedDict String Value) (k : String) : OrderedDict String Value :=
  if ((newArgs.get? k).getD (.bool false)).truthy then newArgs else newArgs.erase k

def generateModule (m : ModuleParams) : Except WorkerExit (OrderedDict String Value) := do
  let newArgs ← optionNames.foldlM (fun newArgs k => mergeOption table newArgs k (m.option k))
    (m.commonOptions.getD .empty)
  let newArgs ← mergeEnvironment newArgs (m.environment.getD [])
  pure (removeEmpty (removeEmpty newArgs "pid_mode") "ipc_mode")

/-! ## What the parameters come to -/

/-- The options with a default, but for the environment. -/
def commonNames : List String :=
  (commonOptionsDefaults.map Prod.fst).filter (· ≠ "environment")

/-- The options that are integers. -/
def isNumeric (k : String) : Bool :=
  ["restart_retries", "graceful_timeout", "client_timeout"].contains k

/-- What the operator wrote: of a text, the number that it denotes where a number is wanted. -/
def written (k : String) : Value → Value
  | .str s => if isNumeric k then ((pyInt table s).map Value.int).getD (.str s) else .str s
  | v => v

/-- A value that is not null. -/
def given (v : Value) : Option Value := if isNull v then none else some v

namespace ModuleParams

variable (m : ModuleParams)

def common (k : String) : Option Value := (m.commonOptions.getD .empty).get? k

def expected (k : String) : Option Value :=
  (given (m.option k)).or
    (((m.common k).map (written table k)).or ((commonOptionsDefaults.lookup k).bind given))

def commonEnvironment : Mapping :=
  match m.common "environment" with
  | some (.dict kvs) => kvs
  | _ => []

end ModuleParams

structure Resolves (m : ModuleParams) (newArgs : OrderedDict String Value) : Prop where
  option : ∀ k ∈ commonNames, newArgs.get? k = m.expected table k
  environment : ∃ env, newArgs.get? "environment" = some (.dict env) ∧ ∀ name, lookup env name =
    (lookup (m.environment.getD []) name).or (lookup m.commonEnvironment name)
  mode : ∀ k ∈ ["pid_mode", "ipc_mode"],
    newArgs.get? k = ((given (m.option k)).or (m.common k)).filter truthy

/-- Of the common options that are taken no text is made of digits, unless it is that of an option
that is a number; there exactly the numbers are. -/
def Unmistakable (m : ModuleParams) : Prop :=
  ∀ k ∈ commonNames, m.option k = .none → ∀ s, m.common k = some (.str s) →
    isDigits table s = (isNumeric k && (pyInt table s).isSome)

/-! ## One option -/

variable {table : DigitTable} {d d' : OrderedDict String Value} {k : String} {v : Value}

/-- What stands under an option after its pass, by what stood there. -/
def merged (table : DigitTable) (k : String) (v : Value) (current : Option Value) :
    Except WorkerExit (Option Value) :=
  if isNull v then
    match commonOptionsDefaults.lookup k with
    | none => .ok current
    | some default =>
      match current with
      | some (.str s) =>
        if isDigits table s then
          match pyInt table s with
          | some n => .ok (some (.int n))
          | none => .error (.raised .valueError)
        else
          .ok current
      | some _ => .ok current
      | none => .ok (given default)
  else
    .ok (some v)

theorem mergeOption_eq : mergeOption table d k v =
    (merged table k v (d.get? k)).map fun r => r.elim d fun w => d.set k w := by
  rw [mergeOption, merged]
  split
  · split
    · cases hd : d.get? k with
      | none => rfl
      | some w => exact congrArg Except.ok (OrderedDict.set_of_get? hd).symm
    · rename_i default hdefault
      split
      · rename_i s hs
        split
        · split <;> rfl
        · rw [hs]
          exact congrArg Except.ok (OrderedDict.set_of_get? hs).symm
      · rename_i w hstr hw
        rw [hw]
        exact congrArg Except.ok (OrderedDict.set_of_get? hw).symm
      · rw [given]
        split <;> rfl
  · rfl

theorem merged_none {current : Option Value} (h : merged table k v current = .ok none) :
    current = none := by
  rw [merged] at h
  split at h
  · split at h
    · exact Except.ok.inj h
    · split at h
      · split at h
        · split at h <;> cases h
        · cases h
      · cases h
      · rfl
  · cases h

theorem mergeOption_ok (h : mergeOption table d k v = .ok d') :
    merged table k v (d.get? k) = .ok (d'.get? k) ∧ ∀ k' ≠ k, d'.get? k' = d.get? k' := by
  rw [mergeOption_eq] at h
  cases hr : merged table k v (d.get? k) with
  | error e =>
    rw [hr] at h
    cases h
  | ok r =>
    rw [hr] at h
    cases h
    cases r with
    | none => exact ⟨congrArg Except.ok (merged_none hr).symm, fun _ _ => rfl⟩
    | some w =>
      exact ⟨congrArg Except.ok (OrderedDict.get?_set_self d k w).symm,
        fun k' hk' => OrderedDict.get?_set_of_ne d hk' w⟩

/-! ## The loop -/

variable {option : String → Value}

theorem loop_ok {names : List String} (hnames : names.Nodup)
    (h : names.foldlM (fun d k => mergeOption table d k (option k)) d = .ok d') :
    (∀ k ∈ names, merged table k (option k) (d.get? k) = .ok (d'.get? k)) ∧
      ∀ k, k ∉ names → d'.get? k = d.get? k := by
  induction names generalizing d with
  | nil =>
    cases h
    exact ⟨nofun, fun _ _ => rfl⟩
  | cons first names ih =>
    obtain ⟨hfirst, hnodup⟩ := List.nodup_cons.mp hnames
    rw [List.foldlM_cons, pyBind_ok] at h
    obtain ⟨d₁, hd₁, h⟩ := h
    obtain ⟨hmerged, hothers⟩ := mergeOption_ok hd₁
    obtain ⟨hrest, houtside⟩ := ih hnodup h
    constructor
    · rw [List.forall_mem_cons]
      refine ⟨?_, fun k hk => ?_⟩
      · rw [houtside first hfirst]
        exact hmerged
      · rw [← hothers k fun heq => hfirst (heq ▸ hk)]
        exact hrest k hk
    · intro k hk
      rw [List.mem_cons, not_or] at hk
      rw [houtside k hk.2, hothers k hk.1]

theorem loop_total {names : List String} (hnames : names.Nodup)
    (h : ∀ k ∈ names, ∃ r, merged table k (option k) (d.get? k) = .ok r) :
    ∃ d', names.foldlM (fun d k => mergeOption table d k (option k)) d = .ok d' := by
  induction names generalizing d with
  | nil => exact ⟨d, rfl⟩
  | cons first names ih =>
    obtain ⟨hfirst, hnodup⟩ := List.nodup_cons.mp hnames
    obtain ⟨⟨r, hr⟩, hrest⟩ := List.forall_mem_cons.mp h
    obtain ⟨d₁, hd₁⟩ : ∃ d₁, mergeOption table d first (option first) = .ok d₁ := by
      rw [mergeOption_eq, hr]
      exact ⟨_, rfl⟩
    obtain ⟨d', hd'⟩ := ih (d := d₁) hnodup fun k hk => by
      rw [(mergeOption_ok hd₁).2 k fun heq => hfirst (heq ▸ hk)]
      exact hrest k hk
    exact ⟨d', by rw [List.foldlM_cons, hd₁]; exact hd'⟩

/-! ## By precedence -/

theorem isNull_iff : isNull v = true ↔ v = .none := by cases v <;> simp [isNull]

/-- An option with a default is what is expected, unless its text is mistaken. -/
theorem merged_expected {default : Value} (hk : commonOptionsDefaults.lookup k = some default)
    {current : Option Value} :
    merged table k v current = .ok ((given v).or ((current.map (written table k)).or
        ((commonOptionsDefaults.lookup k).bind given))) ↔
      (v = .none → ∀ s, current = some (.str s) →
        isDigits table s = (isNumeric k && (pyInt table s).isSome)) := by
  rw [merged, given, hk, ← isNull_iff]
  cases hv : isNull v with
  | false => simp
  | true =>
    rw [if_pos rfl, if_pos rfl]
    cases current with
    | none => simp
    | some w =>
      cases w with
      | str s =>
        dsimp only [Option.map_some, Option.or_some, Option.none_or, written]
        cases hdigits : isDigits table s <;> cases hnumeric : isNumeric k <;>
          cases hint : pyInt table s <;> simp [hdigits, hint]
      | _ => simp [written]

theorem merged_other (hk : commonOptionsDefaults.lookup k = none) {current : Option Value} :
    merged table k v current = .ok ((given v).or current) := by
  rw [merged, given, hk]
  cases isNull v <;> simp

theorem get?_removeEmpty (k' : String) :
    (removeEmpty d k).get? k' = if k' = k then (d.get? k).filter truthy else d.get? k' := by
  rw [removeEmpty]
  cases hk : d.get? k with
  | none =>
    rw [Option.getD_none, if_neg (by decide), OrderedDict.get?_erase]
    rfl
  | some w =>
    cases hw : w.truthy with
    | false =>
      rw [Option.getD_some, hw, if_neg Bool.false_ne_true, OrderedDict.get?_erase,
        Option.filter_some, hw]
      rfl
    | true =>
      rw [Option.getD_some, hw, if_pos rfl, Option.filter_some, hw, if_pos rfl]
      split
      · rename_i heq
        rw [heq, hk]
      · rfl

theorem optionNames_nodup : optionNames.Nodup := by decide

theorem lookup_commonNames : ∀ k ∈ commonNames, k ∈ optionNames ∧ k ≠ "environment" ∧
    k ≠ "pid_mode" ∧ k ≠ "ipc_mode" ∧ (commonOptionsDefaults.lookup k).isSome = true := by decide

theorem mergeEnvironment_eq (m : ModuleParams) (h : d.get? "environment" = m.common "environment") :
    mergeEnvironment d (m.environment.getD []) = .ok ((d.erase "environment").set "environment"
      (.dict (update m.commonEnvironment (m.environment.getD [])))) := by
  have henv : ((d.get? "environment").getD (.dict [])).or (.dict []) = .dict m.commonEnvironment := by
    rw [h, ModuleParams.commonEnvironment]
    cases hcommon : m.common "environment" with
    | none => rfl
    | some w =>
      cases hw : w.truthy with
      | true =>
        obtain ⟨kvs, rfl⟩ := m.mapping w hcommon hw
        exact Value.or_of_truthy hw
      | false =>
        refine (Value.or_of_not_truthy hw).trans ?_
        cases w with
        | dict kvs =>
          have hnil : kvs = [] := List.isEmpty_iff.mp (by simpa [Value.truthy] using hw)
          rw [hnil]
        | _ => rfl
  rw [mergeEnvironment, henv]

/-- The arguments that come of a loop which does not raise. -/
theorem generateModule_ok {m : ModuleParams} {newArgs : OrderedDict String Value} :
    generateModule table m = .ok newArgs ↔ ∃ d,
      optionNames.foldlM (fun d k => mergeOption table d k (m.option k))
        (m.commonOptions.getD .empty) = .ok d ∧
      newArgs = removeEmpty (removeEmpty ((d.erase "environment").set "environment"
        (.dict (update m.commonEnvironment (m.environment.getD [])))) "pid_mode") "ipc_mode" := by
  have henv : ∀ {d}, optionNames.foldlM (fun d k => mergeOption table d k (m.option k))
      (m.commonOptions.getD .empty) = .ok d → d.get? "environment" = m.common "environment" :=
    fun hd => (loop_ok optionNames_nodup hd).2 _ (by decide)
  rw [generateModule, pyBind_ok]
  refine exists_congr fun d => and_congr_right fun hd => ?_
  rw [mergeEnvironment_eq m (henv hd)]
  exact ⟨fun h => (Except.ok.inj h).symm, fun h => congrArg Except.ok h.symm⟩

/-- **Each parameter comes by precedence and as it was written**, just when no text is mistaken. -/
theorem resolves_iff (table : DigitTable) (m : ModuleParams) :
    (∃ newArgs, generateModule table m = .ok newArgs ∧ Resolves table m newArgs) ↔
      Unmistakable table m := by
  rw [Unmistakable]
  constructor
  · rintro ⟨newArgs, h, hresolves⟩ k hk
    obtain ⟨d, hd, rfl⟩ := generateModule_ok.mp h
    obtain ⟨hname, henv, hpid, hipc, hdefault⟩ := lookup_commonNames k hk
    obtain ⟨default, hdefault⟩ := Option.isSome_iff_exists.mp hdefault
    have hmerged := (loop_ok optionNames_nodup hd).1 k hname
    have hoption := hresolves.option k hk
    rw [get?_removeEmpty, if_neg hipc, get?_removeEmpty, if_neg hpid,
      OrderedDict.get?_set_of_ne _ henv, OrderedDict.get?_erase, if_neg henv] at hoption
    rw [hoption] at hmerged
    exact (merged_expected hdefault).mp hmerged
  · intro h
    have hmerged : ∀ k ∈ optionNames, ∃ r, merged table k (m.option k) (m.common k) = .ok r := by
      intro k hk
      cases hdefault : commonOptionsDefaults.lookup k with
      | none => exact ⟨_, merged_other hdefault⟩
      | some default =>
        have hname : k ∈ commonNames := by
          have hall : ∀ k ∈ optionNames, (commonOptionsDefaults.lookup k).isSome = true →
              k ∈ commonNames := by decide
          exact hall k hk (by rw [hdefault]; rfl)
        exact ⟨_, (merged_expected hdefault).mpr (h k hname)⟩
    obtain ⟨d, hd⟩ : ∃ d, optionNames.foldlM (fun d k => mergeOption table d k (m.option k))
        (m.commonOptions.getD .empty) = .ok d := loop_total optionNames_nodup hmerged
    obtain ⟨hloop, -⟩ := loop_ok optionNames_nodup hd
    refine ⟨_, generateModule_ok.mpr ⟨d, hd, rfl⟩, fun k hk => ?_, ?_, fun k hk => ?_⟩
    · obtain ⟨hname, henv, hpid, hipc, hdefault⟩ := lookup_commonNames k hk
      obtain ⟨default, hdefault⟩ := Option.isSome_iff_exists.mp hdefault
      rw [get?_removeEmpty, if_neg hipc, get?_removeEmpty, if_neg hpid,
        OrderedDict.get?_set_of_ne _ henv, OrderedDict.get?_erase, if_neg henv]
      exact Except.ok.inj ((hloop k hname).symm.trans
        ((merged_expected hdefault).mpr (h k hk)))
    · refine ⟨update m.commonEnvironment (m.environment.getD []), ?_, fun name => ?_⟩
      · rw [get?_removeEmpty, if_neg (by decide), get?_removeEmpty, if_neg (by decide),
          OrderedDict.get?_set_self]
      · rw [Value.lookup_eq, Value.lookup_eq, Value.lookup_eq, Value.lookupKey_update m.distinct]
    · have hmode : ∀ k ∈ ["pid_mode", "ipc_mode"], k ∈ optionNames ∧ k ≠ "environment" ∧
          commonOptionsDefaults.lookup k = none := by decide
      obtain ⟨hname, henv, hdefault⟩ := hmode k hk
      have hvalue : d.get? k = (given (m.option k)).or (m.common k) :=
        Except.ok.inj ((hloop k hname).symm.trans (merged_other hdefault))
      rw [← hvalue]
      rcases List.mem_cons.mp hk with rfl | hk
      · rw [get?_removeEmpty, if_neg (by decide), get?_removeEmpty, if_pos rfl,
          OrderedDict.get?_set_of_ne _ henv, OrderedDict.get?_erase, if_neg henv]
      · obtain rfl := List.mem_singleton.mp hk
        rw [get?_removeEmpty, if_pos rfl, get?_removeEmpty, if_neg (by decide),
          OrderedDict.get?_set_of_ne _ henv, OrderedDict.get?_erase, if_neg henv]

def registryLogin : ModuleParams where
  commonOptions := some
    (.ofList [("auth_username", .str "kolla"), ("auth_password", .str "12345")])
  option _ := .none
  mapping := by
    intro v hv
    have hnone : (OrderedDict.ofList [("auth_username", Value.str "kolla"),
        ("auth_password", .str "12345")]).get? "environment" = none := by rfl
    rw [Option.getD_some, hnone] at hv
    cases hv

/-- A password of digits is taken for a number. -/
theorem password_made_number :
    (generateModule .ascii registryLogin).toOption.bind (·.get? "auth_password") =
        some (.int 12345) ∧
      ¬ ∃ newArgs, generateModule .ascii registryLogin = .ok newArgs ∧
        Resolves .ascii registryLogin newArgs := by
  have hnumber : (generateModule .ascii registryLogin).toOption.bind (·.get? "auth_password") =
      some (.int 12345) := by rfl
  refine ⟨hnumber, ?_⟩
  rintro ⟨newArgs, h, hresolves⟩
  have hoption := hresolves.option "auth_password" (by decide)
  have hexpected : registryLogin.expected .ascii "auth_password" = some (.str "12345") := by rfl
  rw [h] at hnumber
  rw [hexpected] at hoption
  cases hnumber.symm.trans hoption

end Container
end KollaPowerOps
