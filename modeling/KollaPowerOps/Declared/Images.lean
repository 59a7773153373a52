import Mathlib.Data.List.Infix
import Mathlib.Data.Prod.Lex
import Mathlib.Data.String.Basic
import KollaPowerOps.Declared.Cli
import KollaPowerOps.Lib.Effect

/-!
# Declared.Images

`powerops build-images` and `powerops publish-images`: the wheels of the plugins, the images that
are derived with them, and the registry that these are pushed to.

* `pluginBuilds`           : the plugins, and what their wheels must declare.
* `verifyWheelEntrypoint`  : the check of a wheel before it is copied to the images' context.
* `buildImages`            : builds, never publishes.
* `publishImages`          : publishes, after the registry is confirmed.
* `Command.run`            : a command on the configuration that it reads.

The configuration is a mapping of untyped values. `readString` is the parser of the standard library
for entry points; a text that it refuses is `none`.
-/

namespace KollaPowerOps
namespace Declared
namespace Cli

open Effect PyText

/-- An argument of a process. -/
inductive Arg where
  | text (s : String)
  | raw (b : List UInt8)
  deriving DecidableEq

/-- The members of a wheel in their order, each with its text. A member that cannot be decoded is
`none`. -/
structure Archive where
  members : List (String × Option String)

/-- A wheel in a directory: when it was modified, and its name. -/
abbrev Candidate : Type := Nat × String

inductive CliError where
  | valueError (message : String)
  | python (e : PyError)
  /-- what the library or the process behind a call raises -/
  | raised

inductive ImageCall : Type → Type where
  /-- `yaml.safe_load` of the globals file -/
  | safeLoad : ImageCall Value
  | buildWheel (package : String) : ImageCall Unit
  /-- the files of the package's `dist` that match the pattern -/
  | glob (package pattern : String) : ImageCall (List Candidate)
  | openWheel (package name : String) : ImageCall Archive
  /-- `copy2` from the package's `dist` to the context's -/
  | copyWheel (package name context : String) : ImageCall Unit
  | engineBuild (engine : Arg) (baseImage : String) (tag : Arg) (context : String) : ImageCall Unit
  | inspect (engine image : Arg) : ImageCall Unit
  | push (engine image : Arg) : ImageCall Unit

abbrev ImageOp : Type → Type 1 := Prog ImageCall CliError

/-! ## Names of files -/

/-- `fnmatch` of a name for a pattern whose only wildcard is the asterisk. -/
def globMatch : List Char → List Char → Bool
  | [], name => name.isEmpty
  | '*' :: pattern, name => name.tails.any fun rest => globMatch pattern rest
  | c :: pattern, d :: name => c == d && globMatch pattern name
  | _ :: _, [] => false

def endsWith (suffix name : String) : Bool := suffix.toList.isSuffixOf name.toList

theorem globMatch_cons {c : Char} {pattern name : List Char} (hc : c ≠ '*')
    (h : globMatch (c :: pattern) name = true) :
    ∃ rest, name = c :: rest ∧ globMatch pattern rest = true := by
  cases name with
  | nil => simp [globMatch] at h
  | cons d name =>
    simp only [globMatch, Bool.and_eq_true, beq_iff_eq] at h
    exact ⟨name, by rw [h.1], h.2⟩

/-- A pattern without an asterisk is the name. -/
theorem eq_of_globMatch {pattern name : List Char} (hpattern : '*' ∉ pattern)
    (h : globMatch pattern name = true) : name = pattern := by
  induction pattern generalizing name with
  | nil => exact List.isEmpty_iff.mp h
  | cons c pattern ih =>
    rw [List.mem_cons, not_or] at hpattern
    obtain ⟨rest, rfl, hrest⟩ := globMatch_cons (Ne.symm hpattern.1) h
    rw [ih hpattern.2 hrest]

/-- What follows the last asterisk is the end of the name. -/
theorem suffix_of_globMatch {front last name : List Char} (hlast : '*' ∉ last)
    (h : globMatch (front ++ last) name = true) : last <:+ name := by
  induction front generalizing name with
  | nil =>
    rw [eq_of_globMatch hlast h]
  | cons c front ih =>
    by_cases hc : c = '*'
    · subst hc
      obtain ⟨rest, hrest, hmatch⟩ := List.any_eq_true.mp h
      exact (ih hmatch).trans ((List.mem_tails rest name).mp hrest)
    · obtain ⟨rest, rfl, hmatch⟩ := globMatch_cons hc h
      exact (ih hmatch).trans (List.suffix_cons c rest)

/-! ## Plugins -/

structure PluginBuild where
  package : String
  wheel : String
  context : String
  entryGroup : String
  entryName : String
  deriving DecidableEq

def mistralBuild : PluginBuild where
  package := "plugins/mistral_power_actions"
  wheel := "openstack_power_actions-*.whl"
  context := "docker/powerops/mistral"
  entryGroup := "mistral.actions"
  entryName := "powerops.acquire_host_lock"

def masakariBuild : PluginBuild where
  package := "plugins/masakari_ironic_fence"
  wheel := "masakari_ironic_fence-*.whl"
  context := "docker/powerops/masakari"
  entryGroup := "masakari.task_flow.tasks"
  entryName := "ironic_fence"

def pluginBuilds : List PluginBuild := [mistralBuild, masakariBuild]

/-- The wheels that are looked for are wheels that the Containerfile copies. -/
theorem wheel_endsWith {build : PluginBuild} (hbuild : build ∈ pluginBuilds) {name : String}
    (h : globMatch build.wheel.toList name.toList = true) : endsWith ".whl" name = true := by
  have hwheel : ∃ front : String, build.wheel.toList = front.toList ++ ".whl".toList := by
    simp only [pluginBuilds, List.mem_cons, List.not_mem_nil, or_false] at hbuild
    rcases hbuild with rfl | rfl
    · exact ⟨"openstack_power_actions-*", by decide⟩
    · exact ⟨"masakari_ironic_fence-*", by decide⟩
  obtain ⟨front, hfront⟩ := hwheel
  rw [hfront] at h
  exact List.isSuffixOf_iff_suffix.mpr (suffix_of_globMatch (by decide) h)

/-- The key of the plugin in `wheel_by_kind`. -/
def PluginBuild.kind (build : PluginBuild) : String :=
  if (after? "masakari".toList build.package.toList).isSome then "masakari" else "mistral"

def imageServices : List String :=
  ["mistral-api", "mistral-engine", "mistral-executor", "masakari-engine"]

/-- The kind of plugin that the image of a service is built with. -/
def serviceKind (service : String) : String :=
  if service = "masakari-engine" then "masakari" else "mistral"

def serviceContext (service : String) : String := "docker/powerops/" ++ serviceKind service

/-! ## Entry points -/

/-- What a `ConfigParser` has read: its sections with their options, and the default section. -/
structure ParsedConfig where
  sections : List (String × List String)
  defaults : List String

def ParsedConfig.hasOption (rt : PyRuntime) (config : ParsedConfig) (group option : String) :
    Bool :=
  let option := rt.lower option
  if group = "" || group = "DEFAULT" then option ∈ config.defaults
  else
    match config.sections.find? fun entry => entry.1 == group with
    | none => false
    | some (_, options) => option ∈ options || option ∈ config.defaults

section Commands

variable (rt : PyRuntime) (readString : String → Option ParsedConfig)

def verifyWheelEntrypoint (wheel : Archive) (name group entryName : String) :
    Except CliError Unit :=
  match wheel.members.filter fun entry => endsWith "/entry_points.txt" entry.1 with
  | [(_, content)] =>
    match content.bind readString with
    | none => .error .raised
    | some config =>
      if config.hasOption rt group entryName then .ok ()
      else .error (.valueError
        ("wheel " ++ name ++ " is missing entry point " ++ group ++ ":" ++ entryName))
  | _ => .error (.valueError "wheel must contain exactly one entry_points.txt")

/-! ## The configuration -/

def loadConfig : ImageOp Mapping :=
  Prog.call .safeLoad fun loaded =>
    match loaded.or (.dict []) with
    | .dict data => pure data
    | _ => Prog.raise (.valueError "configuration root must be a mapping")

def requireImages (base derived : Mapping) : List String → Except CliError Unit
  | [] => .ok ()
  | service :: services =>
    if !(Value.entry base service).truthy then
      .error (.valueError ("missing base image for " ++ service))
    else if !(Value.entry derived service).truthy then
      .error (.valueError ("missing derived image for " ++ service))
    else requireImages base derived services

def imageMappings (data : Mapping) : Except CliError (Mapping × Mapping) :=
  match Value.entry data "powerops_base_images", Value.entry data "powerops_derived_images" with
  | .dict base, .dict derived => do
    requireImages base derived imageServices
    pure (base, derived)
  | _, _ => .error (.valueError
    "powerops_base_images and powerops_derived_images must be mappings")

def containerEngine (data : Mapping) : Value :=
  (Value.lookup data "kolla_container_engine").getD (.str "podman")

/-- An argument as `subprocess` takes it. -/
def processArg : Value → Except CliError Arg
  | .str s => .ok (.text s)
  | .bytes b => .ok (.raw b)
  | _ => .error (.python (.typeError "expected str, bytes or os.PathLike object"))

/-! ## Building -/

/-- `a < b` of the keys that the wheels are compared by. -/
def Candidate.older (a b : Candidate) : Bool := a.1 < b.1 || a.1 == b.1 && a.2 < b.2

/-- `max` by modification time and name: the first of the largest. -/
def newest : List Candidate → Option Candidate
  | [] => none
  | c :: cs => some (cs.foldl (fun best c => if best.older c then c else best) c)

theorem Candidate.older_iff {a b : Candidate} : a.older b = true ↔ toLex a < toLex b := by
  simp only [older, Bool.or_eq_true, Bool.and_eq_true, decide_eq_true_eq, beq_iff_eq,
    Prod.Lex.toLex_lt_toLex]

theorem newest_spec {cs : List Candidate} {c : Candidate} (h : newest cs = some c) :
    c ∈ cs ∧ ∀ d ∈ cs, toLex d ≤ toLex c := by
  cases cs with
  | nil => cases h
  | cons first cs =>
    obtain rfl := Option.some.inj h
    clear h
    induction cs generalizing first with
    | nil => exact ⟨List.mem_singleton.mpr rfl, fun d hd => (List.mem_singleton.mp hd).symm ▸ le_rfl⟩
    | cons next cs ih =>
      rw [List.foldl_cons]
      split
      · rename_i hnext
        obtain ⟨hmem, hmax⟩ := ih next
        have hlater := hmax next List.mem_cons_self
        exact ⟨List.mem_cons_of_mem _ hmem, List.forall_mem_cons.mpr
          ⟨(Candidate.older_iff.mp hnext).le.trans hlater, hmax⟩⟩
      · rename_i hnext
        obtain ⟨hmem, hmax⟩ := ih first
        obtain ⟨hfirst, hrest⟩ := List.forall_mem_cons.mp hmax
        have hnot : ¬ toLex first < toLex next := fun hlt => hnext (Candidate.older_iff.mpr hlt)
        exact ⟨List.cons_subset_cons first (List.subset_cons_self next cs) hmem,
          List.forall_mem_cons.mpr ⟨hfirst, List.forall_mem_cons.mpr
            ⟨(not_lt.mp hnot).trans hfirst, hrest⟩⟩⟩

def builtWheel (build : PluginBuild) : ImageOp Candidate :=
  Prog.call (.glob build.package build.wheel) fun candidates =>
    match newest candidates with
    | none => Prog.raise (.valueError ("wheel was not produced for " ++ build.package))
    | some wheel => pure wheel

/-- The steps for one plugin, up to its wheel in the context. -/
def preparePlugin (build : PluginBuild) : ImageOp String := do
  Prog.request (.buildWheel build.package)
  let wheel ← builtWheel build
  let archive ← Prog.request (.openWheel build.package wheel.2)
  Prog.done (verifyWheelEntrypoint rt readString archive wheel.2 build.entryGroup build.entryName)
  Prog.request (.copyWheel build.package wheel.2 build.context)
  pure build.kind

def preparePlugins : List PluginBuild → ImageOp (List String)
  | [] => pure []
  | build :: builds => do
    let kind ← preparePlugin rt readString build
    let kinds ← preparePlugins builds
    pure (kind :: kinds)

def deriveImage (engine : Value) (base derived : Mapping) (kinds : List String) (service : String) :
    ImageOp Unit :=
  if serviceKind service ∉ kinds then
    Prog.raise (.valueError ("missing " ++ serviceKind service ++ " plugin wheel"))
  else do
    let engine ← Prog.done (processArg engine)
    let tag ← Prog.done (processArg (Value.entry derived service))
    Prog.request (.engineBuild engine ((Value.entry base service).toStr rt) tag
      (serviceContext service))

def deriveImages (engine : Value) (base derived : Mapping) (kinds : List String) :
    List String → ImageOp Unit
  | [] => pure ()
  | service :: services => do
    deriveImage rt engine base derived kinds service
    deriveImages engine base derived kinds services

def buildImages (data : Mapping) : ImageOp (List Value) := do
  let (base, derived) ← Prog.done (imageMappings data)
  let kinds ← preparePlugins rt readString pluginBuilds
  deriveImages rt (containerEngine data) base derived kinds imageServices
  pure (imageServices.map (Value.entry derived))

/-! ## Publishing -/

def noSplit : CliError := .python (.attributeError "object has no attribute 'split'")

def noRegistry : CliError := .valueError "derived image must include an explicit registry host"

/-- `"/" in image`, and then the part before it. Only a text has such a part. -/
def registryHost : Value → Except CliError String
  | .str s =>
    if '/' ∈ s.toList then .ok (String.ofList (before '/' s.toList)) else .error noRegistry
  | .list xs => .error (if xs.any (Value.isStr "/") then noSplit else noRegistry)
  | .set xs => .error (if xs.any (Value.isStr "/") then noSplit else noRegistry)
  | .dict kvs => .error (if kvs.any fun kv => kv.1.isStr "/" then noSplit else noRegistry)
  | _ => .error (.python (.typeError "argument is not iterable"))

/-- Every derived image names this registry. -/
def confirmRegistry (confirm : String) : List Value → Except CliError Bool
  | [] => .ok true
  | image :: images => do
    let host ← registryHost image
    let rest ← confirmRegistry confirm images
    pure (host == confirm && rest)

/-- One process of the engine for every image. -/
def eachImage (call : Arg → Arg → ImageCall Unit) (engine : Value) : List Value → ImageOp Unit
  | [] => pure ()
  | image :: images => do
    let engineArg ← Prog.done (processArg engine)
    let imageArg ← Prog.done (processArg image)
    Prog.request (call engineArg imageArg)
    eachImage call engine images

def publishImages (data : Mapping) (confirm : String) : ImageOp (List Value) := do
  let (_, derived) ← Prog.done (imageMappings data)
  let images := imageServices.map (Value.entry derived)
  let confirmed ← Prog.done (confirmRegistry confirm images)
  if !confirmed then
    Prog.raise (.valueError "registry confirmation does not match derived image registry")
  else do
    eachImage .inspect (containerEngine data) images
    eachImage .push (containerEngine data) images
    pure images

inductive Command where
  | buildImages
  | publishImages (confirmRegistry : String)

def Command.run : Command → ImageOp (List Value)
  | .buildImages => loadConfig.bind (Cli.buildImages rt readString)
  | .publishImages confirm => loadConfig.bind fun data => Cli.publishImages data confirm

end Commands

end Cli
end Declared
end KollaPowerOps
