import KollaPowerOps.Container.DockerUnits
import KollaPowerOps.Container.PodmanUnits
import KollaPowerOps.Container.PullFirst

/-!
# Container.Units

What both workers keep of the units on a node.

* `units_anchored`     : no order of actions, stopped wherever it may be, leaves a unit file without
  its container or touches what belongs to another one.
* `recreation_current` : after the handler the comparison of the unit file finds no change.
-/

namespace KollaPowerOps
namespace Container

open Effect

/-- **A unit file never stands alone**: after any runs of the module, each for a container of its own,
with an action of its own and ended, failed or stopped at any call, every unit file stands beside its
container, and the containers and files that no run was for are as before. -/
theorem units_anchored (rt : PyRuntime) (parseRepositoryTag : Text → Text × Option Text)
    (ts : List Task) (w w' : Node) (hw : w.Anchored) :
    (Played Docker.nodeEnv (Docker.act rt parseRepositoryTag) ts w w' → Kept ts w w') ∧
      (Played Podman.nodeEnv (Podman.act rt) ts w w' → Kept ts w w') :=
  ⟨fun h => played_kept (Docker.disciplined rt parseRepositoryTag) h hw,
    fun h => played_kept (Podman.disciplined rt) h hw⟩

/-- A node with the container of `cron`, or without, and with such a unit file. -/
def cronNode (present : Bool) (file : Option Text) : Node where
  containers name := present && decide (name = "cron".toList)
  files path := if path = unitPathOf "cron".toList then file else none

theorem cronNode_file (present : Bool) (file : Option Text) :
    (cronNode present file).files (unitPathOf "cron".toList) = file := by
  simp [cronNode]

theorem cronNode_anchored (file : Option Text) : (cronNode true file).Anchored := by
  intro name hfile
  by_cases hname : name = "cron".toList
  · exact decide_eq_true hname
  · have hpath : unitPathOf name ≠ unitPathOf "cron".toList := fun h => hname (unitPathOf_injective h)
    have hnone : (cronNode true file).files (unitPathOf name) = none := if_neg hpath
    rw [hnone] at hfile
    cases hfile

/-- A removal that is stopped once the unit file is removed. -/
def stoppedRemoval : List (Event (WorkerCall DockerCall) WorkerExit) := [
  ⟨.systemd (.isFile (unitPathOf "cron".toList)), .ok true⟩,
  ⟨.systemd (.removeFile (unitPathOf "cron".toList)), .ok ()⟩]

theorem stoppedRemoval_drives (content : Text) :
    Drives Docker.nodeEnv (cronNode true (some content)) stoppedRemoval (cronNode true none) := by
  have hremove : Docker.nodeEnv (cronNode true (some content))
      ⟨.systemd (.removeFile (unitPathOf "cron".toList)), .ok ()⟩ (cronNode true none) := by
    refine ⟨⟨rfl, fun p => ?_⟩, cronNode_file true none⟩
    by_cases hp : p = unitPathOf "cron".toList
    · exact .inr ⟨hp, if_pos hp⟩
    · exact .inl ((if_neg hp).trans (if_neg hp).symm)
  have hpresent : ((cronNode true (some content)).files (unitPathOf "cron".toList)).isSome = true :=
    congrArg Option.isSome (cronNode_file true (some content))
  exact .cons ⟨rfl, hpresent.symm⟩ (.cons hremove .nil)

theorem cron_anchored : Kept [cronTask] (cronNode true (some [])) (cronNode true none) := by
  have h := units_anchored .ascii (fun s => (s, none)) [cronTask] (cronNode true (some []))
    (cronNode true none) (cronNode_anchored _)
  have hsteps : Steps ((Docker.act .ascii (fun s => (s, none)) cronTask .removeContainer).run false)
      stoppedRemoval _ := .ret (.ret .nil)
  exact h.1 (.cons hsteps (stoppedRemoval_drives []) .nil)

/-! ## The handler -/

/-- The container stands with its unit file, and a comparison of the file would find no change. -/
structure UpToDate {E : Type → Type} [EngineCalls E] [Deeds E] (replies : NodeReplies E) (t : Task)
    (w : Node) : Prop where
  current : w.Current t
  unchanged : ∀ c tr change c' w', Runs (onNode replies) w
    ((Systemd.checkUnitChange t (Systemd.generateUnitFile t) : Worker E Bool).run c) tr
    (.ok (change, c')) w' → change = false

theorem Node.Current.upToDate {E : Type → Type} [EngineCalls E] [Deeds E] {replies : NodeReplies E}
    {t : Task} {w : Node} (h : w.Current t) : UpToDate replies t w :=
  ⟨h, fun _ _ _ _ _ hruns => Systemd.unchanged_of_current h hruns⟩

/-- The configuration of the container is copied, once or always. -/
def Copied (strategy : Option Value) : Prop :=
  strategy.any (Value.isStr "COPY_ONCE") = true ∨ strategy.any (Value.isStr "COPY_ALWAYS") = true

/-- **The handler brings the unit file up to date**: after `recreate_or_restart_container` of a
detached container whose configuration is copied, the unit file is the one of the parameters. With
Docker this is so unless the container runs only once. -/
theorem recreation_current (rt : PyRuntime) (parseRepositoryTag : Text → Text × Option Text) (t : Task)
    (hdetach : t.params.detach = true) (w w' : Node) (hw : w.Anchored) (changed result : Bool) :
    (∀ tr, Copied (Docker.configStrategy t) → t.isOneshot = false →
        Runs Docker.nodeEnv w
          ((Docker.act rt parseRepositoryTag t .recreateOrRestartContainer).run false) tr
          (.ok (result, changed)) w' → UpToDate Docker.nodeReplies t w') ∧
      ∀ tr, Copied (Podman.configStrategy t) →
        Runs Podman.nodeEnv w ((Podman.act rt t .recreateOrRestartContainer).run false) tr
          (.ok (result, changed)) w' → UpToDate Podman.nodeReplies t w' := by
  constructor
  · intro tr hcopied honeshot hruns
    have htriple := (Docker.current_recreate rt parseRepositoryTag t hdetach honeshot hcopied).then_return
      false
    have hcurrent : w'.Current t := wp_steps hruns.1 hruns.2 (htriple w false (hw.anchor t))
    exact hcurrent.upToDate
  · intro tr hcopied hruns
    have htriple := (Podman.current_recreate rt t hdetach hcopied).then_return false
    have hcurrent : w'.Current t := wp_steps hruns.1 hruns.2 (htriple w false (hw.anchor t))
    exact hcurrent.upToDate

def cronCreated : ContainerSummary where
  names := ["/cron".toList]
  status := "Created".toList

def cronImage : Image where
  id := "sha256:1".toList
  repoTags := ["docker.io/kolla/cron:1".toList]
  env_plain := empty_plain

def cronOptions : Docker.ContainerOptions where
  command := none
  detach := true
  environment := formatEnvVars copyOnceTask.params
  hostConfig := {
    ipcMode := none
    capAdd := []
    securityOpt := []
    pidMode := none
    privileged := false
    tmpfs := none
    volumesFrom := none
    resources := { scalar := copyOnceTask.params.dimensions.scalar, ulimits := none }
    binds := none
    cgroupnsMode := none }
  labels := .empty
  image := "docker.io/kolla/cron:1".toList
  name := "cron".toList
  volumes := none
  tty := false
  healthcheck := none

def cronUnit : Text := Systemd.generateUnitFile copyOnceTask

def cronPath : Text := unitPathOf "cron".toList

def lists (containers : List ContainerSummary) : Event (WorkerCall DockerCall) WorkerExit :=
  ⟨.engine .containers, .ok containers⟩

/-- The calls that create the container. -/
def creation : List (Event (WorkerCall DockerCall) WorkerExit) := [
  ⟨.engine (.createContainer cronOptions), .ok ()⟩,
  ⟨.systemd (.isFile cronPath), .ok false⟩,
  ⟨.systemd (.writeFile cronPath cronUnit), .ok ()⟩,
  ⟨.systemd (.perform .reload (Systemd.serviceName copyOnceTask)), .ok true⟩,
  ⟨.systemd (.perform .enableUnitFiles (Systemd.serviceName copyOnceTask)), .ok true⟩]

/-- The calls that start it. -/
def starting : List (Event (WorkerCall DockerCall) WorkerExit) := [
  ⟨.systemd (.isFile cronPath), .ok true⟩,
  ⟨.systemd (.readFile cronPath), .ok cronUnit⟩,
  ⟨.systemd (.perform .startUnit (Systemd.serviceName copyOnceTask)), .ok true⟩,
  ⟨.systemd .listUnits, .ok [(Systemd.serviceName copyOnceTask, "running".toList)]⟩]

/-- The image is there, the container is not. -/
def firstStart : List (Event (WorkerCall DockerCall) WorkerExit) :=
  ⟨.engine .images, .ok [cronImage]⟩ :: lists [] :: (creation ++ lists [cronCreated] :: starting)

def recreation : List (Event (WorkerCall DockerCall) WorkerExit) := lists [] :: firstStart

/-- A unit file that is up to date is not written again. -/
theorem returns_createUnitFile (t : Task) (c : Bool) :
    Returns ((Systemd.createUnitFile t : Docker.DockerWorker Bool).run c)
      [⟨.systemd (.isFile (Systemd.unitPath t)), .ok true⟩,
        ⟨.systemd (.readFile (Systemd.unitPath t)), .ok (Systemd.generateUnitFile t)⟩]
      (false, c) := by
  have hsame : decide (Systemd.generateUnitFile t ≠ Systemd.generateUnitFile t) = false :=
    decide_eq_false fun h => h rfl
  have hcheck : Returns ((Systemd.checkUnitChange t (Systemd.generateUnitFile t) :
      Docker.DockerWorker Bool).run c)
      [⟨.systemd (.isFile (Systemd.unitPath t)), .ok true⟩,
        ⟨.systemd (.readFile (Systemd.unitPath t)), .ok (Systemd.generateUnitFile t)⟩]
      (decide (Systemd.generateUnitFile t ≠ Systemd.generateUnitFile t), c) := .ret (.ret .nil)
  rw [hsame] at hcheck
  exact hcheck.andThen .nil

theorem firstStart_returns (c : Bool) : Returns
    ((Docker.startContainer .ascii (fun s => (s, none)) copyOnceTask).run c) firstStart ((), true) := by
  have hcreate : Returns ((Docker.createContainer .ascii copyOnceTask).run c) creation ((), true) :=
    .ret (.ret (.ret (.ret (.ret .nil))))
  have hstart : Returns ((do
      let _ ← Systemd.createUnitFile copyOnceTask
      if !(← Systemd.start copyOnceTask) then Docker.timedOut copyOnceTask
      : Docker.DockerWorker Unit).run true) starting ((), true) :=
    Returns.andThen (returns_createUnitFile copyOnceTask true) (.ret (.ret .nil))
  have hdown : Returns ((Docker.startIfDown copyOnceTask (some cronCreated)).run true) starting
      ((), true) := hstart
  have hmissing : Returns ((Docker.createIfMissing .ascii copyOnceTask none).run c)
      (creation ++ [lists [cronCreated]]) (some cronCreated, true) := hcreate.andThen (.ret .nil)
  have hensure : Returns ((Docker.ensureImage copyOnceTask).run c)
      [⟨.engine .images, .ok [cronImage]⟩] ((), c) := .ret .nil
  have hremove : Returns ((Docker.removeIfDiffers .ascii (fun s => (s, none)) copyOnceTask).run c)
      [lists []] (none, c) := .ret .nil
  have hwithImage : Returns ((Docker.startWithImage .ascii (fun s => (s, none)) copyOnceTask).run c)
      _ ((), true) := hremove.andThen (hmissing.andThen (hdown.andThen .nil))
  exact hensure.andThen hwithImage

theorem recreation_returns : Returns
    ((Docker.act .ascii (fun s => (s, none)) copyOnceTask .recreateOrRestartContainer).run false)
    recreation (false, true) := by
  have hlooked : Returns ((Docker.checkContainer copyOnceTask).run true) [lists []] (none, true) :=
    .ret .nil
  have hraise : Returns ((setChanged true : Docker.DockerWorker Unit).run false) [] ((), true) := .nil
  have hrecreate : Returns ((Docker.recreateOrRestartContainer .ascii (fun s => (s, none))
      copyOnceTask).run false) _ ((), true) :=
    hraise.andThen (hlooked.andThen (firstStart_returns true))
  exact hrecreate.andThen .nil

theorem node_lists_none :
    Docker.nodeEnv (cronNode false none) (lists []) (cronNode false none) :=
  ⟨⟨rfl, fun _ _ => rfl⟩, fun _ => rfl⟩

theorem node_lists_cron : Docker.nodeEnv (cronNode true (some cronUnit)) (lists [cronCreated])
    (cronNode true (some cronUnit)) := by
  refine ⟨⟨rfl, fun _ _ => rfl⟩, fun name => ?_⟩
  simp [cronNode, cronCreated]

theorem node_creates : Docker.nodeEnv (cronNode false none)
    ⟨.engine (.createContainer cronOptions), .ok ()⟩ (cronNode true none) := by
  refine ⟨⟨rfl, fun name hname => ?_⟩, rfl⟩
  have hne : name ≠ "cron".toList := fun h => hname (congrArg some h.symm)
  exact decide_eq_false hne

theorem node_writes : Docker.nodeEnv (cronNode true none)
    ⟨.systemd (.writeFile cronPath cronUnit), .ok ()⟩ (cronNode true (some cronUnit)) := by
  refine ⟨⟨rfl, fun p hp => ?_⟩, cronNode_file _ _⟩
  exact (if_neg hp).trans (if_neg hp).symm

theorem node_isFile (present : Bool) (file : Option Text) : Docker.nodeEnv (cronNode present file)
    ⟨.systemd (.isFile cronPath), .ok file.isSome⟩ (cronNode present file) :=
  ⟨rfl, (congrArg Option.isSome (cronNode_file present file)).symm⟩

theorem recreation_drives : Drives Docker.nodeEnv (cronNode false none) recreation
    (cronNode true (some cronUnit)) := by
  refine .cons node_lists_none (.cons ⟨⟨rfl, fun _ _ => rfl⟩, trivial⟩ (.cons node_lists_none ?_))
  refine .cons node_creates (.cons (node_isFile true none) (.cons node_writes ?_))
  refine .cons ⟨rfl, trivial⟩ (.cons ⟨rfl, trivial⟩ (.cons node_lists_cron ?_))
  refine .cons (node_isFile true _) (.cons ⟨rfl, cronNode_file _ _⟩ ?_)
  exact .cons ⟨rfl, trivial⟩ (.cons ⟨rfl, trivial⟩ .nil)

theorem cron_current : UpToDate Docker.nodeReplies copyOnceTask (cronNode true (some cronUnit)) := by
  have hanchored : (cronNode false none).Anchored := by
    intro name hfile
    have hnone : (cronNode false none).files (unitPathOf name) = none := ite_self none
    rw [hnone] at hfile
    cases hfile
  have h := recreation_current .ascii (fun s => (s, none)) copyOnceTask rfl (cronNode false none)
    (cronNode true (some cronUnit)) hanchored true false
  exact h.1 recreation (.inl rfl) rfl ⟨recreation_returns, recreation_drives⟩

end Container
end KollaPowerOps
