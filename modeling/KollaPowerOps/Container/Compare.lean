import KollaPowerOps.Container.Params

/-!
# Container.Compare

`check_container_differs`: a container that exists against the parameters, for the Docker worker.

* `compareCapAdd` ... `compareHealthcheck` : the comparisons that both workers inherit.
* `Docker.comparePidMode`, `Docker.compareImage`, `Docker.compareVolumes` : those of the Docker
  worker.
* `Docker.checkContainerDiffers`           : all of them, up to the first difference.

A comparison that Python leaves without a return value finds no difference.
-/

namespace KollaPowerOps
namespace Container

/-- `set(xs).symmetric_difference(set(ys))` is not empty. -/
def setsDiffer (xs ys : List Text) : Bool := !((xs.all (· ∈ ys)) && ys.all (· ∈ xs))

theorem setsDiffer_eq_false {xs ys : List Text} :
    setsDiffer xs ys = false ↔ ∀ t, t ∈ xs ↔ t ∈ ys := by
  rw [setsDiffer, Bool.not_eq_false', Bool.and_eq_true, List.all_eq_true, List.all_eq_true]
  constructor
  · rintro ⟨h, h'⟩ t
    exact ⟨fun ht => of_decide_eq_true (h t ht), fun ht => of_decide_eq_true (h' t ht)⟩
  · intro h
    exact ⟨fun t ht => decide_eq_true ((h t).mp ht), fun t ht => decide_eq_true ((h t).mpr ht)⟩

/-! ## The comparisons that are inherited -/

def compareIpcMode (p : Params) (info : ContainerInfo) : Bool :=
  match p.ipcMode with
  | some mode => info.hostConfig.ipcMode ≠ some mode.text
  -- only checked if it is specified
  | none => false

def compareCapAdd (p : Params) (info : ContainerInfo) : Bool :=
  setsDiffer p.capAdd (info.hostConfig.capAdd.getD [])

/-- Security options are disabled with the IPC or the PID mode of the host, and for a privileged
container. -/
def compareSecurityOpt (p : Params) (info : ContainerInfo) : Bool :=
  if p.ipcMode = some .host ∨ p.pidMode = some .host ∨ p.privileged then
    false
  else
    setsDiffer p.securityOpt (info.hostConfig.securityOpt.getD [])

/-- A mode that is reported as empty counts as none. -/
def nonempty (t : Option Text) : Option Text := t.filter (· ≠ [])

def compareCgroupnsMode (p : Params) (info : ContainerInfo) : Bool :=
  match p.cgroupnsMode with
  | none => false
  | some mode =>
    -- a container of an old engine behaves like 'host'
    let current := ((nonempty info.hostConfig.cgroupnsMode).or
      (nonempty info.hostConfig.cgroupMode)).getD CgroupnsMode.host.text
    mode.text ≠ current

def comparePrivileged (p : Params) (info : ContainerInfo) : Bool :=
  p.privileged ≠ info.hostConfig.privileged

/-- The labels of the image that are not requested are taken out of those of the container; `none`
where a requested one differs from the image's. -/
def withoutImageLabels (new : OrderedDict Text Text) :
    List (Text × Text) → OrderedDict Text Text → Except WorkerExit (Option (OrderedDict Text Text))
  | [], current => .ok (some current)
  | (k, v) :: imageLabels, current =>
    match new.get? k with
    | some v' => if v ≠ v' then .ok none else withoutImageLabels new imageLabels current
    | none =>
      if k ∈ current.keys then withoutImageLabels new imageLabels (current.erase k)
      else .error (.raised .keyError)

def compareLabels (p : Params) (image : Option Image) (info : ContainerInfo) :
    Except WorkerExit Bool :=
  match image with
  | none => .error (.raised .attributeError)
  | some image => do
    match ← withoutImageLabels p.labels image.labels.entries info.config.labels with
    | none => pure true
    | some current => pure (!p.labels.same current)

def compareTmpfs (p : Params) (info : ContainerInfo) : Bool :=
  setsDiffer ((info.hostConfig.tmpfs.getD .empty).keys) ((generateTmpfs p).getD [])

def compareVolumesFrom (p : Params) (info : ContainerInfo) : Bool :=
  setsDiffer (info.hostConfig.volumesFrom.getD []) (p.volumesFrom.getD [])

/-- `kv.split('=', 1)` -/
def splitEnv (kv : Text) : Except WorkerExit (Text × Text) :=
  if '=' ∈ kv then .ok (kv.takeWhile (· ≠ '='), (kv.dropWhile (· ≠ '=')).drop 1)
  else .error (.raised .valueError)

def compareEnvironment (p : Params) (info : ContainerInfo) : Except WorkerExit Bool :=
  if p.environment.entries = [] then
    .ok false
  else do
    let current := OrderedDict.ofList (← info.config.env.mapM splitEnv)
    pure (p.environment.entries.any fun e =>
      match current.get? e.1 with
      | none => true
      | some v => !e.2.isStr (String.ofList v))

def compareContainerState (p : Params) (info : ContainerInfo) : Bool := p.state.text ≠ info.status

def compareCommand (p : Params) (info : ContainerInfo) : Except WorkerExit Bool :=
  match p.command with
  | none => .ok false
  | some command =>
    match Shlex.split command with
    | none => .error (.raised .valueError)
    | some [] => .error (.raised .indexError)
    | some (newPath :: newArgs) => .ok (newPath ≠ info.path ∨ newArgs ≠ info.args)

def compareHealthcheck (rt : PyRuntime) (p : Params) (info : ContainerInfo) :
    Except WorkerExit Bool := do
  match ← parseHealthcheck rt p.healthcheck, info.config.healthcheck with
  | some new, some current => pure (new ≠ current)
  | some _, none => pure true
  | none, some _ => pure true
  | none, none => pure false

/-! ## The Docker worker -/

namespace Docker

def comparePidMode (p : Params) (info : ContainerInfo) : Bool :=
  p.pidMode.map PidMode.text ≠ nonempty info.hostConfig.pidMode

/-- The tags are read by `docker.utils.parse_repository_tag`. -/
def compareImage (parseRepositoryTag : Text → Text × Option Text) (p : Params)
    (image : Option Image) (info : ContainerInfo) : Bool :=
  match image with
  | none => true
  | some image => image.id ≠ info.image ∨
      parseRepositoryTag info.config.image ≠ parseRepositoryTag p.image

/-- A bind as the engine reports it. -/
def bindText (e : Text × VolumeBind) : Text := e.1 ++ ':' :: e.2.bind ++ ':' :: e.2.mode

def compareVolumes (p : Params) (info : ContainerInfo) : Except WorkerExit Bool := do
  let volumes := (← generateVolumes p.volumes).getD {}
  if setsDiffer volumes.volList (info.config.volumes.getD []) then
    pure true
  else
    pure (setsDiffer (volumes.volDict.entries.map bindText) (info.hostConfig.binds.getD []))

section Check

universe u

variable {m : Type → Type u} [Monad m] (lift : Except WorkerExit Bool → m Bool)
  (checkImage : m (Option Image)) (parseRepositoryTag : Text → Text × Option Text) (rt : PyRuntime)

/-- The comparisons in their order. The image is looked up for two of them. -/
def comparisons (p : Params) (info : ContainerInfo) : List (m Bool) := [
  lift (.ok (compareCapAdd p info)),
  lift (.ok (compareSecurityOpt p info)),
  do lift (.ok (compareImage parseRepositoryTag p (← checkImage) info)),
  lift (.ok (compareIpcMode p info)),
  do lift (compareLabels p (← checkImage) info),
  lift (.ok (comparePrivileged p info)),
  lift (.ok (comparePidMode p info)),
  lift (.ok (compareCgroupnsMode p info)),
  lift (.ok (compareTmpfs p info)),
  lift (compareVolumes p info),
  lift (.ok (compareVolumesFrom p info)),
  lift (compareEnvironment p info),
  lift (.ok (compareContainerState p info)),
  lift (compareDimensions p.dimensions info.hostConfig.resources),
  lift (compareCommand p info),
  lift (compareHealthcheck rt p info)]

def checkContainerDiffers (p : Params) (info : Option ContainerInfo) : m Bool :=
  match info with
  | none => pure true
  | some info => anyOf (comparisons lift checkImage parseRepositoryTag rt p info)

end Check

end Docker

end Container
end KollaPowerOps
