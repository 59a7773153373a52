import KollaPowerOps.Container.Compare

/-!
# Container.DockerCreate

What the Docker worker asks for when it creates a container, and the container that comes of it.

* `buildContainerOptions` : the options that are given to the engine.
* `refused`               : the options that the engine does not accept.
* `inspected`             : the container, where the engine reports exactly what was requested and the
  image declares no entrypoint, volumes or health check.
* `created`               : both, for the parameters.
-/

namespace KollaPowerOps
namespace Container
namespace Docker

/-! ## The options -/

/-- The dimensions as they are passed. -/
structure ResourceOptions where
  scalar : Dimension → Option (Option Scalar)
  ulimits : Option (List Ulimit)

def parseDimensions (dimensions : Dimensions) : Except WorkerExit ResourceOptions :=
  if dimensions.other ≠ [] then
    .error (.exitJson unsupportedMessage dimensions.other)
  else
    .ok {
      scalar := dimensions.scalar
      ulimits := match dimensions.ulimits with
        | some (some ulimits) => if ulimits.entries = [] then none else some (buildUlimits ulimits)
        | _ => none }

structure HostOptions where
  ipcMode : Option IpcMode
  capAdd : List Text
  securityOpt : List Text
  pidMode : Option PidMode
  privileged : Bool
  tmpfs : Option (List Text)
  volumesFrom : Option (List Text)
  resources : ResourceOptions
  binds : Option (OrderedDict Text VolumeBind)
  cgroupnsMode : Option CgroupnsMode

def buildHostConfig (p : Params) (binds : Option (OrderedDict Text VolumeBind)) :
    Except WorkerExit HostOptions := do
  let resources ← parseDimensions p.dimensions
  pure {
    ipcMode := p.ipcMode
    capAdd := p.capAdd
    securityOpt := p.securityOpt
    pidMode := p.pidMode
    privileged := p.privileged
    tmpfs := generateTmpfs p
    volumesFrom := p.volumesFrom
    resources := resources
    binds := binds
    cgroupnsMode := p.cgroupnsMode }

structure ContainerOptions where
  command : Option Text
  detach : Bool
  environment : OrderedDict Text Value
  hostConfig : HostOptions
  labels : OrderedDict Text Text
  image : Text
  name : Text
  volumes : Option (List Text)
  tty : Bool
  healthcheck : Option Healthcheck

variable (rt : PyRuntime)

def buildContainerOptions (p : Params) : Except WorkerExit ContainerOptions := do
  let volumes ← generateVolumes p.volumes
  let hostConfig ← buildHostConfig p (volumes.map Volumes.volDict)
  let healthcheck ← parseHealthcheck rt p.healthcheck
  pure {
    command := p.command
    detach := p.detach
    environment := formatEnvVars p
    hostConfig := hostConfig
    labels := p.labels
    image := p.image
    name := p.name
    volumes := volumes.map Volumes.volList
    tty := p.tty
    healthcheck := healthcheck }

/-! ## The container -/

/-- A path, with the options behind it. -/
def tmpfsMount (t : Text) : Text × Text := (t.takeWhile (· ≠ ':'), (t.dropWhile (· ≠ ':')).drop 1)

/-- The default of a dimension that is not requested; there is no kernel memory. -/
def defaultScalar : Dimension → Option Scalar
  | .limit .kernelMemory => none
  | .limit _ => some (.int 0)
  | .cpuset _ => some (.text [])

def hostResources (o : ResourceOptions) : HostResources where
  scalar d :=
    match o.scalar d with
    | some (some v) => some v
    | _ => defaultScalar d
  ulimits := o.ulimits

/-- The requested variables, as texts. -/
def envTexts (environment : OrderedDict Text Value) : OrderedDict Text Text :=
  environment.mapValues fun v => (v.toStr rt).toList

def envEntry (e : Text × Text) : Text := e.1 ++ '=' :: e.2

/-- The words that the container runs: those of the command, or else of the image. The command is
split as `shlex` does it. -/
def commandWords (image : Image) (command : Option Text) : Except WorkerExit (List Text) :=
  match command with
  | none => .ok image.cmd
  | some command =>
    match Shlex.split command with
    | none => .error (.raised .valueError)
    | some [] => .ok image.cmd
    | some words => .ok words

/-- The number that a limit denotes. -/
def limitNumber (v : Scalar) : Option Int :=
  match lastChar v.str with
  | .error _ => none
  | .ok c =>
    match expandUnit v.str c with
    | .error _ => none
    | .ok t => PyNumber.parseInt t

/-- The engine refuses a limit that is no number, and a mount without a destination. -/
def refused (o : ContainerOptions) : Bool :=
  (Container.dimensionMap.any fun d =>
    match d, o.hostConfig.resources.scalar d with
    | .limit _, some (some v) => (limitNumber v).isNone
    | _, _ => false) ||
  ((o.hostConfig.tmpfs.getD []).any fun t => (tmpfsMount t).1 = []) ||
  (o.volumes.getD []).any (· = [])

def inspected (image : Image) (state : ContainerState) (o : ContainerOptions) (words : List Text) :
    ContainerInfo where
  hostConfig := {
    capAdd := some o.hostConfig.capAdd
    securityOpt := some o.hostConfig.securityOpt
    ipcMode := o.hostConfig.ipcMode.map IpcMode.text
    pidMode := o.hostConfig.pidMode.map PidMode.text
    cgroupnsMode := o.hostConfig.cgroupnsMode.map CgroupnsMode.text
    cgroupMode := none
    privileged := o.hostConfig.privileged
    tmpfs := o.hostConfig.tmpfs.map fun ts => .ofList (ts.map tmpfsMount)
    binds := o.hostConfig.binds.map fun binds => binds.entries.map bindText
    volumesFrom := o.hostConfig.volumesFrom
    resources := hostResources o.hostConfig.resources }
  config := {
    image := o.image
    labels := image.labels.update o.labels
    env := (image.env.update (envTexts rt o.environment)).entries.map envEntry
    volumes := o.volumes
    healthcheck := o.healthcheck }
  image := image.id
  path := words.headD []
  args := words.tail
  status := state.text

/-- The container that is created with the parameters, in the requested state. -/
def created (image : Image) (p : Params) : Except WorkerExit ContainerInfo := do
  let o ← buildContainerOptions rt p
  let words ← commandWords image o.command
  if refused o then
    throw (.raised .apiError)
  pure (inspected rt image p.state o words)

/-- `check_container_differs`, where the image of the parameters is this one. -/
def differs (parseRepositoryTag : Text → Text × Option Text) (image : Image) (p : Params)
    (info : ContainerInfo) : Except WorkerExit Bool :=
  checkContainerDiffers id (.ok (some image)) parseRepositoryTag rt p (some info)

end Docker
end Container
end KollaPowerOps
