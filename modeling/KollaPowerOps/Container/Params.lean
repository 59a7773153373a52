import KollaPowerOps.Lib.Shlex
import KollaPowerOps.Container.Dimensions
import KollaPowerOps.Container.PodmanVolumes

/-!
# Container.Params

The parameters of a container as `generate_module` leaves them, what both workers make of them, and
what the engines report.

* `Params`                  : the parameters.
* `generateVolumes`, `generateTmpfs`, `parseHealthcheck`, `formatEnvVars` : the encodings.
* `Image`, `ContainerInfo`  : an image of the engine, and a container as it is inspected.
-/

namespace KollaPowerOps
namespace Container

inductive IpcMode where
  | host
  | privateNs
  | shareable
  deriving DecidableEq, Repr

def IpcMode.text : IpcMode → Text
  | .host => "host".toList
  | .privateNs => "private".toList
  | .shareable => "shareable".toList

inductive PidMode where
  | host
  | privateNs
  deriving DecidableEq, Repr

def PidMode.text : PidMode → Text
  | .host => "host".toList
  | .privateNs => "private".toList

inductive CgroupnsMode where
  | privateNs
  | host
  deriving DecidableEq, Repr

def CgroupnsMode.text : CgroupnsMode → Text
  | .privateNs => "private".toList
  | .host => "host".toList

/-- The choices of `state`. -/
inductive ContainerState where
  | running
  | exited
  | paused
  deriving DecidableEq, Repr

def ContainerState.text : ContainerState → Text
  | .running => "running".toList
  | .exited => "exited".toList
  | .paused => "paused".toList

/-- The parameters; an empty `ipc_mode` or `pid_mode` has been removed. -/
structure Params where
  name : Text
  image : Text
  command : Option Text := none
  environment : OrderedDict Text Value := .empty
  labels : OrderedDict Text Text := .empty
  capAdd : List Text := []
  securityOpt : List Text := []
  ipcMode : Option IpcMode := none
  pidMode : Option PidMode := none
  cgroupnsMode : Option CgroupnsMode := none
  privileged : Bool := false
  tmpfs : Option (List Text) := none
  volumes : Option (List Text) := none
  volumesFrom : Option (List Text) := none
  dimensions : Dimensions := {}
  healthcheck : Option (OrderedDict Text Value) := none
  state : ContainerState := .running
  detach : Bool := true
  tty : Bool := false

/-! ## Volumes and temporary file systems -/

/-- The two collections that `generate_volumes` fills. -/
structure Volumes where
  volList : List Text := []
  volDict : OrderedDict Text VolumeBind := .empty

/-- `'rw'` is the mode of two parts, unless a path is mounted on a name. -/
def defaultMode : List Text → List Text
  | [src, dst] => if '/' ∉ src ∨ '/' ∈ dst then [src, dst, "rw".toList] else [src, dst]
  | splitVol => splitVol

/-- One pass of the loop. -/
def generateVolume (v : Volumes) (vol : Text) : Except WorkerExit Volumes :=
  if vol = [] then
    .ok v
  else if ':' ∉ vol then
    .ok { v with volList := v.volList ++ [vol] }
  else
    match defaultMode (vol.splitOn ':') with
    | src :: dst :: mode :: _ =>
      .ok { volList := v.volList ++ [dst], volDict := v.volDict.set src { bind := dst, mode := mode } }
    | _ => .error (.raised .indexError)

def generateVolumes (volumes : Option (List Text)) : Except WorkerExit (Option Volumes) :=
  match volumes with
  | none | some [] => .ok none
  | some volumes => (volumes.foldlM generateVolume {}).map some

def generateTmpfs (p : Params) : Option (List Text) := p.tmpfs.map fun ts => ts.filter (· ≠ [])

/-! ## The environment -/

def serviceNameKey : Text := "KOLLA_SERVICE_NAME".toList

/-- The name of the service, with `-` for `_`. -/
def serviceName (p : Params) : Text := p.name.map fun c => if c = '_' then '-' else c

/-- `_inject_env_var` -/
def injectEnvVar (p : Params) : OrderedDict Text Value :=
  p.environment.set serviceNameKey (.str (String.ofList (serviceName p)))

/-- `_format_env_vars`: null becomes the empty text. -/
def formatEnvVars (p : Params) : OrderedDict Text Value :=
  (injectEnvVar p).mapValues fun v => if v matches .none then .str "" else v

/-! ## The health check -/

structure Healthcheck where
  test : List Text := []
  interval : Int := 0
  timeout : Int := 0
  startPeriod : Int := 0
  retries : Int := 0
  deriving DecidableEq, Repr

/-- The supported keys. -/
inductive HealthKey where
  | test
  | interval
  | timeout
  | startPeriod
  | retries
  deriving DecidableEq, Repr

def HealthKey.text : HealthKey → Text
  | .test => "test".toList
  | .interval => "interval".toList
  | .timeout => "timeout".toList
  | .startPeriod => "start_period".toList
  | .retries => "retries".toList

def HealthKey.all : List HealthKey := [.test, .interval, .timeout, .startPeriod, .retries]

def HealthKey.ofText (t : Text) : Option HealthKey := all.find? fun k => k.text = t

/-- `int(value)` -/
def toInt : Value → Except WorkerExit Int
  | .int i => .ok i
  | .bool b => .ok (if b then 1 else 0)
  | .float x =>
    match x.value with
    | some q => .ok (q.num.tdiv q.den)
    | none => .error (.raised .valueError)
  | .str s => ofParsed (PyNumber.parseInt s.toList)
  | .bytes b => ofParsed (PyNumber.parseInt (b.map fun n => Char.ofNat n.toNat))
  | _ => .error (.raised .typeError)
where
  ofParsed : Option Int → Except WorkerExit Int
    | some i => .ok i
    | none => .error (.raised .valueError)

/-- The test is `NONE`: the health check is disabled. -/
def isDisabled : Value → Bool
  | .str s => s = "NONE"
  | .list [.str s] => s = "NONE"
  | _ => false

def testWords (rt : PyRuntime) : Value → List Text
  | .list xs => xs.map fun e => (e.toStr rt).toList
  | value => ["CMD-SHELL".toList, (value.toStr rt).toList]

def nanoseconds : Int := 1000000000

/-- The loop over the options; `none` where the health check is disabled. -/
def healthLoop (rt : PyRuntime) : List (Text × Value) → Healthcheck →
    Except WorkerExit (Option Healthcheck)
  | [], result => .ok (some result)
  | (key, value) :: options, result =>
    match HealthKey.ofText key with
    | some .test =>
      if isDisabled value then .ok none
      else healthLoop rt options { result with test := testWords rt value }
    | some .interval => do
      healthLoop rt options { result with interval := (← toInt value) * nanoseconds }
    | some .timeout => do
      healthLoop rt options { result with timeout := (← toInt value) * nanoseconds }
    | some .startPeriod => do
      healthLoop rt options { result with startPeriod := (← toInt value) * nanoseconds }
    | some .retries => do
      healthLoop rt options { result with retries := ← toInt value }
    | none => healthLoop rt options result

def parseHealthcheck (rt : PyRuntime) (healthcheck : Option (OrderedDict Text Value)) :
    Except WorkerExit (Option Healthcheck) :=
  match healthcheck with
  | none => .ok none
  | some options =>
    if options.entries = [] then
      .ok none
    else
      let unsupported := options.keys.filter fun k => HealthKey.ofText k = none
      let missing := (HealthKey.all.map HealthKey.text).filter fun k => k ∉ options.keys
      if unsupported ≠ [] then
        .error (.exitJson "'Unsupported healthcheck options'".toList unsupported)
      else if missing ≠ [] then
        .error (.exitJson "'Missing healthcheck option'".toList missing)
      else
        healthLoop rt options.entries {}

/-! ## What the engines report -/

/-- An image: what its listing and its configuration say. -/
theorem empty_plain : ∀ k ∈ (OrderedDict.empty : OrderedDict Text Text).keys, '=' ∉ k := by decide

structure Image where
  id : Text
  repoTags : List Text
  labels : OrderedDict Text Text := .empty
  env : OrderedDict Text Text := .empty
  cmd : List Text := []
  env_plain : ∀ k ∈ env.keys, '=' ∉ k := by decide

structure HostConfig where
  capAdd : Option (List Text)
  securityOpt : Option (List Text)
  ipcMode : Option Text
  pidMode : Option Text
  cgroupnsMode : Option Text
  cgroupMode : Option Text
  privileged : Bool
  tmpfs : Option (OrderedDict Text Text)
  binds : Option (List Text)
  volumesFrom : Option (List Text)
  resources : HostResources

structure ContainerConfig where
  image : Text
  labels : OrderedDict Text Text
  env : List Text
  volumes : Option (List Text)
  healthcheck : Option Healthcheck

/-- What inspecting a container gives. -/
structure ContainerInfo where
  hostConfig : HostConfig
  config : ContainerConfig
  image : Text
  path : Text
  args : List Text
  status : Text

end Container
end KollaPowerOps
