import KollaPowerOps.Container.DockerCreate
import KollaPowerOps.Container.Systemd

/-!
# Container.PodmanWorker

The Podman worker: its own comparisons, what it asks for when it creates a container, and its
actions, with the calls that they make.

* `comparisons`          : the comparisons, those of `ContainerWorker` among them.
* `prepareContainerArgs` : the arguments of a creation.
* `PodmanCall`           : the methods of the API client. An `APIError` that the worker catches is an
  answer.
* `act`                  : the method of an action.
-/

namespace KollaPowerOps
namespace Container

open Effect PyNumber

/-- An image, with what else its attributes say. -/
structure PodmanImage where
  image : Image
  other : Text

/-- `a == b` for the attributes. -/
def PodmanImage.same (a b : PodmanImage) : Bool :=
  a.image.id = b.image.id && a.image.repoTags = b.image.repoTags &&
    a.image.labels.same b.image.labels && a.image.env.same b.image.env &&
    a.image.cmd = b.image.cmd && a.other = b.other

structure PodmanContainer where
  name : Text
  status : Text
  attrs : ContainerInfo

namespace Podman

variable (rt : PyRuntime)

/-! ## Comparisons -/

def capPrefix : Text := "CAP_".toList

def auditWrite : Text := "CAP_AUDIT_WRITE".toList

def capName (cap : Text) : Text :=
  let cap := upper rt cap
  if capPrefix.isPrefixOf cap then cap else capPrefix ++ cap

def withAuditWrite (caps : List Text) : List Text :=
  if auditWrite ∈ caps then caps else caps ++ [auditWrite]

def compareCapAdd (p : Params) (info : ContainerInfo) : Bool :=
  let new := p.capAdd.map (capName rt)
  let current := (info.hostConfig.capAdd.getD []).map (upper rt)
  if info.hostConfig.privileged then setsDiffer new current
  else setsDiffer (withAuditWrite new) (withAuditWrite current)

def comparePidMode (p : Params) (info : ContainerInfo) : Bool :=
  let current := nonempty info.hostConfig.pidMode
  if p.pidMode = none ∧ current = some "private".toList then false
  else p.pidMode.map PidMode.text ≠ current

/-- `tag.rsplit('/', 1)[-1]` -/
def parseTag (tag : Text) : Text := (tag.reverse.takeWhile (· ≠ '/')).reverse

def compareImage (p : Params) (image : Option Image) (info : ContainerInfo) : Bool :=
  match image with
  | none => true
  | some image => image.id ≠ info.image ∨ parseTag p.image ≠ parseTag info.config.image

def checkSlash (s : Text) : Text :=
  match s.getLast? with
  | none => s
  | some c => if c = '/' then s else s ++ ['/']

def defaultFlags : List Text :=
  ["rprivate".toList, "nosuid".toList, "nodev".toList, "rbind".toList]

def specialPaths : List Text :=
  ["/proc".toList, "/run".toList, "/sys".toList, "/var/run".toList]

/-- The flags that tell a difference. -/
def normalizeMode (path mode : Text) : List Text :=
  let flags := if mode = [] then [] else mode.splitOn ','
  let flags := flags.filter (· ∉ defaultFlags)
  let flags :=
    if specialPaths.any (·.isPrefixOf path) then flags.filter (· ≠ "noexec".toList) else flags
  if "ro".toList ∈ flags ∨ "rw".toList ∈ flags then flags else "rw".toList :: flags

def buildBindList (binds : OrderedDict Text VolumeBind) : List (Text × Text × List Text) :=
  binds.entries.map fun e =>
    let dst := checkSlash e.2.bind
    (checkSlash e.1, dst, normalizeMode dst e.2.mode)

def sameBind (a b : Text × Text × List Text) : Bool :=
  a.1 = b.1 && a.2.1 = b.2.1 && !setsDiffer a.2.2 b.2.2

def bindsDiffer (xs ys : List (Text × Text × List Text)) : Bool :=
  !((xs.all fun x => ys.any (sameBind x)) && ys.all fun y => xs.any (sameBind y))

def volumePaths (v : Volumes) : List Text := (v.volList.filter (· ≠ [])).map checkSlash

def compareVolumes (p : Params) (info : ContainerInfo) : Except WorkerExit Bool := do
  let requested := (← generateVolumes p.volumes).getD {}
  let current := (← generateVolumes info.hostConfig.binds).getD {}
  if setsDiffer (volumePaths requested) (volumePaths current) then
    pure true
  else
    pure (bindsDiffer (buildBindList requested.volDict) (buildBindList current.volDict))

section Check

universe u

variable {m : Type → Type u} [Monad m] (lift : Except WorkerExit Bool → m Bool)
  (checkImage : m (Option Image))

/-- The comparisons in their order. The image is looked up for two of them. -/
def comparisons (p : Params) (info : ContainerInfo) : List (m Bool) := [
  lift (.ok (compareCapAdd rt p info)),
  lift (.ok (compareSecurityOpt p info)),
  do lift (.ok (compareImage p (← checkImage) info)),
  lift (.ok (compareIpcMode p info)),
  do lift (compareLabels p (← checkImage) info),
  lift (.ok (comparePrivileged p info)),
  lift (.ok (comparePidMode p info)),
  lift (.ok (compareCgroupnsMode p info)),
  lift (.ok (compareTmpfs p info)),
  lift (compareVolumes p info),
  lift (.ok (compareVolumesFrom p info)),
  lift (compareEnvironment p info),
  lift (.ok (compareContainerState p info)),
  lift (compareDimensions rt p.dimensions info.hostConfig.resources),
  lift (compareCommand p info),
  lift (compareHealthcheck rt p info)]

def checkContainerDiffers (p : Params) (info : Option ContainerInfo) : m Bool :=
  match info with
  | none => pure true
  | some info => anyOf (comparisons rt lift checkImage p info)

end Check

/-! ## Arguments -/

structure ContainerArgs where
  name : Text
  image : Text
  command : Option (List Text)
  mounts : List Mount
  volumes : OrderedDict Text VolumeBind
  environment : OrderedDict Text Text
  healthcheck : Option Healthcheck
  resources : Docker.ResourceOptions
  capAdd : List Text
  stopTimeout : Int
  cgroupns : Option CgroupnsMode
  detach : Bool
  ipcMode : Option IpcMode
  labels : OrderedDict Text Text
  pidMode : Option PidMode
  privileged : Bool
  tty : Bool
  volumesFrom : Option (List Text)

def splitCommand : Option Text → Except WorkerExit (Option (List Text))
  | none => .ok none
  | some [] => .ok none
  | some command =>
    match Shlex.split command with
    | none => .error (.raised .valueError)
    | some words => .ok (some words)

def preparedVolumes (volumes : Option (List Text)) : Except WorkerExit ParsedVolumes :=
  match parseVolumes (volumes.getD []) with
  | .ok parsed => .ok parsed
  | .error failure => .error (.failJson failure.msg)

/-- The default ulimits would be new ones to the engine. -/
def parseDimensions (dimensions : Dimensions) : Except WorkerExit Docker.ResourceOptions :=
  if dimensions.other ≠ [] then
    .error (.exitJson unsupportedMessage dimensions.other)
  else
    .ok {
      scalar := dimensions.scalar
      ulimits := match dimensions.ulimits with
        | some (some ulimits) =>
          if ulimits.entries = [] then none
          else some ((buildUlimits ulimits).filter fun u => u.name ∉ defaultUlimits)
        | _ => none }

def prepareContainerArgs (t : Task) : Except WorkerExit ContainerArgs := do
  let p := t.params
  let command ← splitCommand p.command
  let parsed ← preparedVolumes p.volumes
  let healthcheck ← parseHealthcheck rt p.healthcheck
  let resources ← parseDimensions p.dimensions
  pure {
    name := p.name
    image := p.image
    command := command
    mounts := parsed.mounts
    volumes := parsed.filteredVolumes
    environment := Docker.envTexts rt (formatEnvVars p)
    healthcheck := healthcheck
    resources := resources
    capAdd := if p.privileged then p.capAdd else p.capAdd ++ ["AUDIT_WRITE".toList]
    stopTimeout := t.gracefulTimeout
    cgroupns := p.cgroupnsMode
    detach := p.detach
    ipcMode := p.ipcMode
    labels := p.labels
    pidMode := p.pidMode
    privileged := p.privileged
    tty := p.tty
    volumesFrom := p.volumesFrom }

structure ImageArgs where
  repository : Text
  tag : Text
  tlsVerify : Bool
  /-- `auth_config`, the user name and the password -/
  authConfig : Option (Text × Text)
  /-- the image behind the registry -/
  image : Option Text

def truthyText (s : Option Text) : Option Text := s.filter (· ≠ [])

def prepareImageArgs (t : Task) : Except WorkerExit ImageArgs := do
  let (image, tag) ← t.parseImage
  pure {
    repository := image
    tag := tag
    tlsVerify := t.tlsVerify
    authConfig := (truthyText t.authUsername).map fun name => (name, t.authPassword.getD [])
    image := if '/' ∈ image then none
      else (truthyText t.authRegistry).map fun registry => registry ++ '/' :: image }

end Podman

/-! ## Calls -/

/-- How a removal of a volume or an image ends. -/
inductive Removal where
  | removed
  | conflict
  | failed (explanation : Text)
  deriving DecidableEq, Repr

inductive PodmanCall : Type → Type where
  /-- `none` where there is no such image; an error is any other one of the API -/
  | getImage (name : Text) : PodmanCall (Except Text (Option PodmanImage))
  /-- `none` where the image has no attributes -/
  | pull (args : Podman.ImageArgs) : PodmanCall (Except Text (Option PodmanImage))
  | getVolume (name : Text) : PodmanCall Bool
  | containers : PodmanCall (List PodmanContainer)
  | reload (c : PodmanContainer) : PodmanCall PodmanContainer
  /-- of the next three, `none` is a client error -/
  | getContainer (name : Text) : PodmanCall (Option PodmanContainer)
  | tryReload (c : PodmanContainer) : PodmanCall (Option PodmanContainer)
  | execRun (c : PodmanContainer) : PodmanCall (Option (Int × Text))
  /-- false if the container has no attributes -/
  | createContainer (args : Podman.ContainerArgs) : PodmanCall Bool
  /-- false if the API has raised an error -/
  | removeContainer (c : PodmanContainer) : PodmanCall Bool
  | start (c : PodmanContainer) : PodmanCall Unit
  | stop (c : PodmanContainer) (timeout : Int) : PodmanCall Unit
  /-- the status code -/
  | wait (c : PodmanContainer) : PodmanCall Int
  | logs (c : PodmanContainer) (stdout : Bool) : PodmanCall Text
  | createVolume (name : Text) : PodmanCall Unit
  | removeVolume (name : Text) : PodmanCall Removal
  | removeImage (image : PodmanImage) : PodmanCall Removal

namespace Podman

abbrev PodmanWorker : Type → Type 1 := Worker PodmanCall

section Worker

variable (rt : PyRuntime) (t : Task)

/-! ## Checks -/

def internalError (explanation : Text) : Text := "Internal error: ".toList ++ explanation

def checkImage : PodmanWorker (Option PodmanImage) := do
  let name ← compute t.fullImage
  match ← engine (.getImage name) with
  | .ok image => return image
  | .error explanation => failJson (internalError explanation)

/-- A name that is empty stands for the module's parameter. -/
def checkVolume (name : Text) : PodmanWorker Bool :=
  engine (.getVolume (if name = [] then t.params.name else name))

/-- The first container that has the name, once it is reloaded. -/
def findContainer : List PodmanContainer → PodmanWorker (Option PodmanContainer)
  | [] => pure none
  | c :: cs => do
    let c ← engine (.reload c)
    if t.params.name = c.name then return some c
    else findContainer cs

def checkContainer : PodmanWorker (Option PodmanContainer) := do
  findContainer t (← engine .containers)

def getContainerInfo : PodmanWorker (Option ContainerInfo) := do
  return (← checkContainer t).map PodmanContainer.attrs

def checkImageAttrs : PodmanWorker (Option Image) := do
  return (← checkImage t).map PodmanImage.image

def checkDiffers : PodmanWorker Bool := do
  checkContainerDiffers rt compute (checkImageAttrs t) t.params (← getContainerInfo t)

/-- The action `compare_image`. -/
def compareImageAction : PodmanWorker Bool := do
  match ← getContainerInfo t with
  | none => return true
  | some info => return compareImage t.params (← checkImageAttrs t) info

/-- A container that does not run, or cannot be asked, counts as stale. -/
def compareConfig : PodmanWorker Bool := do
  match ← engine (.getContainer t.params.name) with
  | none => return true
  | some c =>
    match ← engine (.tryReload c) with
    | none => return true
    | some c =>
      if c.status ≠ "running".toList then return true
      else
        match ← engine (.execRun c) with
        | none => return true
        | some (rc, output) =>
          if rc = 0 then return false
          else if rc = 1 then return true
          else
            failJson ("Failed to compare container configuration: ExitCode: ".toList ++
              decimal rc ++ " Message: ".toList ++ output)

def compareContainer : PodmanWorker Bool := do
  let stale ← anyOf [
    do return (← checkContainer t).isNone,
    checkDiffers rt t,
    compareConfig t,
    Systemd.checkUnitChange t (Systemd.generateUnitFile t)]
  setChangedIf stale
  get

/-! ## Images -/

def unknownError (message : Text) : Text := "Unknown error message: ".toList ++ message

/-- `old_image != image.attrs` -/
def imageChanged (old : Option PodmanImage) (new : PodmanImage) : Bool := !(old.any (·.same new))

def pullImage : PodmanWorker Unit := do
  let args ← compute (prepareImageArgs t)
  let oldImage ← checkImage t
  match ← engine (.pull args) with
  | .error message => failJson (unknownError message)
  | .ok none =>
    failJson ("The requested image does not exist: ".toList ++ t.params.image)
  | .ok (some image) => setChanged (imageChanged oldImage image)

def ensureImage : PodmanWorker Unit := do
  if (← checkImage t).isNone then pullImage t

def inUse (kind name : Text) : Text := kind ++ " '".toList ++ name ++ "' is currently in-use".toList

def removeImage : PodmanWorker Unit := do
  if (← checkImage t).isSome then
    match ← engine (.getImage t.params.image) with
    | .ok (some image) =>
      setChanged true
      match ← engine (.removeImage image) with
      | .removed => pure ()
      | .conflict => failJson (inUse "Image".toList t.params.image)
      | .failed explanation => failJson (internalError explanation)
    | _ => fail (.raised .apiError)

/-! ## Volumes -/

def createVolume (name : Text) : PodmanWorker Unit := do
  let volumeName := if name = [] then t.params.name else name
  if !(← checkVolume t volumeName) then
    setChanged true
    engine (.createVolume volumeName)

/-- The name before the first colon, unless it is a path. -/
def createContainerVolume (volume : Text) : PodmanWorker Unit :=
  let volumeName := volume.takeWhile (· ≠ ':')
  if '/' ∈ volumeName then pure () else createVolume t volumeName

def createVolumesOf : List Text → PodmanWorker Unit
  | [] => pure ()
  | volume :: volumes => do
    createContainerVolume t volume
    createVolumesOf volumes

def createContainerVolumes : PodmanWorker Unit := createVolumesOf t (t.params.volumes.getD [])

def removeVolume : PodmanWorker Unit := do
  if ← checkVolume t [] then
    setChanged true
    match ← engine (.removeVolume t.params.name) with
    | .removed => pure ()
    | .conflict => failJson (inUse "Volume named".toList t.params.name)
    | .failed explanation => failJson (internalError explanation)

/-! ## The container -/

/-- A removal that fails is taken for done if the container is gone. -/
def removeContainer : PodmanWorker Unit := do
  orChanged (← Systemd.removeUnitFile t)
  match ← checkContainer t with
  | none => pure ()
  | some container =>
    if !(← engine (.removeContainer container)) then
      if (← checkContainer t).isSome then
        fail (.raised .apiError)

def createContainer : PodmanWorker Unit := do
  createContainerVolumes t
  let args ← compute (prepareContainerArgs rt t)
  if ← engine (.createContainer args) then
    orChanged (← Systemd.createUnitFile t)
  else
    failJson "Creation failed".toList

def noSuchContainer : Text := "No such container: ".toList ++ t.params.name

/-- The container does not run any more. -/
def isDown (c : PodmanContainer) : Bool := c.status = "exited".toList ∨ c.status = "stopped".toList

def stopContainer : PodmanWorker Unit := do
  match ← checkContainer t with
  | none => if t.ignoreMissing then pure () else failJson (noSuchContainer t ++ " to stop".toList)
  | some container =>
    if !isDown container then
      setChanged true
      if !t.isOneshot then
        let _ ← Systemd.createUnitFile t
        let _ ← Systemd.stop t
      else
        engine (.stop container t.stopTimeout)

def stopAndRemoveContainer : PodmanWorker Unit := do
  if (← checkContainer t).isSome then
    stopContainer t
    removeContainer t

def timedOut : Text := "Container timed out".toList

def restartContainer : PodmanWorker Unit := do
  match ← checkContainer t with
  | none => failJson (noSuchContainer t)
  | some _ =>
    setChanged true
    let _ ← Systemd.createUnitFile t
    if !(← Systemd.restart t) then failJson timedOut

/-- A container that differs is stopped and removed. -/
def removeIfDiffers : PodmanWorker (Option PodmanContainer) := do
  match ← checkContainer t with
  | none => return none
  | some container =>
    if ← checkDiffers rt t then
      stopContainer t
      removeContainer t
      checkContainer t
    else
      return some container

def createIfMissing (container : Option PodmanContainer) :
    PodmanWorker (Option PodmanContainer) := do
  match container with
  | none =>
    createContainer rt t
    checkContainer t
  | some container => return some container

/-- The container, which has to be there. -/
def foundContainer (container : Option PodmanContainer) : PodmanWorker PodmanContainer :=
  match container with
  | none => fail (.raised .attributeError)
  | some container => pure container

def startIfDown (container : PodmanContainer) : PodmanWorker Unit := do
  if container.status ≠ "running".toList then
    setChanged true
    if t.isOneshot then
      let container ← foundContainer (← checkContainer t)
      engine (.start container)
    else
      let _ ← Systemd.createUnitFile t
      if !(← Systemd.start t) then
        let _ ← checkContainer t
        failJson timedOut

def removeExited : PodmanWorker Unit := do
  if t.removeOnExit then
    stopContainer t
    removeContainer t

/-- Without `detach` the worker waits for the container to exit. -/
def waitForExit : PodmanWorker Unit := do
  if !t.params.detach then
    let container ← foundContainer (← checkContainer t)
    let rc ← engine (.wait container)
    let _ ← engine (.logs container true)
    let _ ← engine (.logs container false)
    removeExited t
    if rc ≠ 0 then
      failJson ("Container exited with non-zero return code ".toList ++ decimal rc)

/-- `start_container`, from where the image is there. -/
def startWithImage : PodmanWorker Unit := do
  let container ← removeIfDiffers rt t
  let container ← createIfMissing rt t container
  startIfDown t (← foundContainer container)
  waitForExit t

def startContainer : PodmanWorker Unit := do
  ensureImage t
  startWithImage rt t

def configStrategy : Option Value := t.params.environment.get? "KOLLA_CONFIG_STRATEGY".toList

/-- `recreate_or_restart_container`, from where the image is there. -/
def recreateWithImage : PodmanWorker Unit := do
  stopContainer t
  removeContainer t
  startContainer rt t

/-- The container is to be created anew. -/
def mustRecreate : PodmanWorker Bool := do
  if (configStrategy t).any (Value.isStr "COPY_ONCE") then return true
  else checkDiffers rt t

def recreateOrRestartContainer : PodmanWorker Unit := do
  match ← getContainerInfo t with
  | none => startContainer rt t
  | some _ =>
    if ← mustRecreate rt t then
      ensureImage t
      recreateWithImage rt t
    else if (configStrategy t).any (Value.isStr "COPY_ALWAYS") then
      restartContainer t

/-- `bool(getattr(cw, action)())` -/
def act : Action → PodmanWorker Bool
  | .compareContainer => compareContainer rt t
  | .compareImage => compareImageAction t
  | .createVolume => do createVolume t []; return false
  | .ensureImage => do ensureImage t; return false
  | .pullImage => do pullImage t; return false
  | .recreateOrRestartContainer => do recreateOrRestartContainer rt t; return false
  | .removeContainer => do removeContainer t; return false
  | .removeImage => do removeImage t; return false
  | .removeVolume => do removeVolume t; return false
  | .restartContainer => do restartContainer t; return false
  | .startContainer => do startContainer rt t; return false
  | .stopContainer => do stopContainer t; return false
  | .stopAndRemoveContainer => do stopAndRemoveContainer t; return false

end Worker

end Podman

end Container
end KollaPowerOps
