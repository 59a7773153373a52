import KollaPowerOps.Container.DockerCreate
import KollaPowerOps.Container.Systemd

/-!
# Container.DockerWorker

The actions of the Docker worker, with the calls that they make.

* `DockerCall`  : the methods of the API client. An `APIError` that the worker catches is an answer.
* `act`         : the method of an action.

`rt` is the interpreter and `parseRepositoryTag` the function of `docker.utils`.
-/

namespace KollaPowerOps
namespace Container

open Effect PyNumber

/-- A container as it is listed. -/
structure ContainerSummary where
  names : List Text
  status : Text

/-- A line of the answer to a pull. -/
structure PullStatus where
  error : Option Text := none

inductive VolumeRemoval where
  | removed
  | conflict
  deriving DecidableEq, Repr

inductive ImageRemoval where
  | removed
  | conflict
  | serverError
  deriving DecidableEq, Repr

inductive DockerCall : Type → Type where
  | images : DockerCall (List Image)
  /-- `images(name=name, quiet=True)` -/
  | imageIds (name : Text) : DockerCall (List Text)
  | volumes : DockerCall (Option (List Text))
  | containers : DockerCall (List ContainerSummary)
  | inspectContainer (name : Text) : DockerCall ContainerInfo
  /-- of the next three, `none` is a client error -/
  | execCreate (name : Text) : DockerCall (Option Text)
  | execStart (job : Text) : DockerCall (Option Text)
  | execInspect (job : Text) : DockerCall (Option Int)
  | login (username : Text) (password registry email : Option Text) : DockerCall Unit
  | pull (repository tag : Text) : DockerCall (List PullStatus)
  | createContainer (options : Docker.ContainerOptions) : DockerCall Unit
  /-- false if the API has raised an error -/
  | removeContainer (name : Text) : DockerCall Bool
  | start (name : Text) : DockerCall Unit
  | stop (name : Text) (timeout : Int) : DockerCall Unit
  /-- the status code -/
  | wait (name : Text) : DockerCall Int
  | logs (name : Text) (stdout : Bool) : DockerCall Text
  | createVolume (name : Text) : DockerCall Unit
  | removeVolume (name : Text) : DockerCall VolumeRemoval
  | removeImage (image : Text) : DockerCall ImageRemoval

namespace Docker

abbrev DockerWorker : Type → Type 1 := Worker DockerCall

section Worker

variable (rt : PyRuntime) (parseRepositoryTag : Text → Text × Option Text) (t : Task)

/-! ## Checks -/

/-- `':'.join(self.parse_image())` -/
def findImage : Except WorkerExit Text := do
  let (image, tag) ← t.parseImage
  pure (image ++ ':' :: tag)

def checkImage : DockerWorker (Option Image) := do
  let name ← compute (findImage t)
  let images ← engine .images
  return images.find? fun image => image.repoTags.contains name

/-- The volume with the name of the module's parameter is there. -/
def checkVolume : DockerWorker Bool := do
  let volumes ← engine .volumes
  return (volumes.getD []).contains t.params.name

def isNamed (c : ContainerSummary) : Bool := c.names.contains ('/' :: t.params.name)

def checkContainer : DockerWorker (Option ContainerSummary) := do
  let containers ← engine .containers
  return containers.find? (isNamed t)

def getContainerInfo : DockerWorker (Option ContainerInfo) := do
  match ← checkContainer t with
  | none => return none
  | some _ => return some (← engine (.inspectContainer t.params.name))

def checkDiffers : DockerWorker Bool := do
  checkContainerDiffers compute (checkImage t) parseRepositoryTag rt t.params (← getContainerInfo t)

/-- The action `compare_image`. -/
def compareImageAction : DockerWorker Bool := do
  match ← getContainerInfo t with
  | none => return true
  | some info => return compareImage parseRepositoryTag t.params (← checkImage t) info

def compareFailed (exitCode : Int) (output : Text) : Text :=
  "Failed to compare container configuration: ExitCode: ".toList ++ decimal exitCode ++
    " Message: ".toList ++ output

/-- A container that cannot be asked counts as stale. -/
def compareConfig : DockerWorker Bool := do
  match ← engine (.execCreate t.params.name) with
  | none => return true
  | some job =>
    match ← engine (.execStart job) with
    | none => return true
    | some output =>
      match ← engine (.execInspect job) with
      | none => return true
      | some exitCode =>
        if exitCode = 0 then return false
        else if exitCode = 1 then return true
        else if exitCode = 137 then return true
        else failJson (compareFailed exitCode output)

def compareContainer : DockerWorker Bool := do
  let stale ← anyOf [
    do return (← checkContainer t).isNone,
    checkDiffers rt parseRepositoryTag t,
    compareConfig t,
    Systemd.checkUnitChange t (Systemd.generateUnitFile t)]
  setChangedIf stale
  get

/-! ## Images -/

/-- The identifier of the image, if exactly one is listed under its name. -/
def getImageId : DockerWorker (Option Text) := do
  let name ← compute t.fullImage
  match ← engine (.imageIds name) with
  | [id] => return some id
  | _ => return none

def notFound : Text := "not found".toList

def pullError (image tag error : Text) : Text :=
  if notFound.isSuffixOf error then
    "The requested image does not exist: ".toList ++ image ++ ':' :: tag
  else
    "Unknown error message: ".toList ++ error

def loginIfAsked : DockerWorker Unit :=
  match t.authUsername with
  | none => pure ()
  | some username =>
    if username = [] then pure ()
    else engine (.login username t.authPassword t.authRegistry t.authEmail)

def pullImage : DockerWorker Unit := do
  loginIfAsked t
  let (image, tag) ← compute t.parseImage
  let oldImageId ← getImageId t
  let statuses ← engine (.pull image tag)
  match statuses.reverse.findSome? PullStatus.error with
  | some error => failJson (pullError image tag error)
  | none =>
    let newImageId ← getImageId t
    setChanged (oldImageId ≠ newImageId)

def ensureImage : DockerWorker Unit := do
  if (← checkImage t).isNone then pullImage t

/-! ## Volumes -/

/-- `create_volume`, with a name that is not empty or the module's parameter. -/
def createVolume (name : Text) : DockerWorker Unit := do
  let volumeName := if name = [] then t.params.name else name
  if !(← checkVolume t) then
    setChanged true
    engine (.createVolume volumeName)

/-- The name before the first colon, unless it is a path. -/
def createContainerVolume (volume : Text) : DockerWorker Unit :=
  let volumeName := volume.takeWhile (· ≠ ':')
  if '/' ∈ volumeName then pure () else createVolume t volumeName

def createVolumesOf : List Text → DockerWorker Unit
  | [] => pure ()
  | volume :: volumes => do
    createContainerVolume t volume
    createVolumesOf volumes

def createContainerVolumes : DockerWorker Unit := createVolumesOf t (t.params.volumes.getD [])

def removeVolume : DockerWorker Unit := do
  if ← checkVolume t then
    setChanged true
    match ← engine (.removeVolume t.params.name) with
    | .removed => pure ()
    | .conflict =>
      failJson ("Volume named '".toList ++ t.params.name ++ "' is currently in-use".toList)

def removeImage : DockerWorker Unit := do
  if (← checkImage t).isSome then
    setChanged true
    match ← engine (.removeImage t.params.image) with
    | .removed => pure ()
    | .conflict => failJson ("Image '".toList ++ t.params.image ++ "' is currently in-use".toList)
    | .serverError => failJson "Server error".toList

/-! ## The container -/

/-- A removal that fails is taken for done if the container is gone. -/
def removeContainer : DockerWorker Unit := do
  orChanged (← Systemd.removeUnitFile t)
  if (← checkContainer t).isSome then
    setChanged true
    if ← engine (.removeContainer t.params.name) then
      let _ ← Systemd.removeUnitFile t
    else if (← checkContainer t).isSome then
      fail (.raised .apiError)

def createContainer : DockerWorker Unit := do
  setChanged true
  createContainerVolumes t
  let options ← compute (buildContainerOptions rt t.params)
  engine (.createContainer options)
  if !t.isOneshot then orChanged (← Systemd.createUnitFile t)

def noSuchContainer : Text := "No such container: ".toList ++ t.params.name

def stopContainer : DockerWorker Unit := do
  match ← checkContainer t with
  | none => if t.ignoreMissing then pure () else failJson (noSuchContainer t ++ " to stop".toList)
  | some container =>
    if !"Exited ".toList.isPrefixOf container.status then
      setChanged true
      if ← Systemd.checkUnitFile t then
        let _ ← Systemd.stop t
      else
        engine (.stop t.params.name t.stopTimeout)

def stopAndRemoveContainer : DockerWorker Unit := do
  if (← checkContainer t).isSome then
    stopContainer t
    removeContainer t

/-- `fail_json` with what the listing says of the container. -/
def timedOut : DockerWorker Unit := do
  let _ ← checkContainer t
  failJson "Container timed out".toList

def restartContainer : DockerWorker Unit := do
  match ← getContainerInfo t with
  | none => failJson (noSuchContainer t)
  | some _ =>
    setChanged true
    if !t.isOneshot then
      let _ ← Systemd.createUnitFile t
      if !(← Systemd.restart t) then timedOut t
    else
      engine (.stop t.params.name t.stopTimeout)
      engine (.start t.params.name)

/-- A container that differs is stopped and removed. -/
def removeIfDiffers : DockerWorker (Option ContainerSummary) := do
  match ← checkContainer t with
  | none => return none
  | some container =>
    if ← checkDiffers rt parseRepositoryTag t then
      stopContainer t
      removeContainer t
      checkContainer t
    else
      return some container

def createIfMissing (container : Option ContainerSummary) :
    DockerWorker (Option ContainerSummary) := do
  match container with
  | none =>
    createContainer rt t
    checkContainer t
  | some container => return some container

def startIfDown (container : Option ContainerSummary) : DockerWorker Unit := do
  match container with
  | none => fail (.raised .typeError)
  | some container =>
    if !"Up ".toList.isPrefixOf container.status then
      setChanged true
      if t.isOneshot then
        engine (.start t.params.name)
      else
        let _ ← Systemd.createUnitFile t
        if !(← Systemd.start t) then timedOut t

def removeExited : DockerWorker Unit := do
  if t.removeOnExit then
    stopContainer t
    removeContainer t

/-- Without `detach` the worker waits for the container to exit. -/
def waitForExit : DockerWorker Unit := do
  if !t.params.detach then
    let rc ← engine (.wait t.params.name)
    let _ ← engine (.logs t.params.name true)
    let _ ← engine (.logs t.params.name false)
    removeExited t
    if rc ≠ 0 then
      failJson ("Container exited with non-zero return code ".toList ++ decimal rc)

/-- `start_container`, from where the image is there. -/
def startWithImage : DockerWorker Unit := do
  let container ← removeIfDiffers rt parseRepositoryTag t
  let container ← createIfMissing rt t container
  startIfDown t container
  waitForExit t

def startContainer : DockerWorker Unit := do
  ensureImage t
  startWithImage rt parseRepositoryTag t

def configStrategy : Option Value := t.params.environment.get? "KOLLA_CONFIG_STRATEGY".toList

/-- `recreate_or_restart_container`, from where the image is there. -/
def recreateWithImage : DockerWorker Unit := do
  stopContainer t
  removeContainer t
  startContainer rt parseRepositoryTag t

/-- The container is to be created anew. -/
def mustRecreate : DockerWorker Bool := do
  if (configStrategy t).any (Value.isStr "COPY_ONCE") then return true
  else checkDiffers rt parseRepositoryTag t

def recreateOrRestartContainer : DockerWorker Unit := do
  setChanged true
  match ← checkContainer t with
  | none => startContainer rt parseRepositoryTag t
  | some _ =>
    if ← mustRecreate rt parseRepositoryTag t then
      ensureImage t
      recreateWithImage rt parseRepositoryTag t
    else if (configStrategy t).any (Value.isStr "COPY_ALWAYS") then
      restartContainer t

/-- `bool(getattr(cw, action)())` -/
def act : Action → DockerWorker Bool
  | .compareContainer => compareContainer rt parseRepositoryTag t
  | .compareImage => compareImageAction parseRepositoryTag t
  | .createVolume => do createVolume t []; return false
  | .ensureImage => do ensureImage t; return false
  | .pullImage => do pullImage t; return false
  | .recreateOrRestartContainer => do
    recreateOrRestartContainer rt parseRepositoryTag t
    return false
  | .removeContainer => do removeContainer t; return false
  | .removeImage => do removeImage t; return false
  | .removeVolume => do removeVolume t; return false
  | .restartContainer => do restartContainer t; return false
  | .startContainer => do startContainer rt parseRepositoryTag t; return false
  | .stopContainer => do stopContainer t; return false
  | .stopAndRemoveContainer => do stopAndRemoveContainer t; return false

end Worker

end Docker

end Container
end KollaPowerOps
