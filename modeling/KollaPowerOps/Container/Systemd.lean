import KollaPowerOps.Lib.Triple
import KollaPowerOps.Container.Params

/-!
# Container.Systemd

What both container workers stand on: the parameters of a run of the module, the flag `changed`, and
the systemd worker.

A `Worker` keeps the flag as its state and calls its engine or systemd. An exception that the code
catches is an answer of the call; every other one ends the run.
-/

namespace KollaPowerOps
namespace Container

open Effect PyNumber

/-! ## The parameters -/

inductive RestartPolicy where
  | no
  | onFailure
  | oneshot
  | always
  | unlessStopped
  deriving DecidableEq, Repr

def RestartPolicy.text : RestartPolicy → Text
  | .no => "no".toList
  | .onFailure => "on-failure".toList
  | .oneshot => "oneshot".toList
  | .always => "always".toList
  | .unlessStopped => "unless-stopped".toList

/-- The parameters of the module, with the defaults of the common options. A run with
`restart_retries` 0 ends before its action. -/
theorem restartRetries_default : (10 : Int) ≠ 0 := by decide

structure Task where
  params : Params
  /-- `image` is given; else `params.image` is read nowhere -/
  imageGiven : Bool := true
  containerEngine : Text := "docker".toList
  restartPolicy : Option RestartPolicy := none
  restartRetries : Int := 10
  restartRetries_ne : restartRetries ≠ 0 := by decide
  gracefulTimeout : Int := 10
  clientTimeout : Int := 120
  removeOnExit : Bool := true
  ignoreMissing : Bool := false
  authUsername : Option Text := none
  authPassword : Option Text := none
  authRegistry : Option Text := none
  authEmail : Option Text := none
  tlsVerify : Bool := false

inductive Action where
  | compareContainer
  | compareImage
  | createVolume
  | ensureImage
  | pullImage
  | recreateOrRestartContainer
  | removeContainer
  | removeImage
  | removeVolume
  | restartContainer
  | startContainer
  | stopContainer
  | stopAndRemoveContainer
  deriving DecidableEq, Repr

/-- `full_image`; without an image `'/' in None` is refused. -/
def Task.fullImage (t : Task) : Except WorkerExit Text :=
  if t.imageGiven then .ok t.params.image else .error (.raised .typeError)

/-- `s.rsplit(':', 1)` of a text with a colon. -/
def rsplitColon (s : Text) : Text × Text :=
  ((s.reverse.dropWhile (· ≠ ':')).drop 1 |>.reverse, (s.reverse.takeWhile (· ≠ ':')).reverse)

/-- The image behind the registry, or all of it. -/
def behindRegistry (s : Text) : Text := if '/' ∈ s then (s.dropWhile (· ≠ '/')).drop 1 else s

/-- `parse_image` -/
def Task.parseImage (t : Task) : Except WorkerExit (Text × Text) := do
  let fullImage ← t.fullImage
  if ':' ∈ behindRegistry fullImage then
    pure (rsplitColon fullImage)
  else
    pure (fullImage, "latest".toList)

theorem Task.fullImage_given {t : Task} (h : t.imageGiven = true) :
    t.fullImage = .ok t.params.image := if_pos h

theorem Task.fullImage_missing {t : Task} (h : t.imageGiven = false) :
    t.fullImage = .error (.raised .typeError) := by
  rw [fullImage, h]
  rfl

theorem Task.parseImage_given {t : Task} (h : t.imageGiven = true) :
    ∃ repository tag, t.parseImage = .ok (repository, tag) := by
  rw [parseImage, fullImage_given h]
  by_cases hcolon : ':' ∈ behindRegistry t.params.image
  · exact ⟨_, _, if_pos hcolon⟩
  · exact ⟨_, _, if_neg hcolon⟩

theorem Task.parseImage_missing {t : Task} (h : t.imageGiven = false) :
    t.parseImage = .error (.raised .typeError) := by
  rw [parseImage, fullImage_missing h]
  rfl

/-- `graceful_timeout`, or 10. -/
def Task.stopTimeout (t : Task) : Int := if t.gracefulTimeout = 0 then 10 else t.gracefulTimeout

def Task.isOneshot (t : Task) : Bool := t.restartPolicy = some .oneshot

/-! ## Calls -/

/-- The methods of the manager that are called over D-Bus. -/
inductive ManagerMethod where
  | startUnit
  | restartUnit
  | stopUnit
  | reload
  | enableUnitFiles
  deriving DecidableEq, Repr

inductive SystemdCall : Type → Type where
  | isFile (path : Text) : SystemdCall Bool
  | readFile (path : Text) : SystemdCall Text
  | writeFile (path content : Text) : SystemdCall Unit
  | removeFile (path : Text) : SystemdCall Unit
  /-- false if the method has raised -/
  | perform (method : ManagerMethod) (unit : Text) : SystemdCall Bool
  /-- the units, with their states -/
  | listUnits : SystemdCall (List (Text × Text))
  | sleep (seconds : Nat) : SystemdCall Unit

inductive WorkerCall (E : Type → Type) : Type → Type where
  | engine {τ : Type} (op : E τ) : WorkerCall E τ
  | systemd {τ : Type} (op : SystemdCall τ) : WorkerCall E τ

abbrev Worker (E : Type → Type) : Type → Type 1 := StateT Bool (Prog (WorkerCall E) WorkerExit)

variable {E : Type → Type}

def engine {τ : Type} (op : E τ) : Worker E τ := ask (.engine op)

def systemd {τ : Type} (op : SystemdCall τ) : Worker E τ := ask (.systemd op)

/-- `fail_json` -/
def failJson {α : Type} (msg : Text) : Worker E α := fail (.failJson msg)

/-- `self.changed = b` -/
def setChanged (b : Bool) : Worker E Unit := set b

def setChangedIf (b : Bool) : Worker E Unit := if b then setChanged true else pure ()

/-- `self.changed |= b` -/
def orChanged (b : Bool) : Worker E Unit := modify (· || b)

/-! ## The systemd worker -/

namespace Systemd

variable (t : Task)

def serviceName : Text := "kolla-".toList ++ t.params.name ++ "-container.service".toList

def unitPath : Text := "/etc/systemd/system/".toList ++ serviceName t

def dependencies : Text :=
  if t.containerEngine = "docker".toList then "docker.service".toList
  else "network-online.target".toList

/-- The policy of the unit, where `unless-stopped` is `always`. -/
def unitPolicy : Text :=
  match t.restartPolicy with
  | none => "no".toList
  | some .unlessStopped => "always".toList
  | some policy => policy.text

def restartDuration : Int := t.clientTimeout.fdiv t.restartRetries - 1

def generateUnitFile : Text :=
  "# ".toList ++ serviceName t ++ "\n# autogenerated by Kolla-Ansible\n\n[Unit]\nDescription=".toList ++
    t.containerEngine ++ ' ' :: serviceName t ++ "\nAfter=".toList ++ dependencies t ++
    "\nWants=".toList ++ dependencies t ++ "\nPartOf=kolla.target\nStartLimitInterval=".toList ++
    decimal t.clientTimeout ++ "\nStartLimitBurst=".toList ++ decimal t.restartRetries ++
    "\n\n[Service]\nExecStart=/usr/bin/".toList ++ t.containerEngine ++ " start -a ".toList ++
    t.params.name ++ "\nExecStop=/usr/bin/".toList ++ t.containerEngine ++ " stop ".toList ++
    t.params.name ++ " -t ".toList ++ decimal t.gracefulTimeout ++ "\nRestart=".toList ++
    unitPolicy t ++ "\nRestartSec=".toList ++ decimal (restartDuration t) ++
    "\nSuccessExitStatus=143\n\n[Install]\nWantedBy=multi-user.target\n".toList

def performAction (method : ManagerMethod) : Worker E Bool := systemd (.perform method (serviceName t))

def checkUnitFile : Worker E Bool := systemd (.isFile (unitPath t))

/-- The content of the unit file, if there is one, is not this. -/
def checkUnitChange (newContent : Text) : Worker E Bool := do
  if ← checkUnitFile t then
    let currContent ← systemd (.readFile (unitPath t))
    return currContent ≠ newContent
  else
    return true

def createUnitFile : Worker E Bool := do
  let content := generateUnitFile t
  if ← checkUnitChange t content then
    systemd (.writeFile (unitPath t) content)
    let _ ← performAction t .reload
    let _ ← performAction t .enableUnitFiles
    return true
  else
    return false

def removeUnitFile : Worker E Bool := do
  if ← checkUnitFile t then
    systemd (.removeFile (unitPath t))
    let _ ← performAction t .reload
    return true
  else
    return false

def getUnitState : Worker E (Option Text) := do
  let units ← systemd .listUnits
  return units.lookup (serviceName t)

/-- The loop, with the sleeps that are left. -/
def waitLoop (state : Text) : Nat → Worker E Bool
  | 0 => do return (← getUnitState t) = some state
  | n + 1 => do
    if (← getUnitState t) = some state then
      return true
    else
      systemd (.sleep 5)
      waitLoop state n

/-- The loop sleeps until more than `timeout` seconds are over. -/
def waitForUnit (state : Text) : Worker E Bool :=
  waitLoop t state (if t.clientTimeout < 0 then 0 else t.clientTimeout.toNat / 5 + 1)

def start : Worker E Bool := do
  if ← performAction t .startUnit then
    waitForUnit t "running".toList
  else
    return false

def restart : Worker E Bool := do
  if ← performAction t .restartUnit then
    waitForUnit t "running".toList
  else
    return false

def stop : Worker E Bool := do
  if ← performAction t .stopUnit then
    waitForUnit t "dead".toList
  else
    return false

end Systemd

/-! ## What the calls change -/

/-- The method starts or stops the container. -/
def ManagerMethod.runs : ManagerMethod → Bool
  | .startUnit => true
  | .restartUnit => true
  | .stopUnit => true
  | _ => false

namespace SystemdCall

def touchesContainer {τ : Type} : SystemdCall τ → Bool
  | .perform method _ => method.runs
  | _ => false

/-- The call changes the container or a unit file. -/
def changes {τ : Type} : SystemdCall τ → Bool
  | .writeFile _ _ => true
  | .removeFile _ => true
  | .perform method _ => method.runs
  | _ => false

end SystemdCall

section Rules

variable {W : Type} (env : Env (WorkerCall E) WorkerExit W)
  (P : W → ∀ {τ : Type}, WorkerCall E τ → Prop)

/-- The call may be made anywhere and leaves the state as it is. -/
def Quiet {τ : Type} (op : WorkerCall E τ) : Prop :=
  (∀ w, P w op) ∧ ∀ w a w', env w ⟨op, .ok a⟩ w' → w' = w

/-- The call may be made where the assertion holds, and keeps it. -/
def Preserves (φ : W → Bool → Prop) {τ : Type} (op : WorkerCall E τ) : Prop :=
  ∀ w c, φ w c → P w op ∧ ∀ a w', env w ⟨op, .ok a⟩ w' → φ w' c

variable {env P}

theorem Quiet.keeps {τ : Type} {op : WorkerCall E τ} (h : Quiet env P op) :
    Keeps env P (ask op : Worker E τ) := Keeps.ask h.1 h.2

theorem Preserves.triple {φ : W → Bool → Prop} {τ : Type} {op : WorkerCall E τ}
    (h : Preserves env P φ op) : Triple env P φ (ask op) fun _ => φ :=
  Triple.ask (fun w c hw => (h w c hw).1) fun w c a w' hw hev => (h w c hw).2 a w' hev

theorem Preserves.and {φ ψ : W → Bool → Prop} {τ : Type} {op : WorkerCall E τ}
    (h : Preserves env P φ op) (h' : Preserves env P ψ op) :
    Preserves env P (fun w c => φ w c ∧ ψ w c) op :=
  fun w c hw => ⟨(h w c hw.1).1, fun a w' hev => ⟨(h w c hw.1).2 a w' hev, (h' w c hw.2).2 a w' hev⟩⟩

theorem raise_changed {φ ψ : W → Bool → Prop} (h : ∀ w c, φ w c → ψ w true) :
    Triple env P φ (setChanged (E := E) true) fun _ => ψ := Triple.set h

/-- A call that may be made keeps what is said of the flag alone. -/
theorem preserves_flag {φ : Bool → Prop} {τ : Type} {op : WorkerCall E τ} (hP : ∀ w, P w op) :
    Preserves env P (fun _ c => φ c) op := fun w _ h => ⟨hP w, fun _ _ _ => h⟩

end Rules

namespace Systemd

variable {W : Type} {env : Env (WorkerCall E) WorkerExit W}
  {P : W → ∀ {τ : Type}, WorkerCall E τ → Prop} (t : Task)

section Keeps

variable (hquiet : ∀ {τ : Type} (op : SystemdCall τ), op.changes = false →
  Quiet env P (.systemd op))
include hquiet

theorem keeps_checkUnitFile : Keeps env P (checkUnitFile (E := E) t) := (hquiet _ rfl).keeps

theorem keeps_checkUnitChange (newContent : Text) :
    Keeps env P (checkUnitChange (E := E) t newContent) := by
  refine (keeps_checkUnitFile t hquiet).bind fun present => Keeps.ite (fun _ => ?_) fun _ => ?_
  · exact (hquiet _ rfl).keeps.bind fun _ => Keeps.pure _
  · exact Keeps.pure _

end Keeps

variable {φ : W → Bool → Prop}

section Files

variable (hfile : ∀ {τ : Type} (op : SystemdCall τ), op.touchesContainer = false →
  Preserves env P φ (.systemd op))
include hfile

theorem file_checkUnitFile : Triple env P φ (checkUnitFile t) fun _ => φ := (hfile _ rfl).triple

theorem file_reload (method : ManagerMethod) (hmethod : method.runs = false) :
    Triple env P φ (performAction t method) fun _ => φ :=
  (hfile (.perform method (serviceName t)) hmethod).triple

/-- The unit file is written without a touch to the container. -/
theorem file_createUnitFile : Triple env P φ (createUnitFile t) fun _ => φ := by
  have hcheck : Triple env P φ (checkUnitChange t (generateUnitFile t)) fun _ => φ := by
    refine (file_checkUnitFile t hfile).bind fun present => Triple.ite (fun _ => ?_) fun _ => ?_
    · exact (hfile _ rfl).triple.bind fun _ => Triple.pure fun _ _ h => h
    · exact Triple.pure fun _ _ h => h
  refine hcheck.bind fun change => Triple.ite (fun _ => ?_) fun _ => Triple.pure fun _ _ h => h
  refine (hfile _ rfl).triple.bind fun _ => ?_
  refine (file_reload t hfile .reload rfl).bind fun _ => ?_
  refine (file_reload t hfile .enableUnitFiles rfl).bind fun _ => ?_
  exact Triple.pure fun _ _ h => h

theorem file_removeUnitFile : Triple env P φ (removeUnitFile t) fun _ => φ := by
  refine (file_checkUnitFile t hfile).bind fun present =>
    Triple.ite (fun _ => ?_) fun _ => Triple.pure fun _ _ h => h
  refine (hfile _ rfl).triple.bind fun _ => ?_
  refine (file_reload t hfile .reload rfl).bind fun _ => ?_
  exact Triple.pure fun _ _ h => h

end Files

section Runs

variable (hcall : ∀ {τ : Type} (op : SystemdCall τ), Preserves env P φ (.systemd op))
include hcall

theorem run_waitLoop (state : Text) (n : Nat) :
    Triple env P φ (waitLoop t state n) fun _ => φ := by
  have hstate : Triple env P φ (getUnitState t) fun _ => φ :=
    (hcall _).triple.bind fun _ => Triple.pure fun _ _ h => h
  induction n with
  | zero => exact hstate.bind fun _ => Triple.pure fun _ _ h => h
  | succ n ih =>
    refine hstate.bind fun found => Triple.ite (fun _ => Triple.pure fun _ _ h => h) fun _ => ?_
    exact (hcall _).triple.bind fun _ => ih

/-- A method of the manager, and the wait for the unit. -/
theorem run_perform (method : ManagerMethod) (state : Text) :
    Triple env P φ (do
      if ← performAction t method then
        waitForUnit t state
      else
        return false) fun _ => φ := by
  refine Triple.bind (hcall (.perform method (serviceName t))).triple fun done => ?_
  refine Triple.ite (fun _ => ?_) fun _ => Triple.pure fun _ _ h => h
  exact run_waitLoop t hcall state _

theorem run_start : Triple env P φ (start t) fun _ => φ := run_perform t hcall .startUnit _

theorem run_restart : Triple env P φ (restart t) fun _ => φ := run_perform t hcall .restartUnit _

theorem run_stop : Triple env P φ (stop t) fun _ => φ := run_perform t hcall .stopUnit _

end Runs

end Systemd

end Container
end KollaPowerOps
