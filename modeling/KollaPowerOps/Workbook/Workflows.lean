import KollaPowerOps.Lib.Lanes
import KollaPowerOps.Actions.Actions

/-!
# Workbook.Workflows

The workbook `power_ops`: its workflows as task graphs, with the actions of their tasks and the
arguments that the tasks give them.

* `plannedPowerOff`, `plannedReboot`, `powerOnAndReturn`, `hostPowerStatus` : the graphs.
* `Planned` : the three workflows that change something, with their lanes.
* `program` : what a task of a workflow runs, for an input and a configuration.
-/

namespace KollaPowerOps
namespace Workbook

open Effect TaskGraph Actions

inductive TaskName where
  | acquireLock
  | resolve
  | maintenanceOn
  | novaDisable
  | drainInstances
  | refreshLock
  | assertHostSafe
  | requestOff
  | waitOff
  | requestOn
  | waitOn
  | waitNova
  | verifyHostReturn
  | novaEnable
  | maintenanceOff
  | auditSuccess
  | releaseLock
  | failSafeHost
  | auditFailure
  | releaseLockError
  | status
  deriving DecidableEq, Repr

/-- An action with the arguments that are written in the workbook. The others come from the input. -/
inductive Action where
  | acquireHostLock
  | refreshHostLock
  | releaseHostLock
  | resolveHost
  | setMasakariMaintenance (enabled : Bool)
  | setNovaService (enabled : Bool)
  | drainHost
  | assertHostEmpty
  | ironicPower (target : String) (soft : Bool := false)
  | waitPower (target : String)
  | waitNovaService
  | verifyHostReturn
  | powerStatus
  | auditEvent (event outcome : String)
  | failSafeHost
  deriving DecidableEq

/-- A task that goes on to `next`, and to `fail_safe_host` on an error. -/
def step (action : Action) (next : TaskName) : TaskSpec TaskName Action :=
  { action, onSuccess := [.task next], onError := [.task .failSafeHost] }

/-- The tasks after an error, as every workflow has them. -/
def failSafeTasks (event : String) : List (TaskName × TaskSpec TaskName Action) := [
  (.failSafeHost, { action := .failSafeHost, onComplete := [.task .auditFailure] }),
  (.auditFailure,
    { action := .auditEvent event "failure", onComplete := [.task .releaseLockError] }),
  (.releaseLockError, { action := .releaseHostLock, onComplete := [.fail] })]

def plannedPowerOff : Workflow TaskName Action where
  tasks := [
    (.acquireLock,
      { action := .acquireHostLock, onSuccess := [.task .resolve], onError := [.fail] }),
    (.resolve, step .resolveHost .maintenanceOn),
    (.maintenanceOn, step (.setMasakariMaintenance true) .novaDisable),
    (.novaDisable, step (.setNovaService false) .drainInstances),
    (.drainInstances, step .drainHost .refreshLock),
    (.refreshLock, step .refreshHostLock .assertHostSafe),
    (.assertHostSafe, step .assertHostEmpty .requestOff),
    (.requestOff, step (.ironicPower "power off" true) .waitOff),
    (.waitOff, step (.waitPower "power off") .auditSuccess),
    (.auditSuccess, step (.auditEvent "planned_power_off" "success") .releaseLock),
    (.releaseLock, { action := .releaseHostLock })] ++ failSafeTasks "planned_power_off"

def plannedReboot : Workflow TaskName Action where
  tasks := [
    (.acquireLock,
      { action := .acquireHostLock, onSuccess := [.task .resolve], onError := [.fail] }),
    (.resolve, step .resolveHost .maintenanceOn),
    (.maintenanceOn, step (.setMasakariMaintenance true) .novaDisable),
    (.novaDisable, step (.setNovaService false) .drainInstances),
    (.drainInstances, step .drainHost .refreshLock),
    (.refreshLock, step .refreshHostLock .assertHostSafe),
    (.assertHostSafe, step .assertHostEmpty .requestOff),
    (.requestOff, step (.ironicPower "power off" true) .waitOff),
    (.waitOff, step (.waitPower "power off") .requestOn),
    (.requestOn, step (.ironicPower "power on") .waitOn),
    (.waitOn, step (.waitPower "power on") .waitNova),
    (.waitNova, step .waitNovaService .verifyHostReturn),
    (.verifyHostReturn, step .verifyHostReturn .novaEnable),
    (.novaEnable, step (.setNovaService true) .maintenanceOff),
    (.maintenanceOff, step (.setMasakariMaintenance false) .auditSuccess),
    (.auditSuccess, step (.auditEvent "planned_reboot" "success") .releaseLock),
    (.releaseLock, { action := .releaseHostLock })] ++ failSafeTasks "planned_reboot"

def powerOnAndReturn : Workflow TaskName Action where
  tasks := [
    (.acquireLock,
      { action := .acquireHostLock, onSuccess := [.task .resolve], onError := [.fail] }),
    (.resolve, step .resolveHost .requestOn),
    (.requestOn, step (.ironicPower "power on") .waitOn),
    (.waitOn, step (.waitPower "power on") .waitNova),
    (.waitNova, step .waitNovaService .verifyHostReturn),
    (.verifyHostReturn, step .verifyHostReturn .novaEnable),
    (.novaEnable, step (.setNovaService true) .maintenanceOff),
    (.maintenanceOff, step (.setMasakariMaintenance false) .auditSuccess),
    (.auditSuccess, step (.auditEvent "power_on_and_return" "success") .releaseLock),
    (.releaseLock, { action := .releaseHostLock })] ++ failSafeTasks "power_on_and_return"

def hostPowerStatus : Workflow TaskName Action where
  tasks := [(.status, { action := .powerStatus })]

/-- The workflows that change something. -/
inductive Planned where
  | powerOff
  | reboot
  | powerOn
  deriving DecidableEq, Repr

def Planned.workflow : Planned → Workflow TaskName Action
  | .powerOff => plannedPowerOff
  | .reboot => plannedReboot
  | .powerOn => powerOnAndReturn

/-! ## Lanes -/

/-- The way into a power-off: the tasks before and after the power request are the same in both
workflows that have it. -/
def offLane : List TaskName :=
  [.acquireLock, .resolve, .maintenanceOn, .novaDisable, .drainInstances, .refreshLock,
    .assertHostSafe, .requestOff, .waitOff]

/-- The way back into service. -/
def returnLane : List TaskName :=
  [.requestOn, .waitOn, .waitNova, .verifyHostReturn, .novaEnable, .maintenanceOff]

def Planned.spine : Planned → List TaskName
  | .powerOff => offLane ++ [.auditSuccess, .releaseLock]
  | .reboot => offLane ++ returnLane ++ [.auditSuccess, .releaseLock]
  | .powerOn => [.acquireLock, .resolve] ++ returnLane ++ [.auditSuccess, .releaseLock]

def cleanupLane : List TaskName := [.failSafeHost, .auditFailure, .releaseLockError]

def Planned.lanes (p : Planned) : Lanes p.workflow where
  spine := p.spine
  tail := cleanupLane
  nodup := by cases p <;> decide
  starts := by cases p <;> decide
  spine_pos := by cases p <;> decide
  forward := by cases p <;> decide
  sideways := by cases p <;> decide
  cleanup := by cases p <;> decide

/-! ## Actions of the tasks -/

/-- The name that a workflow gives to its audit events. -/
def Planned.event : Planned → String
  | .powerOff => "planned_power_off"
  | .reboot => "planned_reboot"
  | .powerOn => "power_on_and_return"

/-- The action of a task is the same in every workflow that has the task, but for the audit event. -/
def Planned.action (p : Planned) : TaskName → Action
  | .acquireLock => .acquireHostLock
  | .resolve => .resolveHost
  | .maintenanceOn => .setMasakariMaintenance true
  | .novaDisable => .setNovaService false
  | .drainInstances => .drainHost
  | .refreshLock => .refreshHostLock
  | .assertHostSafe => .assertHostEmpty
  | .requestOff => .ironicPower "power off" true
  | .waitOff => .waitPower "power off"
  | .requestOn => .ironicPower "power on"
  | .waitOn => .waitPower "power on"
  | .waitNova => .waitNovaService
  | .verifyHostReturn => .verifyHostReturn
  | .novaEnable => .setNovaService true
  | .maintenanceOff => .setMasakariMaintenance false
  | .auditSuccess => .auditEvent p.event "success"
  | .releaseLock => .releaseHostLock
  | .failSafeHost => .failSafeHost
  | .auditFailure => .auditEvent p.event "failure"
  | .releaseLockError => .releaseHostLock
  | .status => .powerStatus

theorem spec_action {p : Planned} {t : TaskName} {spec : TaskSpec TaskName Action}
    (h : p.workflow.spec? t = some spec) : spec.action = p.action t := by
  have hall : (p.workflow.spec? t).all (fun s => s.action = p.action t) = true := by
    cases p <;> cases t <;> rfl
  rw [h] at hall
  simpa using hall

/-! ## Programs -/

/-- The input of a workflow. `instance_policy` and `stale_domains_checked` have defaults. -/
structure Input where
  host : String
  instancePolicy : String := "require_empty"
  staleDomainsChecked : Value := .bool false

/-- What an action runs in an execution. -/
def Action.run (conf : Options) (ctx : ActionContext) (input : Input) : Action → Op Result
  | .acquireHostLock => Actions.acquireHostLock conf ctx input.host
  | .refreshHostLock => Actions.refreshHostLock conf ctx input.host
  | .releaseHostLock => Actions.releaseHostLock conf ctx input.host
  | .resolveHost => resolveHostAction input.host
  | .setMasakariMaintenance enabled => setMasakariMaintenanceAction input.host enabled
  | .setNovaService enabled => setNovaServiceAction input.host enabled
  | .drainHost => drainHostAction conf input.host input.instancePolicy
  | .assertHostEmpty => assertHostEmptyAction input.host (input.instancePolicy = "stop")
  | .ironicPower target soft => Actions.ironicPower input.host target soft
  | .waitPower target => waitPowerAction conf input.host target
  | .waitNovaService => waitNovaServiceAction conf input.host
  | .verifyHostReturn => verifyHostReturnAction input.host input.staleDomainsChecked
  | .powerStatus => Actions.powerStatus input.host
  | .auditEvent event outcome => Actions.auditEvent input.host event outcome
  | .failSafeHost => failSafeHostAction input.host

/-- What a task of a workflow runs. -/
def program (wf : Workflow TaskName Action) (conf : Options) (ctx : ActionContext)
    (input : Input) (t : TaskName) : Op Result :=
  match wf.spec? t with
  | some spec => spec.action.run conf ctx input
  | none => raise (.raised "no such task")

/-- A task that does anything runs its action. -/
theorem program_eq (p : Planned) (conf : Options) (ctx : ActionContext) (input : Input)
    (t : TaskName) :
    program p.workflow conf ctx input t = (p.action t).run conf ctx input ∨
      program p.workflow conf ctx input t = raise (.raised "no such task") := by
  unfold program
  cases hs : p.workflow.spec? t with
  | none => exact .inr rfl
  | some spec => exact .inl (congrArg (Action.run conf ctx input) (spec_action hs))

end Workbook
end KollaPowerOps
