import KollaPowerOps.Actions.Locks
import KollaPowerOps.Actions.Operations
import KollaPowerOps.Actions.Options

/-!
# Actions.Actions

The Mistral actions: what each of them runs for the arguments that a workflow gives it, with the
configured defaults. An action whose operation raises ends in error: `_expected` turns the expected
exceptions into an error result, and Mistral does the same with every other exception.
-/

namespace KollaPowerOps
namespace Actions

open Effect

/-- What Mistral tells an action about its execution. -/
structure ActionContext where
  workflowExecutionId : Option String
  executionId : Option String := none
  deriving DecidableEq, Repr

/-- The results of the actions. -/
inductive Result where
  | lock (host lockOwner : String) (call : LockCall)
  | resolved (r : Resolved)
  | novaService (r : NovaResult)
  | maintenance (r : MaintenanceResult)
  | drained (r : Drained)
  | emptied (r : Emptied)
  | power (r : PowerResult)
  | novaUp (r : NovaUp)
  | returned (r : Returned)
  | status (r : Status)
  | audit (eventId host event outcome : String)
  | failSafe (r : FailSafe)
  deriving DecidableEq

/-- Raise what a constructor raised. -/
def checked {α : Type} (r : Except Exn α) : Op α := .done r

/-- `_owner(action_ctx)` -/
def owner (ctx : ActionContext) : Except Exn String :=
  match orElse ctx.workflowExecutionId ctx.executionId with
  | some value =>
    if value = "" then
      .error (.valueError "workflow execution id is required for host lock")
    else .ok value
  | none => .error (.valueError "workflow execution id is required for host lock")

/-- `_lock(host, owner, ttl)` -/
def lock (conf : Options) (host owner : String) (ttl : Option Int) :
    Except Exn RedisHostLock :=
  RedisHostLock.create host (ttl.getD conf.lockTtl) owner

/-- What a lock action reports when its call was refused. -/
def refused (host : String) : LockCall → String
  | .acquire => "host operation lock is already held: " ++ host
  | .refresh => "host operation lock ownership was lost"
  | .release => "host operation lock ownership was lost"

/-- The three lock actions. -/
def lockAction (conf : Options) (ctx : ActionContext) (host : String) (ttl : Option Int)
    (c : LockCall) : Op Result := do
  let owner ← checked (owner ctx)
  let l ← checked (lock conf host owner ttl)
  let ok ← l.method c
  if !ok then raise (.valueError (refused host c)) else pure (.lock host owner c)

def acquireHostLock (conf : Options) (ctx : ActionContext) (host : String)
    (ttl : Option Int := none) : Op Result :=
  lockAction conf ctx host ttl .acquire

def refreshHostLock (conf : Options) (ctx : ActionContext) (host : String)
    (ttl : Option Int := none) : Op Result :=
  lockAction conf ctx host ttl .refresh

def releaseHostLock (conf : Options) (ctx : ActionContext) (host : String)
    (ttl : Option Int := none) : Op Result :=
  lockAction conf ctx host ttl .release

/-- `self.value or cfg.CONF.powerops.value` -/
def configured (value : Option Int) (default : Int) : Int :=
  match value with
  | some v => if v = 0 then default else v
  | none => default

def resolveHostAction (host : String) : Op Result := do
  let r ← resolveHost host
  pure (.resolved r)

def setNovaServiceAction (host : String) (enabled : Bool)
    (reason : String := "PowerOps workflow") : Op Result := do
  let r ← setNovaService host enabled reason
  pure (.novaService r)

def setMasakariMaintenanceAction (host : String) (enabled : Bool) : Op Result := do
  let r ← setMasakariMaintenance host enabled
  pure (.maintenance r)

def drainHostAction (conf : Options) (host policy : String) (timeout interval : Option Int := none) :
    Op Result := do
  let r ← drainHost host policy (configured timeout conf.drainTimeout)
    (configured interval conf.pollInterval)
  pure (.drained r)

def assertHostEmptyAction (host : String) (allowShutoff : Bool := false) : Op Result := do
  let r ← assertHostEmpty host allowShutoff
  pure (.emptied r)

def ironicPower (host target : String) (soft : Bool := false) : Op Result := do
  let r ← requestPower host target soft
  pure (.power r)

def waitPowerAction (conf : Options) (host target : String)
    (timeout interval stableObservations : Option Int := none) : Op Result := do
  let r ← waitPower host target (configured timeout conf.powerTimeout)
    (configured interval conf.pollInterval)
    (configured stableObservations conf.stableObservations)
  pure (.power r)

def waitNovaServiceAction (conf : Options) (host : String)
    (timeout interval : Option Int := none) : Op Result := do
  let r ← waitNovaService host (configured timeout conf.powerTimeout)
    (configured interval conf.pollInterval)
  pure (.novaUp r)

/-- The actions build `PowerOperations` without required network agents. -/
def verifyHostReturnAction (host : String) (staleDomainsChecked : Value) : Op Result := do
  let r ← verifyHostReturn [] host staleDomainsChecked
  pure (.returned r)

def powerStatus (host : String) : Op Result := do
  let r ← status host
  pure (.status r)

def auditEvent (host event outcome : String) : Op Result := do
  let eventId ← Prog.request (.logAudit host event outcome)
  pure (.audit eventId host event outcome)

def failSafeHostAction (host : String) : Op Result := do
  let r ← failSafeHost host
  pure (.failSafe r)

end Actions
end KollaPowerOps
