import KollaPowerOps.Actions.Footprint
import KollaPowerOps.Workbook.Workflows

/-!
# Workbook.Footprint

What the calls of a workflow can change. `Touches` says it for one action: only what belongs to
the host of the workflow, and only by the action that is meant for it (`Action.run_touches`).
-/

namespace KollaPowerOps
namespace Workbook

open Effect TaskGraph Actions

/-- What a call of an action can be, on a host. -/
def Touches (host : String) (a : Action) : {τ : Type} → Call τ → Prop
  | _, .setNodePowerState node target =>
    node.name = some host ∧ ∃ t soft, a = .ironicPower t soft ∧ target = effectiveTarget t soft
  | _, .enableService service => service.host = some host ∧ a = .setNovaService true
  | _, .disableService service _ =>
    service.host = some host ∧ (a = .setNovaService false ∨ a = .failSafeHost)
  | _, .liveMigrateServer server => serverHost server = some host ∧ a = .drainHost
  | _, .stopServer server => serverHost server = some host ∧ a = .drainHost
  | _, .updateHost item _ on =>
    item.name = some host ∧ (a = .setMasakariMaintenance on ∨ a = .failSafeHost ∧ on = true)
  | _, .redisSet _ _ _ => a = .acquireHostLock
  | _, .redisRefresh _ _ _ => a = .refreshHostLock
  | _, .redisRelease _ _ => a = .releaseHostLock
  | _, _ => True

theorem touches_reading {host : String} {a : Action} {τ : Type} (op : Call τ)
    (h : op.reading = true) : Touches host a op := by
  cases op <;> trivial

/-- An operation whose result an action wraps. -/
theorem wrapped_uses {P : ∀ {τ : Type}, Call τ → Prop} {α : Type} {p : Op α} {f : α → Result}
    (hp : p.Uses P) : (p.bind fun r => pure (f r)).Uses P :=
  Prog.Uses.bind hp fun _ => trivial

theorem checked_within {P : ∀ {τ : Type}, Call τ → Prop} {α : Type} (r : Except Exn α) :
    (checked r).Within P fun a => r = .ok a := by
  cases r with
  | ok a => exact rfl
  | error e => trivial

theorem lockAction_uses {P : ∀ {τ : Type}, Call τ → Prop} {conf : Options} {ctx : ActionContext}
    {host : String} {ttl : Option Int} {c : LockCall}
    (h : ∀ l : RedisHostLock, l.host = host → owner ctx = .ok l.owner → (l.method c).Uses P) :
    (lockAction conf ctx host ttl c).Uses P := by
  refine (checked_within _).bind fun o ho => (checked_within _).bind fun l hl => ?_
  obtain ⟨hhost, howner⟩ := RedisHostLock.create_ok hl
  refine Prog.Uses.bind (h l hhost (by rw [ho, howner])) fun ok => ?_
  split <;> trivial

/-- Every call of an action is one that the action may make on the host of the workflow. -/
theorem Action.run_touches (conf : Options) (ctx : ActionContext) (input : Input) (a : Action) :
    (a.run conf ctx input).Uses (Touches input.host a) := by
  have hread : ∀ {τ : Type} (op : Call τ), op.reading = true → Touches input.host a op :=
    fun op => touches_reading op
  cases a with
  | acquireHostLock => exact lockAction_uses fun _ _ _ => ⟨rfl, fun _ => trivial⟩
  | refreshHostLock => exact lockAction_uses fun _ _ _ => ⟨rfl, fun _ => trivial⟩
  | releaseHostLock => exact lockAction_uses fun _ _ _ => ⟨rfl, fun _ => trivial⟩
  | resolveHost => exact wrapped_uses (resolveHost_uses hread _)
  | setMasakariMaintenance enabled =>
    exact wrapped_uses (setMasakariMaintenance_uses hread _ _ fun _ _ h => ⟨h, .inl rfl⟩)
  | setNovaService enabled =>
    exact wrapped_uses (setNovaService_uses hread _ _ _
      (fun he _ h => ⟨h, by rw [he]⟩) (fun he _ h => ⟨h, .inl (by rw [he])⟩))
  | drainHost =>
    exact wrapped_uses (drainHost_uses hread _ _ _ _ (fun _ h => ⟨h, rfl⟩) fun _ h => ⟨h, rfl⟩)
  | assertHostEmpty => exact wrapped_uses (assertHostEmpty_uses hread _ _)
  | ironicPower target soft =>
    exact wrapped_uses (requestPower_uses hread _ _ _ fun _ h => ⟨h, target, soft, rfl, rfl⟩)
  | waitPower target => exact wrapped_uses (waitPower_uses hread _ _ _ _ _)
  | waitNovaService => exact wrapped_uses (waitNovaService_uses hread _ _ _)
  | verifyHostReturn => exact wrapped_uses (verifyHostReturn_uses hread _ _ _)
  | powerStatus => exact wrapped_uses (status_uses hread _)
  | auditEvent event outcome => exact ⟨trivial, fun _ => trivial⟩
  | failSafeHost =>
    exact wrapped_uses (failSafeHost_uses hread _ (fun _ _ h => ⟨h, .inr rfl⟩)
      fun _ _ h => ⟨h, .inr ⟨rfl, rfl⟩⟩)

/-- A call of Redis is one of a lock of this execution on its host. -/
def OwnLock (ctx : ActionContext) (host : String) {τ : Type} (op : Call τ) : Prop :=
  match op with
  | .redisSet key o px => ∃ l : RedisHostLock, l.host = host ∧ owner ctx = .ok l.owner ∧
      key = l.key ∧ o = l.owner ∧ px = l.ttlMs
  | .redisRefresh key o px => ∃ l : RedisHostLock, l.host = host ∧ owner ctx = .ok l.owner ∧
      key = l.key ∧ o = l.owner ∧ px = l.ttlMs
  | .redisRelease key o => ∃ l : RedisHostLock, l.host = host ∧ owner ctx = .ok l.owner ∧
      key = l.key ∧ o = l.owner
  | _ => True

theorem Action.run_ownLock (conf : Options) (ctx : ActionContext) (input : Input) (a : Action) :
    (a.run conf ctx input).Uses (OwnLock ctx input.host) := by
  have hother : a ≠ .acquireHostLock → a ≠ .refreshHostLock → a ≠ .releaseHostLock →
      (a.run conf ctx input).Uses (OwnLock ctx input.host) := by
    intro hacquire hrefresh hrelease
    refine (a.run_touches conf ctx input).mono (fun op h => ?_) fun _ _ => trivial
    cases op with
    | redisSet key o px => exact absurd h hacquire
    | redisRefresh key o px => exact absurd h hrefresh
    | redisRelease key o => exact absurd h hrelease
    | _ => trivial
  cases a with
  | acquireHostLock =>
    exact lockAction_uses fun l hl ho => ⟨⟨l, hl, ho, rfl, rfl, rfl⟩, fun _ => trivial⟩
  | refreshHostLock =>
    exact lockAction_uses fun l hl ho => ⟨⟨l, hl, ho, rfl, rfl, rfl⟩, fun _ => trivial⟩
  | releaseHostLock =>
    exact lockAction_uses fun l hl ho => ⟨⟨l, hl, ho, rfl, rfl⟩, fun _ => trivial⟩
  | _ => exact hother (by simp) (by simp) (by simp)

/-- Every call of a task is one that its action may make. -/
theorem program_uses (p : Planned) (conf : Options) (ctx : ActionContext) (input : Input)
    (t : TaskName) :
    (program p.workflow conf ctx input t).Uses (Touches input.host (p.action t)) := by
  rcases program_eq p conf ctx input t with hp | hp
  · rw [hp]; exact (p.action t).run_touches conf ctx input
  · rw [hp]; trivial

theorem program_ownLock (p : Planned) (conf : Options) (ctx : ActionContext) (input : Input)
    (t : TaskName) : (program p.workflow conf ctx input t).Uses (OwnLock ctx input.host) := by
  rcases program_eq p conf ctx input t with hp | hp
  · rw [hp]; exact (p.action t).run_ownLock conf ctx input
  · rw [hp]; trivial

end Workbook
end KollaPowerOps
