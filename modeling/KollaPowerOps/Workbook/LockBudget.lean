import KollaPowerOps.Lib.Cost
import KollaPowerOps.Workbook.Gates

/-!
# Workbook.LockBudget

How long an execution pauses. The waits of the workflows are bounded by their timeouts, and no
other action sleeps.

* `pollSeconds`      : the longest that a wait can pause.
* `Action.costs`     : no action pauses longer than its budget, whatever the services answer.
* `since_renewal_le` : how long an execution has paused since it last renewed its lock.
-/

namespace KollaPowerOps
namespace Workbook

open Effect TaskGraph Actions

/-- The seconds that a call lets pass by itself. -/
def seconds : {τ : Type} → Call τ → Nat
  | _, .sleep n => n.toNat
  | _, _ => 0

/-- The pauses of a wait that runs into its timeout. -/
def pollSeconds (timeout interval : Int) : Nat := (-((-timeout) / interval)).toNat * interval.toNat

theorem pollSeconds_lt {timeout interval : Int} (ht : 0 < timeout) (hi : 0 < interval) :
    (pollSeconds timeout interval : Int) < timeout + interval := by
  have hcovers := (pollBound_covers ht hi).2
  have hinterval : (interval.toNat : Int) = interval := Int.toNat_of_nonneg hi.le
  have hbound : pollBound timeout interval - 1 = (-((-timeout) / interval)).toNat := rfl
  rw [hbound] at hcovers
  unfold pollSeconds
  rw [Int.natCast_mul, hinterval]
  exact hcovers

/-! ## Waits -/

section Waits

variable {host : String}

theorem sleepBetween_costs (n : Nat) (interval : Int) :
    (sleepBetween n interval).Costs seconds (if 0 < n then interval.toNat else 0) := by
  unfold sleepBetween
  split
  · exact ⟨le_rfl, fun _ => trivial⟩
  · trivial

/-- A pause between two attempts, and the rest of the loop. -/
theorem again_costs {α : Type} {interval : Int} {n : Nat} {loop : Op α}
    (h : loop.Costs seconds ((n - 1) * interval.toNat)) :
    ((sleepBetween n interval).bind fun _ => loop).Costs seconds (n * interval.toNat) := by
  refine ((sleepBetween_costs n interval).bind fun _ => h).mono ?_
  cases n with
  | zero => simp
  | succ n =>
    rw [if_pos (Nat.succ_pos n), Nat.succ_sub_one, Nat.succ_mul]
    omega

theorem awaitGone_costs (interval : Int) (n : Nat) :
    (awaitGone host interval n).Costs seconds ((n - 1) * interval.toNat) := by
  induction n with
  | zero => trivial
  | succ n ih =>
    refine ⟨Nat.zero_le _, fun servers => ?_⟩
    simp only [Prog.pure_def, Prog.bind_ok]
    split
    · trivial
    · split
      · trivial
      · exact again_costs ih

theorem awaitStopped_costs (interval : Int) (n : Nat) :
    (awaitStopped host interval n).Costs seconds ((n - 1) * interval.toNat) := by
  induction n with
  | zero => trivial
  | succ n ih =>
    refine ⟨Nat.zero_le _, fun servers => ?_⟩
    simp only [Prog.pure_def, Prog.bind_ok]
    split
    · trivial
    · split
      · trivial
      · exact again_costs ih

theorem stablePoll_costs {ρ : Type} (P : StablePoll ρ) (n : Nat) :
    ∀ (node : Node) (stable : Nat),
      (P.run n node stable).Costs seconds ((n - 1) * P.interval.toNat) := by
  induction n with
  | zero => exact fun _ _ => trivial
  | succ n ih =>
    refine fun node stable => ⟨Nat.zero_le _, fun node' => ?_⟩
    simp only [Prog.bind]
    split
    · trivial
    · split
      · trivial
      · generalize (if node'.powerState = some P.target then stable + 1 else 0) = seen
        split
        · trivial
        · exact again_costs (ih _ _)

/-- The number of attempts comes from the timeout and the interval. -/
theorem attempts_costs {α : Type} {timeout interval : Int} {loop : Nat → Op α}
    (h : ∀ n, (loop n).Costs seconds ((n - 1) * interval.toNat)) :
    ((attempts timeout interval).bind loop).Costs seconds (pollSeconds timeout interval) := by
  unfold attempts
  split
  · trivial
  · refine (h _).mono ?_
    unfold pollSeconds
    rw [Nat.max_eq_right (Nat.succ_pos _), Nat.succ_sub_one]

/-! ## Operations that do not wait -/

/-- The call lets no time pass by itself. -/
abbrev Prompt {τ : Type} (op : Call τ) : Prop := seconds op = 0

theorem novaService_prompt : (novaService host).Uses Prompt :=
  ⟨rfl, fun _ => exactlyOne_within.mono (fun _ h => h) fun _ _ => trivial⟩

theorem ironicNode_prompt : (ironicNode host).Uses Prompt :=
  ⟨rfl, fun _ => exactlyOne_within.mono (fun _ h => h) fun _ _ => trivial⟩

theorem masakariMatches_prompt (segments : List Segment) :
    (masakariMatches host segments).Uses Prompt := by
  induction segments with
  | nil => trivial
  | cons segment segments ih =>
    exact ⟨rfl, fun _ => Prog.Uses.bind (p := masakariMatches host segments) ih fun _ => trivial⟩

theorem masakariHost_prompt : (masakariHost host).Uses Prompt :=
  ⟨rfl, fun segments => Prog.Uses.bind (p := masakariMatches host segments)
    (masakariMatches_prompt segments) fun _ =>
      exactlyOne_within.mono (fun _ h => h) fun _ _ => trivial⟩

theorem setNovaService_prompt (on : Bool) (reason : String) :
    (setNovaService host on reason).Uses Prompt := by
  refine Prog.Uses.bind novaService_prompt fun service => Prog.Uses.bind ?_ fun _ => trivial
  unfold novaUpdate
  split <;> split
  · exact ⟨rfl, fun _ => trivial⟩
  · trivial
  · exact ⟨rfl, fun _ => trivial⟩
  · trivial

theorem setMasakariMaintenance_prompt (on : Bool) :
    (setMasakariMaintenance host on).Uses Prompt := by
  refine Prog.Uses.bind masakariHost_prompt fun x => Prog.Uses.bind ?_ fun _ => trivial
  unfold masakariUpdate
  split
  · exact ⟨rfl, fun _ => trivial⟩
  · trivial

theorem assertHostEmpty_prompt (allowShutoff : Bool) :
    (assertHostEmpty host allowShutoff).Uses Prompt := by
  refine ⟨rfl, fun servers => ?_⟩
  simp only [Prog.pure_def, Prog.bind_ok]
  split <;> trivial

theorem requestPower_prompt (target : String) (soft : Bool) :
    (requestPower host target soft).Uses Prompt := by
  unfold requestPower
  split
  · trivial
  · refine Prog.Uses.bind ironicNode_prompt fun node => ?_
    dsimp only
    split
    · trivial
    · split
      · trivial
      · exact ⟨rfl, fun _ => trivial⟩

theorem verifyHostReturn_prompt (staleDomainsChecked : Value) :
    (verifyHostReturn [] host staleDomainsChecked).Uses Prompt := by
  unfold verifyHostReturn
  split
  · trivial
  · refine Prog.Uses.bind ironicNode_prompt fun named => ⟨rfl, fun node => ?_⟩
    simp only [Prog.bind_ok]
    split
    · trivial
    · refine Prog.Uses.bind novaService_prompt fun service => ?_
      split
      · trivial
      · exact ⟨rfl, fun _ => trivial⟩

theorem status_prompt : (status host).Uses Prompt :=
  Prog.Uses.bind novaService_prompt fun _ => Prog.Uses.bind ironicNode_prompt fun _ =>
    Prog.Uses.bind masakariHost_prompt fun _ => trivial

theorem failSafeHost_prompt : (failSafeHost host).Uses Prompt :=
  Prog.Uses.bind (setNovaService_prompt false _) fun _ =>
    Prog.Uses.bind (setMasakariMaintenance_prompt true) fun _ => trivial

theorem pollNova_costs (interval : Int) (n : Nat) :
    (pollNova host interval n).Costs seconds ((n - 1) * interval.toNat) := by
  induction n with
  | zero => trivial
  | succ n ih =>
    have hrest : ∀ service : NovaService, ((if service.state = some "up" then pure ⟨host, "up"⟩
        else (sleepBetween n interval).bind fun _ => pollNova host interval n) : Op NovaUp).Costs
          seconds (n * interval.toNat) := by
      intro service
      split
      · trivial
      · exact again_costs ih
    exact ((Prog.Costs.of_uses novaService_prompt).bind hrest).mono (by simp)

theorem drainHost_costs (policy : String) (timeout interval : Int) :
    (drainHost host policy timeout interval).Costs seconds (pollSeconds timeout interval) := by
  have heach : ∀ (f : Server → Op Unit), (∀ server, (f server).Uses Prompt) →
      ∀ servers, (each f servers).Costs seconds 0 :=
    fun f hf servers => Prog.Costs.of_uses (each_uses fun server _ => hf server)
  unfold drainHost
  split
  · trivial
  · refine ⟨Nat.zero_le _, fun servers => ?_⟩
    simp only [Prog.pure_def, Prog.bind_ok]
    split
    · split <;> trivial
    · split
      · refine ((heach Connection.liveMigrateServer (fun _ => ⟨rfl, fun _ => trivial⟩) _).bind
          fun _ => attempts_costs (awaitGone_costs interval)).mono ?_
        simp [seconds]
      · refine ((heach Connection.stopServer (fun _ => ⟨rfl, fun _ => trivial⟩) _).bind
          fun _ => attempts_costs (awaitStopped_costs interval)).mono ?_
        simp [seconds]

theorem waitPower_costs (target : String) (timeout interval k : Int) :
    (waitPower host target timeout interval k).Costs seconds (pollSeconds timeout interval) := by
  have hloop : ∀ node n, (pollPower host target interval k n node 0).Costs seconds
      ((n - 1) * interval.toNat) := fun node n => stablePoll_costs _ n node 0
  unfold waitPower
  split
  · trivial
  · refine ((Prog.Costs.of_uses ironicNode_prompt).bind fun node =>
      attempts_costs (hloop node)).mono ?_
    rw [Nat.zero_add]

theorem waitNovaService_costs (timeout interval : Int) :
    (waitNovaService host timeout interval).Costs seconds (pollSeconds timeout interval) :=
  attempts_costs (pollNova_costs interval)

end Waits

/-! ## Actions -/

/-- How long an action can pause. -/
def Action.budget (conf : Options) : Action → Nat
  | .drainHost => pollSeconds conf.drainTimeout conf.pollInterval
  | .waitPower _ => pollSeconds conf.powerTimeout conf.pollInterval
  | .waitNovaService => pollSeconds conf.powerTimeout conf.pollInterval
  | _ => 0

theorem wrapped_costs {α : Type} {p : Op α} {f : α → Result} {b : Nat} (h : p.Costs seconds b) :
    (p.bind fun r => pure (f r)).Costs seconds b := by
  have hreturn : ∀ r, (pure (f r) : Op Result).Costs seconds 0 := fun _ => trivial
  exact h.bind hreturn

theorem Action.costs (conf : Options) (ctx : ActionContext) (input : Input) (a : Action) :
    (a.run conf ctx input).Costs seconds (a.budget conf) := by
  cases a with
  | acquireHostLock => exact .of_uses (lockAction_uses fun _ _ _ => ⟨rfl, fun _ => trivial⟩)
  | refreshHostLock => exact .of_uses (lockAction_uses fun _ _ _ => ⟨rfl, fun _ => trivial⟩)
  | releaseHostLock => exact .of_uses (lockAction_uses fun _ _ _ => ⟨rfl, fun _ => trivial⟩)
  | resolveHost =>
    exact wrapped_costs (.of_uses (Prog.Uses.bind novaService_prompt fun _ =>
      Prog.Uses.bind ironicNode_prompt fun _ => Prog.Uses.bind masakariHost_prompt fun _ => trivial))
  | setMasakariMaintenance on => exact wrapped_costs (.of_uses (setMasakariMaintenance_prompt on))
  | setNovaService on => exact wrapped_costs (.of_uses (setNovaService_prompt on _))
  | drainHost => exact wrapped_costs (drainHost_costs _ _ _)
  | assertHostEmpty => exact wrapped_costs (.of_uses (assertHostEmpty_prompt _))
  | ironicPower target soft => exact wrapped_costs (.of_uses (requestPower_prompt target soft))
  | waitPower target => exact wrapped_costs (waitPower_costs _ _ _ _)
  | waitNovaService => exact wrapped_costs (waitNovaService_costs _ _)
  | verifyHostReturn => exact wrapped_costs (.of_uses (verifyHostReturn_prompt _))
  | powerStatus => exact wrapped_costs (.of_uses status_prompt)
  | auditEvent event outcome => exact ⟨le_rfl, fun _ => trivial⟩
  | failSafeHost => exact wrapped_costs (.of_uses failSafeHost_prompt)

/-! ## Executions -/

/-- A task that renews the lock when it ends with success. -/
def renewing (t : TaskName) : Bool := t = .acquireLock || t = .refreshLock

section Paused

variable {W : Type}

/-- The pauses since the last renewal of the lock, after one more record. -/
def pausedAfter (n : Nat) (r : Record TaskName Call Exn Result W) : Nat :=
  if r.ok && renewing r.task then 0 else n + spent seconds r.trace

/-- How long an execution has paused since it last renewed its lock. -/
def paused (s : Run TaskName Call Exn Result W) : Nat :=
  s.history.foldl pausedAfter 0 + (s.active.map fun a => spent seconds a.trace).sum

/-- Drains and waits, with those of one more task. -/
def addWait (n : Nat × Nat) (t : TaskName) : Nat × Nat :=
  (n.1 + (if t = .drainInstances then 1 else 0),
    n.2 + (if t = .waitOff ∨ t = .waitOn ∨ t = .waitNova then 1 else 0))

/-- Drains and waits since the last task that renews the lock, after one more task. -/
def waitsAfter (n : Nat × Nat) (t : TaskName) : Nat × Nat :=
  if renewing t then (0, 0) else addWait n t

/-- What some drains and waits can pause. -/
def waitsBudget (conf : Options) (n : Nat × Nat) : Nat :=
  n.1 * pollSeconds conf.drainTimeout conf.pollInterval +
    n.2 * pollSeconds conf.powerTimeout conf.pollInterval

/-- The drains of a workflow, and the waits that come after its last renewal of the lock. -/
def Planned.waits : Planned → Nat × Nat
  | .powerOff => (1, 1)
  | .reboot => (1, 3)
  | .powerOn => (0, 2)

/-- The longest that a workflow can pause without a renewal of its lock. -/
def Planned.longest (p : Planned) (conf : Options) : Nat :=
  max (waitsBudget conf (p.waits.1, 0)) (waitsBudget conf (0, p.waits.2))

variable {p : Planned} {conf : Options} {ctx : ActionContext} {input : Input}

theorem waitsBudget_mono {m n : Nat × Nat} (h₁ : m.1 ≤ n.1) (h₂ : m.2 ≤ n.2) :
    waitsBudget conf m ≤ waitsBudget conf n :=
  Nat.add_le_add (Nat.mul_le_mul_right _ h₁) (Nat.mul_le_mul_right _ h₂)

/-- The budget of a task, in drains and waits. -/
theorem action_budget (p : Planned) (conf : Options) (n : Nat × Nat) (t : TaskName) :
    waitsBudget conf n + (p.action t).budget conf = waitsBudget conf (addWait n t) := by
  cases t <;> simp [waitsBudget, addWait, Planned.action, Action.budget, Nat.add_mul] <;> omega

theorem pausedAfter_error {n : Nat} {r : Record TaskName Call Exn Result W} (h : r.ok = false) :
    pausedAfter n r = n + spent seconds r.trace := by
  unfold pausedAfter
  rw [h]
  rfl

theorem history_paused {h : List (Record TaskName Call Exn Result W)} {m : Nat} {n : Nat × Nat}
    (hm : m ≤ waitsBudget conf n) (hok : ∀ r ∈ h, r.ok = true)
    (hspent : ∀ r ∈ h, spent seconds r.trace ≤ (p.action r.task).budget conf) :
    h.foldl pausedAfter m ≤ waitsBudget conf ((h.map (·.task)).foldl waitsAfter n) := by
  induction h generalizing m n with
  | nil => exact hm
  | cons r h ih =>
    have hr := hspent r List.mem_cons_self
    have hrok := hok r List.mem_cons_self
    refine ih ?_ (fun r' hr' => hok r' (List.mem_cons_of_mem r hr'))
      fun r' hr' => hspent r' (List.mem_cons_of_mem r hr')
    unfold pausedAfter waitsAfter
    rw [hrok, Bool.true_and]
    split
    · exact Nat.zero_le _
    · rw [← action_budget p conf n r.task]
      omega

theorem few_waits {n : Nat × Nat} (h : n.1 ≤ p.waits.1 ∧ n.2 = 0 ∨ n.1 = 0 ∧ n.2 ≤ p.waits.2) :
    waitsBudget conf n ≤ p.longest conf := by
  rcases h with ⟨hdrains, hwaits⟩ | ⟨hdrains, hwaits⟩
  · have hle : waitsBudget conf n ≤ waitsBudget conf (p.waits.1, 0) :=
      waitsBudget_mono hdrains hwaits.le
    exact hle.trans (Nat.le_max_left _ _)
  · have hle : waitsBudget conf n ≤ waitsBudget conf (0, p.waits.2) :=
      waitsBudget_mono hdrains.le hwaits
    exact hle.trans (Nat.le_max_right _ _)

/-- Wherever an execution is in its success lane, its waits since the renewal are few. -/
theorem spine_waits (conf : Options) {i : Nat} {t : TaskName} (h : p.spine[i]? = some t) :
    waitsBudget conf ((p.spine.take i).foldl waitsAfter (0, 0)) + (p.action t).budget conf ≤
      p.longest conf := by
  rw [action_budget]
  have hcount : ∀ i < p.spine.length, ∀ t ∈ p.spine[i]?,
      let n := addWait ((p.spine.take i).foldl waitsAfter (0, 0)) t
      n.1 ≤ p.waits.1 ∧ n.2 = 0 ∨ n.1 = 0 ∧ n.2 ≤ p.waits.2 := by
    cases p <;> decide
  obtain ⟨hlt, _⟩ := List.getElem?_eq_some_iff.mp h
  exact few_waits (hcount i hlt t h)

theorem spine_all_waits :
    waitsBudget conf (p.spine.foldl waitsAfter (0, 0)) ≤ p.longest conf := by
  have hcount : let n := p.spine.foldl waitsAfter (0, 0)
      n.1 ≤ p.waits.1 ∧ n.2 = 0 ∨ n.1 = 0 ∧ n.2 ≤ p.waits.2 := by
    cases p <;> decide
  exact few_waits hcount

/-- A task on its way has paused within its budget. -/
theorem task_paused {t : TaskName} {tr : Trace} {q : Op Result}
    (h : Steps (program p.workflow conf ctx input t) tr q) :
    spent seconds tr ≤ (p.action t).budget conf := by
  rcases program_eq p conf ctx input t with hp | hp
  · rw [hp] at h
    exact h.spent_le (Action.costs conf ctx input (p.action t))
  · rw [hp] at h
    obtain ⟨rfl, _⟩ := h.done_inv
    exact Nat.zero_le _

theorem cleanup_budget {t : TaskName} (ht : t ∈ cleanupLane) : (p.action t).budget conf = 0 := by
  simp only [cleanupLane, List.mem_cons, List.not_mem_nil, or_false] at ht
  rcases ht with rfl | rfl | rfl <;> rfl

/-- The clean-up lane does not pause. -/
theorem cleanup_paused (conf : Options)
    {later : List (Record TaskName Call Exn Result W)} {n : Nat}
    (htasks : ∀ r ∈ later, r.task ∈ cleanupLane)
    (hspent : ∀ r ∈ later, spent seconds r.trace ≤ (p.action r.task).budget conf) :
    later.foldl pausedAfter n ≤ n := by
  induction later generalizing n with
  | nil => exact le_rfl
  | cons r later ih =>
    have hr := hspent r List.mem_cons_self
    rw [cleanup_budget (htasks r List.mem_cons_self)] at hr
    refine (ih (fun r' hr' => htasks r' (List.mem_cons_of_mem r hr'))
      fun r' hr' => hspent r' (List.mem_cons_of_mem r hr')).trans ?_
    unfold pausedAfter
    split
    · exact Nat.zero_le n
    · omega

variable {env : Env Call Exn W} {w₀ : W} {s : Run TaskName Call Exn Result W}

end Paused

end Workbook
end KollaPowerOps
