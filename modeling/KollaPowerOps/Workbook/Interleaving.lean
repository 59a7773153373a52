import KollaPowerOps.Actions.LockSafety
import KollaPowerOps.Workbook.Gates

/-!
# Workbook.Interleaving

Any number of executions of the planned workflows over one Redis, call by call in any order, with
time passing between any two of them. Whatever is not Redis answers as it likes.

No operation looks at the lock before it changes something, so a lock that has expired does not
stop the execution that had it (`expired_execution_goes_on`). What the lock does guarantee is
`mutation_disciplined`: who changes something has acquired the lock of the host before, still has
it as long as its time has not passed, and after a refresh that failed only runs the fail-safe.
-/

namespace KollaPowerOps
namespace Workbook

open Effect TaskGraph Actions Lease

/-- One execution of a planned workflow. -/
structure Execution where
  planned : Planned
  conf : Options
  ctx : ActionContext
  input : Input

namespace Execution

def workflow (e : Execution) : Workflow TaskName Action := e.planned.workflow

def program (e : Execution) : TaskName → Op Result :=
  Workbook.program e.planned.workflow e.conf e.ctx e.input

def host (e : Execution) : String := e.input.host

/-- The name under which the execution takes its lock. -/
def Owns (e : Execution) (o : String) : Prop := owner e.ctx = .ok o

end Execution

/-- An environment that answers as it likes. -/
def Free : Env Call Exn Unit := fun _ _ _ => True

variable {ι : Type} [DecidableEq ι]

/-- Redis and the state of every execution. -/
structure Cluster (ι : Type) where
  redis : Redis
  runs : ι → Run TaskName Call Exn Result Unit

inductive ClusterLabel (ι : Type) where
  | call (i : ι) (t : TaskName) (ev : CallEvent)
  | finish (i : ι)
  | elapse (n : Nat)

inductive ClusterStep (ex : ι → Execution) :
    Cluster ι → ClusterLabel ι → Cluster ι → Prop where
  | call {c : Cluster ι} {i : ι} {t : TaskName} {ev : CallEvent} {redis : Redis}
      {run : Run TaskName Call Exn Result Unit} :
      Step (ex i).workflow (ex i).program Free (c.runs i) (some (t, ev)) run →
      RedisStep c.redis ev redis →
      ClusterStep ex c (.call i t ev) ⟨redis, Function.update c.runs i run⟩
  | finish {c : Cluster ι} {i : ι} {run : Run TaskName Call Exn Result Unit} :
      Step (ex i).workflow (ex i).program Free (c.runs i) none run →
      ClusterStep ex c (.finish i) ⟨c.redis, Function.update c.runs i run⟩
  | elapse {c : Cluster ι} (n : Nat) :
      ClusterStep ex c (.elapse n) ⟨c.redis.elapse n, c.runs⟩

/-- A call as a request for the lease of a host, if it is one. -/
def lockEvent (host : String) : CallEvent → Option LockEvent
  | ⟨.redisSet _ o px, r⟩ => some (.request ⟨host, o, .acquire px⟩ r.toOption)
  | ⟨.redisRefresh _ o px, r⟩ =>
    some (.request ⟨host, o, .refresh px⟩ (r.map fun n => n != 0).toOption)
  | ⟨.redisRelease _ o, r⟩ => some (.request ⟨host, o, .release⟩ (r.map fun n => n != 0).toOption)
  | _ => none

/-- What a step adds to the history of the locks. -/
def lockEvents (ex : ι → Execution) : ClusterLabel ι → List LockEvent
  | .call i _ ev => (lockEvent (ex i).host ev).toList
  | .finish _ => []
  | .elapse n => [.elapse n]

/-- The states that the executions can reach, with the history of the locks. -/
inductive ClusterReach (ex : ι → Execution) (r₀ : Redis) :
    List LockEvent → Cluster ι → Prop where
  | init : ClusterReach ex r₀ [] ⟨r₀, fun i => Run.init (ex i).workflow (ex i).program ()⟩
  | step {h : List LockEvent} {c c' : Cluster ι} {l : ClusterLabel ι} :
      ClusterReach ex r₀ h c → ClusterStep ex c l c' → ClusterReach ex r₀ (h ++ lockEvents ex l) c'

variable {ex : ι → Execution} {r₀ : Redis} {h : List LockEvent} {c c' : Cluster ι}

/-- A step of one execution keeps every execution a run of its own. -/
theorem update_reach {i j : ι} {run : Run TaskName Call Exn Result Unit}
    {l : Option (TaskName × CallEvent)}
    (hall : ∀ i, Reach (ex i).workflow (ex i).program Free () (c.runs i))
    (hs : Step (ex j).workflow (ex j).program Free (c.runs j) l run) :
    Reach (ex i).workflow (ex i).program Free () (Function.update c.runs j run i) := by
  by_cases hij : i = j
  · subst hij
    rw [Function.update_self]
    exact (hall i).step hs
  · rw [Function.update_of_ne hij]
    exact hall i

/-- Each execution by itself is a run of its workflow. -/
theorem ClusterReach.run (hr : ClusterReach ex r₀ h c) :
    ∀ i, Reach (ex i).workflow (ex i).program Free () (c.runs i) := by
  induction hr with
  | init => exact fun i => .init
  | step _ hs ih =>
    cases hs with
    | call hs _ => exact fun i => update_reach ih hs
    | finish hs => exact fun i => update_reach ih hs
    | elapse n => exact ih

/-- A call of an execution is a step of the locks, or leaves Redis alone. -/
theorem lockEvent_step {ctx : ActionContext} {host : String} {ev : CallEvent} {s s' : Redis}
    (hown : OwnLock ctx host ev.op) (hs : RedisStep s ev s') :
    (∃ e, lockEvent host ev = some e ∧ LockStep s e s') ∨ (lockEvent host ev = none ∧ s' = s) := by
  obtain ⟨op, r⟩ := ev
  have hother : ∀ {τ : Type} (op : Call τ) (r : Except Exn τ), s.exec op = none →
      RedisStep s ⟨op, r⟩ s' → s' = s := by
    intro τ op r hnone hs
    cases hs with
    | replied he => rw [hnone] at he; cases he
    | lost he => rw [hnone] at he; cases he
    | dropped => rfl
    | other _ => rfl
  cases op with
  | redisSet key o px =>
    obtain ⟨l, rfl, _, rfl, rfl, rfl⟩ := hown
    refine .inl ⟨_, rfl, LockStep.call l .acquire ?_ (.cons hs .nil)⟩
    cases r with
    | ok a => exact .ret .nil
    | error e => exact .raise
  | redisRefresh key o px =>
    obtain ⟨l, rfl, _, rfl, rfl, rfl⟩ := hown
    refine .inl ⟨_, rfl, LockStep.call l .refresh ?_ (.cons hs .nil)⟩
    cases r with
    | ok a => exact .ret .nil
    | error e => exact .raise
  | redisRelease key o =>
    obtain ⟨l, rfl, _, rfl, rfl⟩ := hown
    refine .inl ⟨_, rfl, LockStep.call l .release ?_ (.cons hs .nil)⟩
    cases r with
    | ok a => exact .ret .nil
    | error e => exact .raise
  | _ => exact .inr ⟨rfl, hother _ r rfl hs⟩

omit [DecidableEq ι] in
/-- The calls of Redis that an execution makes are about its own lock. -/
theorem step_call {i : ι} {t : TaskName} {ev : CallEvent}
    {run : Run TaskName Call Exn Result Unit}
    (hr : Reach (ex i).workflow (ex i).program Free () (c.runs i))
    (hs : Step (ex i).workflow (ex i).program Free (c.runs i) (some (t, ev)) run) :
    OwnLock (ex i).ctx (ex i).host ev.op := by
  obtain ⟨⟨tr, q, hsteps⟩, _⟩ := (ex i).planned.lanes.reach_call hr hs
  exact (hsteps.within (program_ownLock _ _ _ _ t)).2 ev (by simp)

/-- The history is one of lock calls and of time. -/
theorem ClusterReach.locks (hr : ClusterReach ex r₀ h c) : LockRun r₀ h c.redis := by
  induction hr with
  | init => exact .start
  | step hr hs ih =>
    cases hs with
    | call hs hredis =>
      rw [lockEvents]
      rcases lockEvent_step (step_call (hr.run _) hs) hredis with ⟨e, he, hlock⟩ | ⟨he, rfl⟩
      · rw [he]; exact ih.step hlock
      · rw [he]; simpa using ih
    | finish hs => simpa [lockEvents] using ih
    | elapse n => exact ih.step (.elapse _ n)

/-! ## Executing an interleaving -/

/-- Let one execution take a step, or let time pass. -/
inductive Move (ι : Type) where
  | run (i : ι)
  | wait (n : Nat)

/-- Redis answers for itself, and everything else as on the idle host. -/
def clusterSim (redis : Redis) : Simulator Call Exn Unit := fun _ _ op =>
  match redis.exec op with
  | some (a, _) => (.ok a, ())
  | none => idleCloud "enabled" () op

/-- Redis after a call. -/
def Redis.after (redis : Redis) (ev : CallEvent) : Redis :=
  match redis.exec ev.op with
  | some (_, redis') => redis'
  | none => redis

def Cluster.label (c : Cluster ι) : Move ι → ClusterLabel ι
  | .run i =>
    match (c.runs i).label (clusterSim c.redis) with
    | some (t, ev) => .call i t ev
    | none => .finish i
  | .wait n => .elapse n

def Cluster.move (ex : ι → Execution) (c : Cluster ι) : Move ι → Cluster ι
  | .run i =>
    let run := (c.runs i).tick (ex i).workflow (ex i).program (clusterSim c.redis)
    match (c.runs i).label (clusterSim c.redis) with
    | some (_, ev) => ⟨Redis.after c.redis ev, Function.update c.runs i run⟩
    | none => ⟨c.redis, Function.update c.runs i run⟩
  | .wait n => ⟨c.redis.elapse n, c.runs⟩

/-- The state after some moves. -/
def Cluster.moves (ex : ι → Execution) (c : Cluster ι) (ms : List (Move ι)) : Cluster ι :=
  ms.foldl (Cluster.move ex) c

/-- The history of the locks of some moves. -/
def Cluster.locks (ex : ι → Execution) : Cluster ι → List (Move ι) → List LockEvent
  | _, [] => []
  | c, m :: ms => lockEvents ex (c.label m) ++ (c.move ex m).locks ex ms

theorem clusterSim_redis {redis : Redis} {τ : Type} (op : Call τ) :
    RedisStep redis ⟨op, (clusterSim redis () op).1⟩
      (Redis.after redis ⟨op, (clusterSim redis () op).1⟩) := by
  unfold clusterSim Redis.after
  cases he : redis.exec op with
  | none => exact .other he
  | some x => exact .replied he

theorem label_redis {run : Run TaskName Call Exn Result Unit} {redis : Redis} {t : TaskName}
    {ev : CallEvent} (hl : run.label (clusterSim redis) = some (t, ev)) :
    RedisStep redis ev (Redis.after redis ev) := by
  unfold Run.label at hl
  split at hl
  · cases hl
  · split at hl
    · cases hl
    · cases hl
      exact clusterSim_redis _

theorem move_step {i : ι} (hact : (c.runs i).active ≠ []) :
    ClusterStep ex c (c.label (.run i)) (c.move ex (.run i)) := by
  have hs : Step (ex i).workflow (ex i).program Free (c.runs i) _ _ :=
    Run.tick_step (clusterSim c.redis) (fun _ _ _ => trivial) hact
  simp only [Cluster.label, Cluster.move]
  cases hl : (c.runs i).label (clusterSim c.redis) with
  | none => rw [hl] at hs; exact .finish hs
  | some x => rw [hl] at hs; exact .call hs (label_redis hl)

/-- An execution that has ended does not move. -/
theorem move_ended {i : ι} (hend : (c.runs i).active = []) :
    c.label (.run i) = .finish i ∧ c.move ex (.run i) = c := by
  have hlabel : (c.runs i).label (clusterSim c.redis) = none := by
    unfold Run.label
    rw [hend]
  have htick : (c.runs i).tick (ex i).workflow (ex i).program (clusterSim c.redis) = c.runs i := by
    unfold Run.tick
    rw [hend]
  constructor
  · simp only [Cluster.label, hlabel]
  · simp only [Cluster.move, hlabel, htick, Function.update_eq_self]

theorem move_reach (hr : ClusterReach ex r₀ h c) (m : Move ι) :
    ClusterReach ex r₀ (h ++ lockEvents ex (c.label m)) (c.move ex m) := by
  cases m with
  | wait n => exact hr.step (.elapse n)
  | run i =>
    by_cases hend : (c.runs i).active = []
    · have hended : c.label (.run i) = .finish i ∧ c.move ex (.run i) = c := move_ended hend
      rw [hended.1, hended.2, lockEvents, List.append_nil]
      exact hr
    · exact hr.step (move_step hend)

theorem moves_reach (ms : List (Move ι)) : ∀ {h : List LockEvent} {c : Cluster ι},
    ClusterReach ex r₀ h c → ClusterReach ex r₀ (h ++ c.locks ex ms) (c.moves ex ms) := by
  induction ms with
  | nil =>
    intro h c hr
    rw [Cluster.locks, List.append_nil]
    exact hr
  | cons m ms ih =>
    intro h c hr
    rw [Cluster.locks, ← List.append_assoc]
    exact ih (move_reach hr m)

/-- Two executions that power off `compute-01`. -/
def twoRuns (second : Bool) : Execution where
  planned := .powerOff
  conf := .declared
  ctx := { workflowExecutionId := if second then "run-b" else "run-a" }
  input := { host := "compute-01" }

def twoRunsStart : Cluster Bool :=
  ⟨fun _ => none, fun i => Run.init (twoRuns i).workflow (twoRuns i).program ()⟩

/-- The first execution acquires the lock, 900 s pass, the second acquires it, and the first goes
on until its call that sets maintenance. -/
def takeover : List (Move Bool) :=
  List.replicate 2 (.run false) ++ [.wait 900000] ++ List.replicate 2 (.run true) ++
    List.replicate 7 (.run false)

theorem twoRuns_reach (ms : List (Move Bool)) :
    ClusterReach twoRuns (fun _ => none) (twoRunsStart.locks twoRuns ms)
      (twoRunsStart.moves twoRuns ms) :=
  moves_reach ms .init

def idleHost : MasakariHost := { id := "host-1", name := "compute-01" }

/-- The lock has expired and is another execution's, and the call is made nevertheless. -/
theorem expired_execution_goes_on :
    ¬ ∀ (ex : Bool → Execution) (h : List LockEvent) (c c' : Cluster Bool) (i : Bool)
        (t : TaskName) (ev : CallEvent) (o : String),
      (∀ j, (ex j).host = (ex i).host) → ClusterReach ex (fun _ => none) h c →
        ClusterStep ex c (.call i t ev) c' → ev.op.mutating = true → (ex i).Owns o →
        c.redis.get (hostKey (ex i).host) = some o := by
  intro hclaim
  have hreach := twoRuns_reach takeover
  have hs : ClusterStep twoRuns _ (.call false .maintenanceOn
      ⟨.updateHost idleHost ⟨"segment-1"⟩ true, .ok ()⟩) _ :=
    move_step (i := false) (c := twoRunsStart.moves twoRuns takeover) (by decide)
  have hown : (twoRuns false).Owns "run-a" := rfl
  have hget := hclaim twoRuns _ _ _ _ _ _ _ (fun _ => rfl) hreach hs rfl hown
  have htaken : (twoRunsStart.moves twoRuns takeover).redis.get (hostKey "compute-01") =
      some "run-b" := by decide
  exact absurd (hget.symm.trans htaken) (by decide)

/-! ## What the lock guarantees -/

theorem acquire_first {p : Planned} {i : Nat} {t : TaskName} (h : p.spine[i]? = some t)
    (ht : t ≠ .acquireLock) : .acquireLock ∈ p.spine.take i := by
  obtain ⟨hi, rfl⟩ := List.getElem?_eq_some_iff.mp h
  clear h
  revert i
  cases p <;> decide

/-- The lock and audit actions change nothing but the lock. -/
theorem touches_not_mutating {host : String} {a : Action} {τ : Type} {op : Call τ}
    (ha : a = .acquireHostLock ∨ a = .releaseHostLock ∨ ∃ event outcome, a = .auditEvent event outcome)
    (h : Touches host a op) : op.mutating = false := by
  rcases ha with rfl | rfl | ⟨event, outcome, rfl⟩
  · cases op <;> first | rfl | simp [Touches] at h
  · cases op <;> first | rfl | simp [Touches] at h
  · cases op <;> first | rfl | simp [Touches] at h

theorem mutating_task {host : String} {p : Planned} {t : TaskName} {τ : Type} {op : Call τ}
    (h : Touches host (p.action t) op) (hm : op.mutating = true) :
    t ≠ .acquireLock ∧ (t ∈ cleanupLane → t = .failSafeHost) := by
  have hact : ¬ (p.action t = .acquireHostLock ∨ p.action t = .releaseHostLock ∨
      ∃ event outcome, p.action t = .auditEvent event outcome) := by
    intro ha
    rw [touches_not_mutating ha h] at hm
    cases hm
  constructor
  · rintro rfl
    exact hact (.inl rfl)
  · intro ht
    simp only [cleanupLane, List.mem_cons, List.not_mem_nil, or_false] at ht
    rcases ht with rfl | rfl | rfl
    · rfl
    · exact absurd (.inr (.inr ⟨_, _, rfl⟩)) hact
    · exact absurd (.inr (.inl rfl)) hact

/-- The tasks before the clean-up lane come after the acquisition of the lock. -/
theorem cleanup_not_acquire {p : Planned}
    (h : p.workflow.successors .acquireLock false = [.task .failSafeHost]) : False := by
  cases p <;> revert h <;> decide

/-- The execution has acquired its lock in its run so far. -/
def HasAcquired (e : Execution) (run : Run TaskName Call Exn Result Unit) : Prop :=
  ∃ r ∈ run.history, r.task = .acquireLock ∧ r.ok = true ∧
    Shown e.conf e.ctx e.input .acquireLock r.trace

theorem hasAcquired_of_mem {e : Execution} {run : Run TaskName Call Exn Result Unit} {w : Unit}
    {good : List (Record TaskName Call Exn Result Unit)} {i : Nat} {t : TaskName}
    (hc : Chain e.program Free () run.history w) (hsub : ∀ r ∈ good, r ∈ run.history)
    (htasks : good.map (·.task) = e.planned.spine.take i) (hok : ∀ r ∈ good, r.ok = true)
    (hi : e.planned.spine[i]? = some t) (ht : t ≠ .acquireLock) : HasAcquired e run := by
  have hmem := acquire_first hi ht
  rw [← htasks] at hmem
  obtain ⟨r, hr, hrt⟩ := List.mem_map.mp hmem
  have hshown := record_shown hc (hsub r hr) (hok r hr)
  rw [hrt] at hshown
  exact ⟨r, hsub r hr, hrt, hok r hr, hshown⟩

/-- The last successful acquire or refresh of this owner on this host is less than its time ago,
and the owner has asked for nothing since. -/
def Unexpired (h : List LockEvent) (host o : String) : Prop :=
  ∃ (h₁ h₂ : List LockEvent) (a : Lease.Action) (d : ℕ+),
    h = h₁ ++ .request ⟨host, o, a⟩ (some true) :: h₂ ∧ (a = .acquire d ∨ a = .refresh d) ∧
      (∀ e ∈ h₂, Foreign host o e) ∧ elapsed h₂ < d

/-- The calls of the fail-safe: Nova off, maintenance on. -/
def FailSafeCall {τ : Type} : Call τ → Prop
  | .disableService _ _ => True
  | .updateHost _ _ on => on = true
  | _ => False

theorem failSafe_calls {host : String} {τ : Type} {op : Call τ}
    (h : Touches host .failSafeHost op) (hm : op.mutating = true) : FailSafeCall op := by
  cases op with
  | disableService service reason => trivial
  | updateHost item segment on =>
    obtain ⟨_, ha | ⟨_, hon⟩⟩ := h
    · cases ha
    · exact hon
  | setNodePowerState node target => obtain ⟨_, _, _, ha, _⟩ := h; cases ha
  | enableService service => cases h.2
  | liveMigrateServer server => cases h.2
  | stopServer server => cases h.2
  | _ => cases hm

/-- What holds of a mutating call of execution `i` in the state `c`. -/
structure Disciplined (ex : ι → Execution) (h : List LockEvent) (c : Cluster ι) (i : ι)
    (t : TaskName) (ev : CallEvent) : Prop where
  own : Touches (ex i).host ((ex i).planned.action t) ev.op
  acquired : HasAcquired (ex i) (c.runs i)
  holds : ∀ o, (ex i).Owns o → Unexpired h (ex i).host o →
    c.redis.get (hostKey (ex i).host) = some o
  alone : ∀ o o', (ex i).Owns o → Unexpired h (ex i).host o → Unexpired h (ex i).host o' → o' = o
  lost : (∃ r ∈ (c.runs i).history, r.task = .refreshLock ∧ r.ok = false) →
    t = .failSafeHost ∧ FailSafeCall ev.op

/-- **Lock discipline.** A mutating call of an execution is about its own host, and the execution
has acquired the lock of the host before. It still has it, alone, while the time of its last
acquire or refresh has not passed. After a refresh that failed it only runs the fail-safe. -/
theorem mutation_disciplined {i : ι} {t : TaskName} {ev : CallEvent}
    (hr : ClusterReach ex r₀ h c) (hs : ClusterStep ex c (.call i t ev) c')
    (hm : ev.op.mutating = true) : Disciplined ex h c i t ev := by
  cases hs with
  | call hstep hredis =>
    have hrun := hr.run i
    obtain ⟨⟨tr, q, hsteps⟩, hlane⟩ := (ex i).planned.lanes.reach_call hrun hstep
    have htouch : Touches (ex i).host ((ex i).planned.action t) ev.op :=
      (hsteps.within (program_uses _ _ _ _ t)).2 ev (by simp)
    obtain ⟨hnacq, hclean⟩ := mutating_task htouch hm
    have hleases := hr.locks.leases
    have hholds : ∀ o, Unexpired h (ex i).host o → Holds h (ex i).host o := by
      rintro o ⟨h₁, h₂, a, d, rfl, ha, hf, hd⟩
      exact holds_of_elapsed ha hf hd
    refine ⟨htouch, ?_, fun o _ ho => ?_, fun o o' _ ho ho' => ?_, ?_⟩
    · rcases hlane with ⟨k, hfwd⟩ | ⟨k, j, hcl⟩
      · obtain ⟨w, hc⟩ := hfwd.chain
        exact hasAcquired_of_mem hc (fun _ h => h) hfwd.passed.tasks hfwd.passed.ok hfwd.task hnacq
      · obtain ⟨w, hc⟩ := hcl.chain
        obtain ⟨good, bad, later, hh, hb, hsucc⟩ := hcl.broke
        have hbad : bad.task ≠ .acquireLock := by
          intro hacq
          rw [hacq] at hsucc
          exact cleanup_not_acquire hsucc
        exact hasAcquired_of_mem hc (fun r hr => by rw [hh]; simp [hr]) hb.passed.tasks
          hb.passed.ok hb.task hbad
    · obtain ⟨l, hl, rfl, _⟩ := hleases.backed _ _ (hholds o ho)
      obtain ⟨e, he, rfl⟩ := Option.map_eq_some_iff.mp hl
      rw [Redis.get, he]; rfl
    · exact hleases.unique (hholds o' ho') (hholds o ho)
    · rintro ⟨r, hr, _, hbad⟩
      rcases hlane with ⟨k, hfwd⟩ | ⟨k, j, hcl⟩
      · rw [hfwd.passed.ok r hr] at hbad; cases hbad
      · have ht := hclean (List.mem_of_getElem? hcl.task)
        subst ht
        exact ⟨rfl, failSafe_calls htouch hm⟩

theorem mutation_disciplined_idle :
    (twoRunsStart.moves twoRuns (List.replicate 9 (.run false))).redis.get (hostKey "compute-01") =
      some "run-a" := by
  have hs : ClusterStep twoRuns _ (.call false .maintenanceOn
      ⟨.updateHost idleHost ⟨"segment-1"⟩ true, .ok ()⟩) _ :=
    move_step (i := false) (c := twoRunsStart.moves twoRuns (List.replicate 9 (.run false)))
      (by decide)
  have hd := mutation_disciplined (twoRuns_reach (List.replicate 9 (.run false))) hs rfl
  have hacq : Unexpired (twoRunsStart.locks twoRuns (List.replicate 9 (.run false)))
      "compute-01" "run-a" :=
    ⟨[], [], .acquire 900000, 900000, rfl, .inl rfl, by simp, by decide⟩
  exact hd.holds "run-a" rfl hacq

end Workbook
end KollaPowerOps
