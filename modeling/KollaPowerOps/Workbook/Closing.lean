import KollaPowerOps.Workbook.FailSafe

/-!
# Workbook.Closing

How an execution that has got the lock of its host ends: with one audit event that says whether the
tasks before it succeeded, and then with one release of the lock.
-/

namespace KollaPowerOps
namespace Workbook

open Effect TaskGraph Actions

/-- The action closes an execution. -/
def Action.closing : Action → Bool
  | .auditEvent _ _ => true
  | .releaseHostLock => true
  | _ => false

/-! ## The closing calls -/

section Calls

variable {conf : Options} {ctx : ActionContext} {host : String} {ttl : Option Int} {tr : Trace}

/-- A lock action that returned has built its lock. -/
theorem lockAction_built {c : LockCall} {r : Result} (h : Returns (lockAction conf ctx host ttl c) tr r) :
    ∃ o l, owner ctx = .ok o ∧ lock conf host o ttl = .ok l := by
  simp only [lockAction, checked, Prog.bind_def, returns_bind] at h
  obtain ⟨o, _, _, rfl, howned, l, _, _, rfl, hlock, _⟩ := h
  obtain ⟨_, ho⟩ := Steps.done_inv howned
  obtain ⟨_, hl⟩ := Steps.done_inv hlock
  injection ho with ho
  injection hl with hl
  exact ⟨o, l, ho.symm, hl.symm⟩

theorem release_trace {o : String} {l : RedisHostLock} {r : Except Exn Result}
    (ho : owner ctx = .ok o) (hl : lock conf host o ttl = .ok l)
    (h : Finishes (lockAction conf ctx host ttl .release) tr r) :
    ∃ x, tr = [⟨.redisRelease (hostKey host) o, x⟩] := by
  obtain ⟨hhost, howner⟩ := RedisHostLock.create_ok hl
  have hrun : lockAction conf ctx host ttl .release =
      .call (.redisRelease (hostKey l.host) l.owner) fun n =>
        if !(n != 0) then raise (.valueError (refused host .release))
        else pure (.lock host o .release) := by
    simp only [lockAction, ho, hl, checked, Prog.bind_def, Prog.bind_ok]
    rfl
  rw [hrun, hhost, howner] at h
  obtain ⟨n, tr', rfl, hk⟩ | ⟨e, rfl, _⟩ := finishes_call.mp h
  · split at hk
    · obtain ⟨rfl, _⟩ := finishes_raise.mp hk
      exact ⟨.ok n, rfl⟩
    · obtain ⟨rfl, _⟩ := finishes_done.mp hk
      exact ⟨.ok n, rfl⟩
  · exact ⟨.error e, rfl⟩

theorem audit_trace {event outcome : String} {r : Except Exn Result}
    (h : Finishes (auditEvent host event outcome) tr r) :
    ∃ x, tr = [⟨.logAudit host event outcome, x⟩] := by
  obtain ⟨eventId, tr', rfl, hk⟩ | ⟨e, rfl, _⟩ := finishes_call.mp h
  · obtain ⟨rfl, _⟩ := finishes_done.mp hk
    exact ⟨.ok eventId, rfl⟩
  · exact ⟨.error e, rfl⟩

end Calls

/-! ## The end of an execution -/

section End

variable {W : Type} {p : Planned} {conf : Options} {ctx : ActionContext} {input : Input}
  {env : Env Call Exn W} {w₀ : W} {s : Run TaskName Call Exn Result W}

/-- The execution has got the lock of the host. -/
def GotLock (s : Run TaskName Call Exn Result W) : Prop :=
  ∃ r ∈ s.history, r.task = .acquireLock ∧ r.ok = true

/-- The records of an execution that has closed, with the outcome that it logs. -/
structure Closed (p : Planned) (s : Run TaskName Call Exn Result W)
    (lane : List (Record TaskName Call Exn Result W)) (audit release : Record TaskName Call Exn Result W)
    (outcome : String) : Prop where
  history : s.history = lane ++ [audit, release]
  ends : audit.task = .auditSuccess ∧ release.task = .releaseLock ∧ outcome = "success" ∧
      (∀ r ∈ lane, r.ok = true) ∨
    audit.task = .auditFailure ∧ release.task = .releaseLockError ∧ outcome = "failure" ∧
      ∃ r ∈ lane, r.ok = false
  /-- Nothing else has closed the execution. -/
  first : ∀ r ∈ lane, (p.action r.task).closing = true →
    p.action r.task = .auditEvent p.event "success" ∧ r.ok = false

theorem spine_closing (p : Planned) : p.spine = p.spine.dropLast.dropLast ++ [.auditSuccess, .releaseLock] ∧
    ∀ t ∈ p.spine.dropLast.dropLast, (p.action t).closing = false := by
  cases p <;> decide

theorem spine_audit (p : Planned) :
    p.spine.dropLast = p.spine.dropLast.dropLast ++ [.auditSuccess] := by
  cases p <;> decide

/-- Before a task that leads to the clean-up lane nothing closes the execution, and the task itself
is not the release. -/
theorem broke_closing {i : Nat} {t : TaskName} (h : p.spine[i]? = some t)
    (hs : p.workflow.successors t false = [.task .failSafeHost]) :
    (∀ t' ∈ p.spine.take i, (p.action t').closing = false) ∧
      ((p.action t).closing = true → p.action t = .auditEvent p.event "success") := by
  obtain ⟨hi, hget⟩ := List.getElem?_eq_some_iff.mp h
  have hall : ∀ i (hi : i < p.spine.length),
      p.workflow.successors p.spine[i] false = [.task .failSafeHost] →
      (∀ t' ∈ p.spine.take i, (p.action t').closing = false) ∧
        ((p.action p.spine[i]).closing = true →
          p.action p.spine[i] = .auditEvent p.event "success") := by
    cases p <;> decide
  rw [← hget] at hs ⊢
  exact hall i hi hs

theorem closed_of_ended (h : Reach p.workflow (program p.workflow conf ctx input) env w₀ s)
    (hend : s.ended) (hlock : GotLock s) :
    ∃ lane audit release outcome, Closed p s lane audit release outcome := by
  obtain ⟨hspine, hquiet⟩ := spine_closing p
  have hclosing : ∀ lane : List (Record TaskName Call Exn Result W),
      lane.map (·.task) = p.spine.dropLast.dropLast →
      ∀ r ∈ lane, (p.action r.task).closing = false := by
    intro lane hlane r hr
    refine hquiet r.task ?_
    rw [← hlane]
    exact List.mem_map_of_mem hr
  cases p.lanes.reach_shape h with
  | forward i a _ ha => rw [Run.ended, ha] at hend; cases hend
  | cleanup i j good later bad a _ ha => rw [Run.ended, ha] at hend; cases hend
  | done _ _ hpass _ =>
    have htasks : s.history.map (·.task) =
        p.spine.dropLast.dropLast ++ [.auditSuccess, .releaseLock] := by
      rw [← hspine, hpass.tasks]
      exact List.take_length
    obtain ⟨lane, rest, hh, hlane, hrest⟩ := List.map_eq_append_iff.mp htasks
    obtain ⟨a, rest, rfl, ha, hrest⟩ := List.map_eq_cons_iff.mp hrest
    obtain ⟨l, rest, rfl, hl, hrest⟩ := List.map_eq_cons_iff.mp hrest
    obtain rfl := List.map_eq_nil_iff.mp hrest
    refine ⟨lane, a, l, "success", hh, .inl ⟨ha, hl, rfl, fun r hr => ?_⟩, fun r hr hc => ?_⟩
    · exact hpass.ok r (hh ▸ List.mem_append_left _ hr)
    · rw [hclosing lane hlane r hr] at hc
      cases hc
  | stuck i good bad _ hh hb hsucc _ =>
    have hbtask := hb.task
    have hmem : bad.task ∈ p.spine := List.mem_of_getElem? hbtask
    have hgood : good.map (·.task) = p.spine.take i := hb.passed.tasks
    rcases hsucc with ⟨_, hsucc⟩ | ⟨_, hsucc⟩
    · -- the lock was not acquired
      have hacq := (ends_there hmem).2 hsucc
      rw [hacq] at hbtask
      rw [spine_before_acquire hbtask] at hgood
      obtain ⟨r, hr, _, hrok⟩ := hlock
      rw [hh, List.map_eq_nil_iff.mp hgood, List.nil_append, List.mem_singleton] at hr
      rw [hr, hb.error] at hrok
      cases hrok
    · have hrel := (ends_there hmem).1 hsucc
      rw [hrel] at hbtask
      rw [spine_before_release hbtask, spine_audit p] at hgood
      obtain ⟨lane, rest, rfl, hlane, hrest⟩ := List.map_eq_append_iff.mp hgood
      obtain ⟨a, rest, rfl, ha, hrest⟩ := List.map_eq_cons_iff.mp hrest
      obtain rfl := List.map_eq_nil_iff.mp hrest
      refine ⟨lane, a, bad, "success", by rw [hh, List.append_assoc]; rfl,
        .inl ⟨ha, hrel, rfl, fun r hr => ?_⟩, fun r hr hc => ?_⟩
      · exact hb.passed.ok r (List.mem_append_left _ hr)
      · rw [hclosing lane hlane r hr] at hc
        cases hc
  | cleaned i good later bad _ _ hh hb hsucc hl _ =>
    obtain ⟨hbefore, hbad⟩ := broke_closing hb.task hsucc
    obtain ⟨f, later, rfl, hf, hl⟩ := List.map_eq_cons_iff.mp hl
    obtain ⟨a, later, rfl, ha, hl⟩ := List.map_eq_cons_iff.mp hl
    obtain ⟨l, later, rfl, hl', hl⟩ := List.map_eq_cons_iff.mp hl
    obtain rfl := List.map_eq_nil_iff.mp hl
    refine ⟨good ++ [bad, f], a, l, "failure", by rw [hh, List.append_assoc]; rfl,
      .inr ⟨ha, hl', rfl, bad, by simp, hb.error⟩, fun r hr hc => ?_⟩
    rcases List.mem_append.mp hr with hr | hr
    · have hquiet : (p.action r.task).closing = false := by
        refine hbefore r.task ?_
        rw [← show good.map (·.task) = p.spine.take i from hb.passed.tasks]
        exact List.mem_map_of_mem hr
      rw [hquiet] at hc
      cases hc
    · rcases List.mem_cons.mp hr with rfl | hr
      · exact ⟨hbad hc, hb.error⟩
      · rw [List.mem_singleton.mp hr, hf] at hc
        cases hc

theorem closing_program (p : Planned) (conf : Options) (ctx : ActionContext) (input : Input) :
    program p.workflow conf ctx input .acquireLock = acquireHostLock conf ctx input.host ∧
      program p.workflow conf ctx input .auditSuccess = auditEvent input.host p.event "success" ∧
      program p.workflow conf ctx input .auditFailure = auditEvent input.host p.event "failure" ∧
      program p.workflow conf ctx input .releaseLock = releaseHostLock conf ctx input.host ∧
      program p.workflow conf ctx input .releaseLockError = releaseHostLock conf ctx input.host := by
  cases p <;> exact ⟨rfl, rfl, rfl, rfl, rfl⟩

/-- An execution that has got the lock has an owner to release it with. -/
theorem gotLock_built (h : Reach p.workflow (program p.workflow conf ctx input) env w₀ s)
    (hlock : GotLock s) :
    ∃ o l, owner ctx = .ok o ∧ lock conf input.host o none = .ok l := by
  obtain ⟨r, hr, htask, hok⟩ := hlock
  have hsteps := h.going.history r hr
  rw [htask, (closing_program p conf ctx input).1] at hsteps
  cases hres : r.result with
  | error e =>
    rw [Record.ok, hres] at hok
    cases hok
  | ok a =>
    rw [hres] at hsteps
    exact lockAction_built hsteps

theorem closed_traces {lane : List (Record TaskName Call Exn Result W)}
    {audit release : Record TaskName Call Exn Result W} {outcome : String} {o : String}
    {l : RedisHostLock} (h : Reach p.workflow (program p.workflow conf ctx input) env w₀ s)
    (hclosed : Closed p s lane audit release outcome) (ho : owner ctx = .ok o)
    (hl : lock conf input.host o none = .ok l) :
    (∃ x, audit.trace = [⟨.logAudit input.host p.event outcome, x⟩]) ∧
      ∃ x, release.trace = [⟨.redisRelease (hostKey input.host) o, x⟩] := by
  obtain ⟨_, hsuccess, hfailure, hrelease, hreleaseError⟩ := closing_program p conf ctx input
  have hmem : audit ∈ s.history ∧ release ∈ s.history := by
    rw [hclosed.history]
    simp
  have haudit := h.going.history audit hmem.1
  have hrel := h.going.history release hmem.2
  rcases hclosed.ends with ⟨ha, hr, rfl, _⟩ | ⟨ha, hr, rfl, _⟩
  · rw [ha, hsuccess] at haudit
    rw [hr, hrelease] at hrel
    exact ⟨audit_trace haudit, release_trace ho hl hrel⟩
  · rw [ha, hfailure] at haudit
    rw [hr, hreleaseError] at hrel
    exact ⟨audit_trace haudit, release_trace ho hl hrel⟩

/-- **How an execution closes.** Whatever the services answer and whichever task fails, an execution
that has got the lock of its host ends with one audit event, which says `success` exactly if every
task before it ended with success, and then asks once for the release of the lock. No call before
releases the lock, and an audit before is one of a success that was not logged. -/
theorem ended_closing (h : Reach p.workflow (program p.workflow conf ctx input) env w₀ s)
    (hend : s.ended) (hlock : GotLock s) :
    ∃ lane audit release outcome, Closed p s lane audit release outcome ∧
      (∃ x, audit.trace = [⟨.logAudit input.host p.event outcome, x⟩]) ∧
      (∃ o x, owner ctx = .ok o ∧ release.trace = [⟨.redisRelease (hostKey input.host) o, x⟩]) ∧
      ∀ r ∈ lane, ∀ ev ∈ r.trace, ∀ (key o : String) (x : Except Exn Nat),
        ev ≠ ⟨.redisRelease key o, x⟩ := by
  obtain ⟨lane, audit, release, outcome, hclosed⟩ := closed_of_ended h hend hlock
  obtain ⟨o, l, ho, hl⟩ := gotLock_built h hlock
  obtain ⟨haudit, x, hrelease⟩ := closed_traces h hclosed ho hl
  refine ⟨lane, audit, release, outcome, hclosed, haudit, ⟨o, x, ho, hrelease⟩, ?_⟩
  intro r hr ev hev key o' x' hsame
  have hmem : r ∈ s.history := hclosed.history ▸ List.mem_append_left _ hr
  have htouch := ((h.going.history r hmem).within (program_uses p conf ctx input r.task)).2 ev hev
  rw [hsame] at htouch
  have haction : p.action r.task = .releaseHostLock := htouch
  obtain ⟨hother, _⟩ := hclosed.first r hr (by rw [haction]; rfl)
  rw [haction] at hother
  cases hother

/-- A power-off while Nova is down. -/
theorem ended_closing_down :
    ∃ lane audit release outcome, Closed .powerOff downRun lane audit release outcome ∧
      (∃ x, audit.trace = [⟨.logAudit "compute-01" "planned_power_off" outcome, x⟩]) ∧
      (∃ o x, owner ⟨"run-1", none⟩ = .ok o ∧
        release.trace = [⟨.redisRelease (hostKey "compute-01") o, x⟩]) ∧
      ∀ r ∈ lane, ∀ ev ∈ r.trace, ∀ (key o : String) (x : Except Exn Nat),
        ev ≠ ⟨.redisRelease key o, x⟩ :=
  ended_closing downRun_reach downRun_error.1 downRun_acquired

end End

end Workbook
end KollaPowerOps
