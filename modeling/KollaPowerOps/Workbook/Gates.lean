import KollaPowerOps.Actions.Emptiness
import KollaPowerOps.Workbook.Footprint

/-!
# Workbook.Gates

What has happened in a run before a step that is dangerous. The success lane fixes the order of
the tasks; a task that ended with success shows, by its own calls and their answers, that its gate
was passed (`Shown`, `program_shows`). A call can only come from the one task that is meant for it
(`program_uses`), so a power-off request has every gate of the power-off lane before it
(`power_off_gated`), and a return to service every gate of the return lane (`return_gated`).
-/

namespace KollaPowerOps
namespace Workbook

open Effect TaskGraph Actions

/-! ## Evidence of a gate -/

/-- The Nova service of the host was found enabled or disabled as wanted, or made so. -/
def ServiceSet (host : String) (enabled : Bool) (tr : Trace) : Prop :=
  ∃ service found, Returns (novaService host) found service ∧
    (tr = found ∧ service.status = some (if enabled then "enabled" else "disabled") ∨
      (enabled = true ∧ tr = found ++ [⟨.enableService service, .ok ()⟩]) ∨
      (enabled = false ∧ ∃ reason, tr = found ++ [⟨.disableService service reason, .ok ()⟩]))

/-- The maintenance flag of the host in Masakari was found as wanted, or made so. -/
def MaintenanceSet (host : String) (on : Bool) (tr : Trace) : Prop :=
  ∃ segment item found, Returns (masakariHost host) found (segment, item) ∧
    (tr = found ∧ item.maintained = on ∨
      tr = found ++ [⟨.updateHost item segment on, .ok ()⟩])

/-- The read of the servers shows none on the host, or, under the policy `stop`, only `SHUTOFF`
ones. -/
def SafeToPowerOff (host policy : String) (tr : Trace) : Prop :=
  ∃ servers, tr = [⟨.servers host, .ok servers⟩] ∧
    ∀ server ∈ servers, serverHost server = some host → policy = "stop" ∧
      server.status = some "SHUTOFF"

/-- The last observations, as many as the options ask for, show the node on. -/
def StablyOn (conf : Options) (tr : Trace) : Prop :=
  let k := conf.stableObservations.toNat
  2 ≤ k ∧ k ≤ (observations tr).length ∧
    ∀ node ∈ (observations tr).drop ((observations tr).length - k),
      node.powerState = some "power on"

/-- The last calls found the Nova service of the host up. -/
def SeenUp (host : String) (tr : Trace) : Prop :=
  ∃ before found service, tr = before ++ found ∧ Returns (novaService host) found service ∧
    service.state = some "up"

/-- What the calls of a task that ended with success show. -/
def Shown (conf : Options) (ctx : ActionContext) (input : Input) : TaskName → Trace → Prop
  | .acquireLock, tr =>
    ∃ l : RedisHostLock, l.host = input.host ∧ owner ctx = .ok l.owner ∧ Returns l.acquire tr true
  | .maintenanceOn, tr => MaintenanceSet input.host true tr
  | .novaDisable, tr => ServiceSet input.host false tr
  | .drainInstances, tr =>
    ∃ d, Returns (drainHost input.host input.instancePolicy conf.drainTimeout conf.pollInterval)
      tr d
  | .refreshLock, tr =>
    ∃ l : RedisHostLock, l.host = input.host ∧ owner ctx = .ok l.owner ∧ Returns l.refresh tr true
  | .assertHostSafe, tr => SafeToPowerOff input.host input.instancePolicy tr
  | .waitOn, tr => StablyOn conf tr
  | .waitNova, tr => SeenUp input.host tr
  | .verifyHostReturn, tr =>
    input.staleDomainsChecked.truthy = true ∧
      ∃ r, Returns (verifyHostReturn [] input.host input.staleDomainsChecked) tr r
  | _, _ => True

theorem lockAction_shows {conf : Options} {ctx : ActionContext} {host : String}
    {ttl : Option Int} {c : LockCall} {tr : Trace} {r : Result}
    (h : Returns (lockAction conf ctx host ttl c) tr r) :
    ∃ l : RedisHostLock, l.host = host ∧ owner ctx = .ok l.owner ∧ Returns (l.method c) tr true := by
  simp only [lockAction, checked, Prog.bind_def, returns_bind] at h
  obtain ⟨o, _, _, rfl, howned, l, _, _, rfl, hlock, ok, tr₁, _, rfl, hcall, hend⟩ := h
  obtain ⟨rfl, ho⟩ := Steps.done_inv howned
  obtain ⟨rfl, hl⟩ := Steps.done_inv hlock
  injection ho with ho
  injection hl with hl
  obtain ⟨hhost, howner⟩ := RedisHostLock.create_ok hl.symm
  split at hend
  · simp at hend
  rename_i hok
  obtain ⟨rfl, _⟩ := returns_ok.mp hend
  have hok : ok = true := by simpa using hok
  subst hok
  exact ⟨l, hhost, by rw [howner, ← ho], by simpa using hcall⟩

theorem setNovaService_shows {host : String} {enabled : Bool} {reason : String} {tr : Trace}
    {r : NovaResult} (h : Returns (setNovaService host enabled reason) tr r) :
    ServiceSet host enabled tr := by
  simp only [setNovaService, Prog.bind_def, returns_bind] at h
  obtain ⟨service, found, tr', rfl, hfound, _, tr₁, tr₂, rfl, hupdate, hend⟩ := h
  obtain ⟨rfl, _⟩ := returns_ok.mp hend
  refine ⟨service, found, hfound, ?_⟩
  rw [List.append_nil]
  unfold novaUpdate at hupdate
  cases enabled with
  | true =>
    simp only [if_true] at hupdate
    split at hupdate
    · obtain ⟨_, _, rfl, hret⟩ := returns_call.mp hupdate
      obtain ⟨rfl, _⟩ := returns_ok.mp hret
      exact .inr (.inl ⟨rfl, rfl⟩)
    · obtain ⟨rfl, _⟩ := returns_ok.mp hupdate
      exact .inl ⟨by simp, by simpa using ‹¬ service.status ≠ some "enabled"›⟩
  | false =>
    simp only [Bool.false_eq_true, if_false] at hupdate
    split at hupdate
    · obtain ⟨_, _, rfl, hret⟩ := returns_call.mp hupdate
      obtain ⟨rfl, _⟩ := returns_ok.mp hret
      exact .inr (.inr ⟨rfl, reason, rfl⟩)
    · obtain ⟨rfl, _⟩ := returns_ok.mp hupdate
      exact .inl ⟨by simp, by simpa using ‹¬ service.status ≠ some "disabled"›⟩

theorem setMasakariMaintenance_shows {host : String} {on : Bool} {tr : Trace}
    {r : MaintenanceResult} (h : Returns (setMasakariMaintenance host on) tr r) :
    MaintenanceSet host on tr := by
  simp only [setMasakariMaintenance, Prog.bind_def, returns_bind] at h
  obtain ⟨⟨segment, item⟩, found, tr', rfl, hfound, _, tr₁, tr₂, rfl, hupdate, hend⟩ := h
  obtain ⟨rfl, _⟩ := returns_ok.mp hend
  refine ⟨segment, item, found, hfound, ?_⟩
  rw [List.append_nil]
  unfold masakariUpdate at hupdate
  split at hupdate
  · obtain ⟨_, _, rfl, hret⟩ := returns_call.mp hupdate
    obtain ⟨rfl, _⟩ := returns_ok.mp hret
    exact .inr rfl
  · obtain ⟨rfl, _⟩ := returns_ok.mp hupdate
    exact .inl ⟨by simp, by simpa using ‹¬ item.maintained ≠ on›⟩

theorem statusText_shutoff {server : Server} (h : server.statusText = "SHUTOFF") :
    server.status = some "SHUTOFF" := by
  unfold Server.statusText at h
  cases hs : server.status with
  | none => rw [hs] at h; exact absurd h (by decide)
  | some status => rw [hs] at h; exact congrArg some h

theorem assertHostEmpty_shows {host policy : String} {tr : Trace} {r : Emptied}
    (h : Returns (assertHostEmpty host (policy = "stop")) tr r) : SafeToPowerOff host policy tr := by
  simp only [assertHostEmpty, serversOnHost, Prog.bind_def, Prog.bind_request, Prog.bind_call,
    Prog.pure_def, Prog.bind_ok, returns_call] at h
  obtain ⟨servers, tr', rfl, h⟩ := h
  split at h
  · simp at h
  rename_i hsafe
  obtain ⟨rfl, _⟩ := returns_ok.mp h
  refine ⟨servers, rfl, fun server hs hon => ?_⟩
  have hmem : server ∈ servers.filter (isOn host) :=
    List.mem_filter.mpr ⟨hs, by simpa [isOn] using hon⟩
  have hne : (servers.filter (isOn host)).isEmpty = false := by
    rw [List.isEmpty_eq_false_iff]; exact List.ne_nil_of_mem hmem
  simp only [hne, Bool.not_false, Bool.true_and, Bool.not_eq_true', Bool.not_eq_false,
    Bool.and_eq_true, decide_eq_true_eq, List.all_eq_true, List.mem_map] at hsafe
  exact ⟨hsafe.1, statusText_shutoff (hsafe.2 _ ⟨server, hmem, rfl⟩)⟩

theorem waitPower_shows {host target : String} {timeout interval k : Int} {tr : Trace}
    {r : PowerResult} (h : Returns (waitPower host target timeout interval k) tr r) :
    k.toNat ≤ (observations tr).length ∧
      ∀ node ∈ (observations tr).drop ((observations tr).length - k.toNat),
        node.powerState = some target := by
  unfold waitPower at h
  split at h
  · simp at h
  simp only [Prog.bind_def, returns_bind] at h
  obtain ⟨node, tr₁, tr', rfl, h₁, n, tr₂, tr₃, rfl, h₂, hpoll⟩ := h
  obtain ⟨hlen, hlast, _⟩ := StablePoll.evidence _ hpoll
  have hobs₁ : observations tr₁ = [] :=
    observations_of_uses (p := ironicNode host)
      ⟨rfl, fun _ => exactlyOne_within.mono (fun _ h => h) fun _ _ => trivial⟩ h₁
  have hobs₂ : observations tr₂ = [] := observations_of_uses (attempts_uses _ _) h₂
  rw [observations_append, observations_append, hobs₁, hobs₂]
  exact ⟨hlen, hlast⟩

theorem pollNova_shows {host : String} {interval : Int} (n : Nat) :
    ∀ (tr : Trace) (r : NovaUp), Returns (pollNova host interval n) tr r → SeenUp host tr := by
  induction n with
  | zero => intro tr r h; simp [pollNova] at h
  | succ n ih =>
    intro tr r h
    simp only [pollNova, Prog.bind_def, returns_bind] at h
    obtain ⟨service, found, tr', rfl, hfound, h⟩ := h
    split at h
    · obtain ⟨rfl, _⟩ := returns_ok.mp h
      exact ⟨[], found, service, by simp, hfound, ‹_›⟩
    · obtain ⟨_, tr₁, tr₂, rfl, _, hrest⟩ := returns_bind.mp h
      obtain ⟨before, found', service', rfl, hfound', hup⟩ := ih tr₂ r hrest
      exact ⟨found ++ tr₁ ++ before, found', service', by simp, hfound', hup⟩

theorem waitNovaService_shows {host : String} {timeout interval : Int} {tr : Trace} {r : NovaUp}
    (h : Returns (waitNovaService host timeout interval) tr r) : SeenUp host tr := by
  simp only [waitNovaService, Prog.bind_def, returns_bind] at h
  obtain ⟨n, tr₁, tr₂, rfl, hatt, hpoll⟩ := h
  obtain ⟨rfl, _⟩ := attempts_returns hatt
  exact pollNova_shows n tr₂ r hpoll

theorem verifyHostReturn_shows {required : List String} {host : String} {stale : Value}
    {tr : Trace} {r : Returned} (h : Returns (verifyHostReturn required host stale) tr r) :
    stale.truthy = true := by
  unfold verifyHostReturn at h
  split at h
  · simp at h
  · simpa using ‹¬ (!stale.truthy) = true›

/-- What an action returns is what its operation returns. -/
theorem wrapped_returns {α : Type} {p : Op α} {f : α → Result} {tr : Trace} {r : Result}
    (h : Returns (p.bind fun a => pure (f a)) tr r) : ∃ a, Returns p tr a := by
  obtain ⟨a, tr₁, tr₂, rfl, ha, hend⟩ := returns_bind.mp h
  obtain ⟨rfl, _⟩ := returns_ok.mp hend
  exact ⟨a, by simpa using ha⟩

/-- A task that ended with success shows that its gate was passed. -/
theorem program_shows {p : Planned} {conf : Options} {ctx : ActionContext} {input : Input}
    {t : TaskName} {tr : Trace} {r : Result}
    (h : Returns (program p.workflow conf ctx input t) tr r) : Shown conf ctx input t tr := by
  rcases program_eq p conf ctx input t with hp | hp
  swap
  · rw [hp] at h; exact absurd h returns_raise
  rw [hp] at h
  cases t with
  | acquireLock => exact lockAction_shows h
  | refreshLock => exact lockAction_shows h
  | maintenanceOn =>
    obtain ⟨_, h⟩ := wrapped_returns h
    exact setMasakariMaintenance_shows h
  | novaDisable =>
    obtain ⟨_, h⟩ := wrapped_returns h
    exact setNovaService_shows h
  | drainInstances => exact wrapped_returns h
  | assertHostSafe =>
    obtain ⟨_, h⟩ := wrapped_returns h
    exact assertHostEmpty_shows h
  | waitOn =>
    obtain ⟨_, h⟩ := wrapped_returns h
    have hk : 2 ≤ conf.stableObservations.toNat := by have := conf.stableObservations_min; omega
    exact ⟨hk, waitPower_shows h⟩
  | waitNova =>
    obtain ⟨_, h⟩ := wrapped_returns h
    exact waitNovaService_shows h
  | verifyHostReturn =>
    obtain ⟨r, h⟩ := wrapped_returns h
    exact ⟨verifyHostReturn_shows h, r, h⟩
  | _ => trivial

/-! ## A run on an idle host -/

def idleNode : Node := { id := "node-1", name := "compute-01", powerState := "power on" }

def idleService (status : String) : NovaService :=
  { id := "service-1", host := "compute-01", binary := "nova-compute", status, state := "up" }

/-- A cloud with one idle host, whose services answer every call. -/
def idleCloud (status : String) : Simulator Call Exn Unit
  | _, _, .nodes => (.ok [idleNode], ())
  | _, _, .getNode _ => (.ok idleNode, ())
  | _, _, .services _ => (.ok [idleService status], ())
  | _, _, .segments => (.ok [⟨"segment-1"⟩], ())
  | _, _, .hosts _ => (.ok [{ id := "host-1", name := "compute-01" }], ())
  | _, _, .servers _ => (.ok [], ())
  | _, _, .agents _ => (.ok [], ())
  | _, _, .redisSet _ _ _ => (.ok true, ())
  | _, _, .redisRefresh _ _ _ => (.ok 1, ())
  | _, _, .redisRelease _ _ => (.ok 1, ())
  | _, _, .logAudit _ _ _ => (.ok "event-1", ())
  | _, _, .sleep _ => (.ok (), ())
  | _, _, .setNodePowerState _ _ => (.ok (), ())
  | _, _, .enableService _ => (.ok (), ())
  | _, _, .disableService _ _ => (.ok (), ())
  | _, _, .liveMigrateServer _ => (.ok (), ())
  | _, _, .stopServer _ => (.ok (), ())
  | _, _, .updateHost _ _ _ => (.ok (), ())

/-- The state of a run on this cloud after some steps. -/
def idleRun (status : String) (p : Planned) (n : Nat) : Run TaskName Call Exn Result Unit :=
  let prog := program p.workflow .declared ⟨"run-1", none⟩
    { host := "compute-01", staleDomainsChecked := .bool true }
  (Run.init p.workflow prog ()).ticks p.workflow prog (idleCloud status) n

theorem idleRun_reach (status : String) (p : Planned) (n : Nat) :
    Reach p.workflow (program p.workflow .declared ⟨"run-1", none⟩
      { host := "compute-01", staleDomainsChecked := .bool true }) (fun _ _ _ => True) ()
      (idleRun status p n) :=
  Run.ticks_reach (fun _ _ _ => trivial) n _ .init

/-! ## Gates before a dangerous call -/

section Run

variable {W : Type} {p : Planned} {conf : Options} {ctx : ActionContext} {input : Input}
  {env : Env Call Exn W} {w₀ : W}

/-- The records of a run, each ended with success and showing its gate. -/
def AllShown (conf : Options) (ctx : ActionContext) (input : Input)
    (h : List (Record TaskName Call Exn Result W)) : Prop :=
  ∀ r ∈ h, r.ok = true ∧ Shown conf ctx input r.task r.trace

/-- A record that ended with success shows its gate. -/
theorem record_shown {h : List (Record TaskName Call Exn Result W)} {w : W}
    (hc : Chain (program p.workflow conf ctx input) env w₀ h w)
    {r : Record TaskName Call Exn Result W} (hr : r ∈ h) (hok : r.ok = true) :
    Shown conf ctx input r.task r.trace := by
  have hsteps := (hc.ran r hr).steps
  cases hres : r.result with
  | error e => rw [Record.ok, hres] at hok; cases hok
  | ok a =>
    rw [hres] at hsteps
    exact program_shows hsteps

theorem forward_allShown {s : Run TaskName Call Exn Result W} {t : TaskName} {i : Nat}
    (h : p.lanes.CallForward (program p.workflow conf ctx input) env w₀ s t i) :
    AllShown conf ctx input s.history := by
  intro r hr
  obtain ⟨w, hchain⟩ := h.chain
  exact ⟨h.passed.ok r hr, record_shown hchain hr (h.passed.ok r hr)⟩

theorem call_touches {s s' : Run TaskName Call Exn Result W} {t : TaskName} {ev : CallEvent}
    (h : Reach p.workflow (program p.workflow conf ctx input) env w₀ s)
    (hs : Step p.workflow (program p.workflow conf ctx input) env s (some (t, ev)) s') :
    Touches input.host (p.action t) ev.op := by
  obtain ⟨⟨tr, q, hsteps⟩, _⟩ := p.lanes.reach_call h hs
  exact (hsteps.within (program_uses p conf ctx input t)).2 ev (by simp)

/-- A task that is not in the clean-up lane is called from the success lane. -/
theorem call_forward {s s' : Run TaskName Call Exn Result W} {t : TaskName} {ev : CallEvent}
    (h : Reach p.workflow (program p.workflow conf ctx input) env w₀ s)
    (hs : Step p.workflow (program p.workflow conf ctx input) env s (some (t, ev)) s')
    (ht : t ∉ cleanupLane) :
    ∃ i, p.lanes.CallForward (program p.workflow conf ctx input) env w₀ s t i := by
  obtain ⟨_, hi | ⟨i, j, hc⟩⟩ := p.lanes.reach_call h hs
  · exact hi
  · exact absurd (List.mem_of_getElem? hc.task) ht

/-- What comes before the power-off request in a success lane. -/
theorem spine_before_off {i : Nat} (h : p.spine[i]? = some .requestOff) :
    p.spine.take i = [.acquireLock, .resolve, .maintenanceOn, .novaDisable, .drainInstances,
      .refreshLock, .assertHostSafe] := by
  obtain ⟨hi, hget⟩ := List.getElem?_eq_some_iff.mp h
  clear h
  revert i
  cases p <;> decide

/-- What comes before the return to service in a success lane. -/
theorem spine_before_return {t : TaskName} (ht : t = .novaEnable ∨ t = .maintenanceOff) {i : Nat}
    (h : p.spine[i]? = some t) :
    [.waitOn, .waitNova, .verifyHostReturn].Sublist (p.spine.take i) := by
  obtain ⟨hi, hget⟩ := List.getElem?_eq_some_iff.mp h
  clear h
  revert i
  rcases ht with rfl | rfl <;> cases p <;> decide

/-- **Power-off safety.** A power-off request in a run of a planned workflow is for a node of the
host, and when it is issued the run has, in this order and nothing else, acquired the lock, resolved
the host, set maintenance, disabled Nova, drained the host, refreshed the lock and asserted that
the host is safe. Each of these tasks ended with success and shows its gate, whatever the
environment does. -/
theorem power_off_gated {s s' : Run TaskName Call Exn Result W} {t : TaskName} {node : Node}
    {target : String} {answer : Except Exn Unit}
    (h : Reach p.workflow (program p.workflow conf ctx input) env w₀ s)
    (hs : Step p.workflow (program p.workflow conf ctx input) env s
      (some (t, ⟨.setNodePowerState node target, answer⟩)) s')
    (htarget : target = "power off" ∨ target = "soft power off") :
    node.name = some input.host ∧
      s.history.map (·.task) = [.acquireLock, .resolve, .maintenanceOn, .novaDisable,
        .drainInstances, .refreshLock, .assertHostSafe] ∧
      AllShown conf ctx input s.history := by
  obtain ⟨hnode, target', soft, haction, rfl⟩ := call_touches h hs
  have ht : t = .requestOff := by
    cases t with
    | requestOff => rfl
    | requestOn =>
      cases haction
      exact absurd htarget (by decide)
    | _ => cases haction
  subst ht
  obtain ⟨i, hi⟩ := call_forward h hs (by decide)
  refine ⟨hnode, ?_, forward_allShown hi⟩
  rw [hi.passed.tasks]
  exact spine_before_off hi.task

theorem power_off_gated_idle :
    idleNode.name = some "compute-01" ∧
      (idleRun "enabled" .powerOff 21).history.map (·.task) = [.acquireLock, .resolve, .maintenanceOn,
        .novaDisable, .drainInstances, .refreshLock, .assertHostSafe] ∧
      AllShown {} ⟨"run-1", none⟩ { host := "compute-01", staleDomainsChecked := .bool true }
        (idleRun "enabled" .powerOff 21).history :=
  have hs : Step _ _ _ _ (some (TaskName.requestOff,
      (⟨.setNodePowerState idleNode "soft power off", .ok ()⟩ : CallEvent))) _ :=
    Run.tick_step (idleCloud "enabled") (fun _ _ _ => trivial) (by decide)
  power_off_gated (idleRun_reach "enabled" .powerOff 21) hs (.inr rfl)

/-- The call enables a Nova service or clears the maintenance of a Masakari host. -/
def Returning {τ : Type} : Call τ → Prop
  | .enableService _ => True
  | .updateHost _ _ on => on = false
  | _ => False

/-- **Return-to-service safety.** A call that enables Nova or clears maintenance in a run of a
planned workflow comes from `nova_enable` or `maintenance_off`, and when it is issued the wait for
power on, the wait for Nova and the verification of the host have ended with success, in this
order; each task of the run so far has, and shows its gate. -/
theorem return_gated {s s' : Run TaskName Call Exn Result W} {t : TaskName} {ev : CallEvent}
    (h : Reach p.workflow (program p.workflow conf ctx input) env w₀ s)
    (hs : Step p.workflow (program p.workflow conf ctx input) env s (some (t, ev)) s')
    (hev : Returning ev.op) :
    (t = .novaEnable ∨ t = .maintenanceOff) ∧
      [.waitOn, .waitNova, .verifyHostReturn].Sublist (s.history.map (·.task)) ∧
      AllShown conf ctx input s.history := by
  have htouch := call_touches h hs
  have ht : t = .novaEnable ∨ t = .maintenanceOff := by
    obtain ⟨op, answer⟩ := ev
    cases op with
    | enableService service =>
      obtain ⟨_, haction⟩ := htouch
      cases t <;> first | exact .inl rfl | cases haction
    | updateHost item segment on =>
      cases hev
      obtain ⟨_, haction | ⟨_, hon⟩⟩ := htouch
      · cases t <;> first | exact .inr rfl | cases haction
      · cases hon
    | _ => exact hev.elim
  obtain ⟨i, hi⟩ := call_forward h hs (by rcases ht with rfl | rfl <;> decide)
  refine ⟨ht, ?_, forward_allShown hi⟩
  rw [hi.passed.tasks]
  exact spine_before_return ht hi.task

theorem return_gated_idle :
    [.waitOn, .waitNova, .verifyHostReturn].Sublist
        ((idleRun "disabled" .powerOn 24).history.map (·.task)) ∧
      AllShown {} ⟨"run-1", none⟩ { host := "compute-01", staleDomainsChecked := .bool true }
        (idleRun "disabled" .powerOn 24).history :=
  have hs : Step _ _ _ _ (some (TaskName.novaEnable,
      (⟨.enableService (idleService "disabled"), .ok ()⟩ : CallEvent))) _ :=
    Run.tick_step (idleCloud "disabled") (fun _ _ _ => trivial) (by decide)
  (return_gated (idleRun_reach "disabled" .powerOn 24) hs trivial).2

end Run

end Workbook
end KollaPowerOps
