import KollaPowerOps.Workbook.Cloud

/-!
# Workbook.FailSafe

The state in which a run that ends in error leaves the host, on a cloud that nobody else writes
to. Such a run ends in one of two ways: its closing `release_lock` fails, with the state its tasks
have brought about, or it has run the clean-up lane, and `fail_safe_host` decides.

`fail_safe_iff` says exactly which of these runs leave Nova disabled and Masakari on maintenance
as far as each of them works.
-/

namespace KollaPowerOps
namespace Workbook

open Effect TaskGraph Actions

/-! ## The fail-safe operation -/

section Operation

variable {w w' : Cloud} {host : String} {tr : Trace}

theorem setNovaService_only_nova (host : String) (enabled : Bool) (reason : String) :
    (setNovaService host enabled reason).Uses fun op => isMasakari op = false := by
  have hfind : (novaService host).Uses fun op => isMasakari op = false :=
    ⟨rfl, fun _ => exactlyOne_within.mono (fun _ h => h) fun _ _ => trivial⟩
  refine Prog.Uses.bind hfind fun service => Prog.Uses.bind ?_ fun _ => trivial
  unfold novaUpdate
  split
  · split
    · exact ⟨rfl, fun _ => trivial⟩
    · trivial
  · split
    · exact ⟨rfl, fun _ => trivial⟩
    · trivial

theorem masakariMatches_only (host : String) (segments : List Segment) :
    (masakariMatches host segments).Uses fun op => isNova op = false := by
  induction segments with
  | nil => trivial
  | cons segment segments ih =>
    refine ⟨rfl, fun items => ?_⟩
    exact Prog.Uses.bind (p := masakariMatches host segments) ih fun _ => trivial

theorem setMasakariMaintenance_only_masakari (host : String) (on : Bool) :
    (setMasakariMaintenance host on).Uses fun op => isNova op = false := by
  have hfind : (masakariHost host).Uses fun op => isNova op = false := by
    refine ⟨rfl, fun segments => ?_⟩
    exact Prog.Uses.bind (p := masakariMatches host segments) (masakariMatches_only host segments)
      fun _ => exactlyOne_within.mono (fun _ h => h) fun _ _ => trivial
  refine Prog.Uses.bind hfind fun x => Prog.Uses.bind ?_ fun _ => trivial
  unfold masakariUpdate
  split
  · exact ⟨rfl, fun _ => trivial⟩
  · trivial

theorem not_raised_of_uses {q : ∀ {τ : Type}, Call τ → Bool} {α : Type} {p p' : Op α}
    (hp : p.Uses fun op => q op = false) (h : Steps p tr p') : ¬ Raised q tr := by
  rintro ⟨ev, hev, hq, _⟩
  have hno : q ev.op = false := (h.within hp).2 ev hev
  exact Bool.false_ne_true (hno.symm.trans hq)

theorem not_raised_append {q : ∀ {τ : Type}, Call τ → Bool} {tr₁ tr₂ : Trace}
    (h₁ : ¬ Raised q tr₁) (h₂ : ¬ Raised q tr₂) : ¬ Raised q (tr₁ ++ tr₂) := by
  rintro ⟨ev, hev, hq⟩
  rcases List.mem_append.mp hev with hev | hev
  · exact h₁ ⟨ev, hev, hq⟩
  · exact h₂ ⟨ev, hev, hq⟩

/-- No event of a trace changes whether the mappings of a host name are unique. -/
theorem mappings_drives (h : Drives CloudStep w tr w') (host : String) :
    (w'.novaOf host).length = (w.novaOf host).length ∧
      (w'.masakariOf host).length = (w.masakariOf host).length := by
  refine h.keeps (I := fun u => (u.novaOf host).length = (w.novaOf host).length ∧
    (u.masakariOf host).length = (w.masakariOf host).length) ?_ ⟨rfl, rfl⟩
  rintro ev _ u u' hev ⟨hn, hm⟩
  cases hev with
  | answered _ => exact ⟨(novaOf_length u _ host).trans hn, (masakariOf_length u _ host).trans hm⟩
  | raised heff =>
    rcases heff with rfl | rfl
    · exact ⟨hn, hm⟩
    · exact ⟨(novaOf_length u _ host).trans hn, (masakariOf_length u _ host).trans hm⟩

/-- The Nova mapping of the host is not unique, or a call of Nova raised. -/
def NovaFails (host : String) (w : Cloud) (tr : Trace) : Prop :=
  Raised isNova tr ∨ (w.novaOf host).length ≠ 1

def MasakariFails (host : String) (w : Cloud) (tr : Trace) : Prop :=
  Raised isMasakari tr ∨ (w.masakariOf host).length ≠ 1

/-- What `fail_safe_host` does: its Masakari part runs only if Nova did not fail. -/
theorem failSafeHost_cloud {r : Except Exn FailSafe} (h : Finishes (failSafeHost host) tr r)
    (hd : Drives CloudStep w tr w') :
    (¬ NovaFails host w tr ∧ w'.Disabled host ∧ (MasakariFails host w tr ∨ w'.Maintained host)) ∨
      (NovaFails host w tr ∧ ¬ Raised isMasakari tr ∧
        w'.segments = w.segments ∧ w'.hosts = w.hosts) := by
  simp only [failSafeHost, Prog.bind_def] at h
  obtain ⟨a, tr₁, tr₂, rfl, hnova, hk⟩ | ⟨e, hnova, rfl⟩ := finishes_bind.mp h
  · obtain ⟨w₁, hd₁, hd₂⟩ := hd.append_inv
    obtain ⟨hframe, ⟨_, s, hone, hs⟩ | ⟨⟨e, he⟩, _⟩⟩ := setNovaService_cloud hnova hd₁
    swap
    · cases he
    have hdisabled : w₁.Disabled host := by
      intro service hservice
      rw [hone] at hservice
      rw [List.mem_singleton.mp hservice]
      exact hs
    have hunique : (w.novaOf host).length = 1 := by
      rw [← (mappings_drives hd₁ host).1, hone]; rfl
    have hmasakari : ∀ r', Finishes (setMasakariMaintenance host true) tr₂ r' →
        ¬ NovaFails host w (tr₁ ++ tr₂) ∧ w'.Disabled host ∧
          (MasakariFails host w (tr₁ ++ tr₂) ∨ w'.Maintained host) := by
      intro r' hp
      obtain ⟨hservices, hset⟩ := setMasakariMaintenance_cloud hp hd₂
      have hquiet : ¬ Raised isNova (tr₁ ++ tr₂) :=
        not_raised_append (not_raised_of_returns hnova)
          (not_raised_of_uses (setMasakariMaintenance_only_masakari host true) hp)
      refine ⟨fun hfails => hfails.elim hquiet fun hne => hne hunique, ?_, ?_⟩
      · unfold Cloud.Disabled Cloud.novaOf
        rw [hservices]
        exact hdisabled
      · rcases hset with ⟨_, hon⟩ | ⟨_, ⟨ev, hev, hq⟩ | hmany⟩
        · exact .inr hon
        · exact .inl (.inl ⟨ev, List.mem_append_right _ hev, hq⟩)
        · rw [(mappings_drives hd₁ host).2] at hmany
          exact .inl (.inr hmany)
    obtain ⟨_, tr₃, tr₄, rfl, hset, hend⟩ | ⟨e, hset, rfl⟩ := finishes_bind.mp hk
    · obtain ⟨rfl, _⟩ := finishes_done.mp hend
      rw [List.append_nil] at hmasakari hd₂ ⊢
      exact .inl (hmasakari _ hset)
    · exact .inl (hmasakari _ hset)
  · obtain ⟨hframe, ⟨⟨a, ha⟩, _⟩ | ⟨_, hbad⟩⟩ := setNovaService_cloud hnova hd
    · cases ha
    · exact .inr ⟨hbad, not_raised_of_uses (setNovaService_only_nova host _ _) hnova, hframe⟩

end Operation

/-! ## Records of a run -/

section Run

variable {p : Planned} {conf : Options} {ctx : ActionContext} {input : Input}

theorem returns_action {t : TaskName} {tr : Trace} {r : Result}
    (h : Returns (program p.workflow conf ctx input t) tr r) :
    Returns ((p.action t).run conf ctx input) tr r := by
  rcases program_eq p conf ctx input t with hp | hp
  · rwa [hp] at h
  · rw [hp] at h; exact absurd h returns_raise

/-- A property of the cloud that every call of a task keeps. -/
theorem record_keeps {I : Cloud → Prop} {r : Record TaskName Call Exn Result Cloud}
    (hr : r.Ran (program p.workflow conf ctx input) CloudStep r.before)
    (hI : ∀ (w : Cloud) {τ : Type} (op : Call τ), Touches input.host (p.action r.task) op →
      I w → I (w.effect op)) : I r.before → I r.after := by
  have hcalls := (hr.steps.within (program_uses p conf ctx input r.task)).2
  refine hr.drives.keeps fun ev hev u u' hstep hu => ?_
  cases hstep with
  | answered _ => exact hI u _ (hcalls _ hev) hu
  | raised heff =>
    rcases heff with rfl | rfl
    · exact hu
    · exact hI u _ (hcalls _ hev) hu

/-- A list of records whose tasks are known, taken apart at one of them. -/
theorem records_split {h : List (Record TaskName Call Exn Result Cloud)} {t : TaskName}
    {before after : List TaskName} (ht : h.map (·.task) = before ++ t :: after) :
    ∃ h₁ r h₂, h = h₁ ++ r :: h₂ ∧ r.task = t ∧ h₂.map (·.task) = after := by
  obtain ⟨h₁, h', rfl, _, h'_eq⟩ := List.map_eq_append_iff.mp ht
  obtain ⟨r, h₂, rfl, hr, h₂_eq⟩ := List.map_eq_cons_iff.mp h'_eq
  exact ⟨h₁, r, h₂, rfl, hr, h₂_eq⟩

/-- What one task of the success lane brings about and the later tasks keep. -/
theorem lane_establishes {I : Cloud → Prop} {w₀ w : Cloud} {t : TaskName}
    {before after : List TaskName} {good later : List (Record TaskName Call Exn Result Cloud)}
    (hc : Chain (program p.workflow conf ctx input) CloudStep w₀ (good ++ later) w)
    (htasks : good.map (·.task) = before ++ t :: after) (hok : ∀ r ∈ good, r.ok = true)
    (hmake : ∀ (u u' : Cloud) (tr : Trace) (r : Result),
      Returns ((p.action t).run conf ctx input) tr r → Drives CloudStep u tr u' → I u')
    (hkeep : ∀ t' ∈ after ++ later.map (·.task), ∀ (u : Cloud) {τ : Type} (op : Call τ),
      Touches input.host (p.action t') op → I u → I (u.effect op)) : I w := by
  obtain ⟨h₁, r, h₂, rfl, rfl, rfl⟩ := records_split htasks
  rw [List.append_assoc, List.cons_append] at hc
  refine hc.establishes (fun hr => ?_) fun r' hr' hran => record_keeps hran (hkeep r'.task ?_)
  · have hrok := hok r (by simp)
    cases hres : r.result with
    | error e => rw [Record.ok, hres] at hrok; cases hrok
    | ok a =>
      have hsteps := hr.steps
      rw [hres] at hsteps
      exact hmake r.before r.after r.trace a (returns_action hsteps) hr.drives
  · rw [← List.map_append]
    exact List.mem_map_of_mem hr'

/-! ## Runs that end in their closing release -/

theorem touches_clears {host : String} {a : Action} {τ : Type} {op : Call τ}
    (h : Touches host a op) (ha : a ≠ .setMasakariMaintenance false) : clears op = false := by
  cases op with
  | updateHost item segment on =>
    obtain ⟨_, rfl | ⟨_, rfl⟩⟩ := h
    · cases on with
      | true => rfl
      | false => exact absurd rfl ha
    · rfl
  | _ => rfl

theorem touches_enables {host : String} {a : Action} {τ : Type} {op : Call τ}
    (h : Touches host a op) (ha : a ≠ .setNovaService true) : enables op = false := by
  cases op with
  | enableService service => exact absurd h.2 ha
  | _ => rfl

theorem touches_disables {host : String} {a : Action} {τ : Type} {op : Call τ}
    (h : Touches host a op) (ha : a ≠ .setNovaService false) (ha' : a ≠ .failSafeHost) :
    disables op = false := by
  cases op with
  | disableService service reason => exact absurd h.2 (by simp [ha, ha'])
  | _ => rfl

theorem spine_before_release {i : Nat} (h : p.spine[i]? = some .releaseLock) :
    p.spine.take i = p.spine.dropLast := by
  obtain ⟨hi, hget⟩ := List.getElem?_eq_some_iff.mp h
  clear h
  revert i
  cases p <;> decide

theorem spine_before_acquire {i : Nat} (h : p.spine[i]? = some .acquireLock) :
    p.spine.take i = [] := by
  obtain ⟨hi, hget⟩ := List.getElem?_eq_some_iff.mp h
  clear h
  revert i
  cases p <;> decide

/-- The tasks of the success lane that fail the execution by themselves. -/
theorem ends_there {t : TaskName} (ht : t ∈ p.spine) :
    (p.workflow.successors t false = [] → t = .releaseLock) ∧
      (p.workflow.successors t false = [.fail] → t = .acquireLock) := by
  revert t
  cases p <;> decide

/-- The Nova service of the host is there and enabled. -/
def Enabled (host : String) (w : Cloud) : Prop :=
  ∃ s, w.novaOf host = [s] ∧ s.status = some (statusOf true)

/-- After a power-off whose closing release failed, the host is disabled and on maintenance. -/
theorem powerOff_closing {w₀ w : Cloud} {good : List (Record TaskName Call Exn Result Cloud)}
    {bad : Record TaskName Call Exn Result Cloud}
    (hc : Chain (program plannedPowerOff conf ctx input) CloudStep w₀ (good ++ [bad]) w)
    (htasks : good.map (·.task) = Planned.powerOff.spine.dropLast)
    (hbad : bad.task = .releaseLock) (hok : ∀ r ∈ good, r.ok = true) :
    w.Disabled input.host ∧ w.Maintained input.host := by
  constructor
  · refine lane_establishes (p := .powerOff) (t := .novaDisable) hc
      (htasks.trans (show _ = [.acquireLock, .resolve, .maintenanceOn] ++ _ :: _ from rfl)) hok ?_ ?_
    · intro u u' tr r h hd
      obtain ⟨a, ha⟩ := wrapped_returns h
      obtain ⟨_, ⟨_, s, hone, hs⟩ | ⟨⟨e, he⟩, _⟩⟩ := setNovaService_cloud ha hd
      · intro service hservice
        rw [hone] at hservice
        rw [List.mem_singleton.mp hservice]
        exact hs
      · cases he
    · intro t' ht' u τ op htouch hu
      have hact : Planned.powerOff.action t' ≠ .setNovaService true := by
        clear htouch hu
        revert t'
        simp only [List.map_cons, hbad, List.map_nil]
        decide
      exact disabled_effect (touches_enables htouch hact) hu
  · refine lane_establishes (p := .powerOff) (t := .maintenanceOn) hc
      (htasks.trans (show _ = [.acquireLock, .resolve] ++ _ :: _ from rfl)) hok ?_ ?_
    · intro u u' tr r h hd
      obtain ⟨a, ha⟩ := wrapped_returns h
      obtain ⟨_, ⟨_, hon⟩ | ⟨⟨e, he⟩, _⟩⟩ := setMasakariMaintenance_cloud ha hd
      · exact hon
      · cases he
    · intro t' ht' u τ op htouch hu
      have hact : Planned.powerOff.action t' ≠ .setMasakariMaintenance false := by
        clear htouch hu
        revert t'
        simp only [List.map_cons, hbad, List.map_nil]
        decide
      exact maintained_effect (touches_clears htouch hact) hu

/-- After a return to service whose closing release failed, Nova is enabled. -/
theorem return_closing (hp : p ≠ .powerOff) {w₀ w : Cloud}
    {good : List (Record TaskName Call Exn Result Cloud)}
    {bad : Record TaskName Call Exn Result Cloud}
    (hc : Chain (program p.workflow conf ctx input) CloudStep w₀ (good ++ [bad]) w)
    (htasks : good.map (·.task) = p.spine.dropLast)
    (hbad : bad.task = .releaseLock) (hok : ∀ r ∈ good, r.ok = true) :
    Enabled input.host w := by
  obtain ⟨before, hsplit⟩ : ∃ before,
      p.spine.dropLast = before ++ .novaEnable :: [.maintenanceOff, .auditSuccess] := by
    cases p with
    | powerOff => exact absurd rfl hp
    | reboot => exact ⟨offLane ++ [.requestOn, .waitOn, .waitNova, .verifyHostReturn], rfl⟩
    | powerOn =>
      exact ⟨[.acquireLock, .resolve, .requestOn, .waitOn, .waitNova, .verifyHostReturn], rfl⟩
  refine lane_establishes hc (htasks.trans hsplit) hok ?_ ?_
  · intro u u' tr r h hd
    obtain ⟨a, ha⟩ := wrapped_returns h
    obtain ⟨_, ⟨_, hon⟩ | ⟨⟨e, he⟩, _⟩⟩ := setNovaService_cloud ha hd
    · exact hon
    · cases he
  · intro t' ht' u τ op htouch hu
    have hact : p.action t' ≠ .setNovaService true ∧ p.action t' ≠ .setNovaService false ∧
        p.action t' ≠ .failSafeHost := by
      clear htouch hu
      revert t'
      simp only [List.map_cons, hbad, List.map_nil]
      cases p <;> decide
    obtain ⟨hen, hdis, hfail⟩ := hact
    have hservices : (u.effect op).services = u.services :=
      services_effect (touches_enables htouch hen) (touches_disables htouch hdis hfail)
    unfold Enabled Cloud.novaOf
    rw [hservices]
    exact hu

/-! ## The state at the end of a run in error -/

variable {w₀ : Cloud} {s : Run TaskName Call Exn Result Cloud}

/-- The execution has got the lock of the host. -/
def Acquired (s : Run TaskName Call Exn Result Cloud) : Prop :=
  ∃ r ∈ s.history, r.task = .acquireLock ∧ r.ok = true

/-- The mapping of Nova is unique, and no call of Nova in the fail-safe raised. -/
def NovaWorks (host : String) (s : Run TaskName Call Exn Result Cloud) : Prop :=
  (s.world.novaOf host).length = 1 ∧
    ∀ r ∈ s.history, r.task = .failSafeHost → ¬ Raised isNova r.trace

def MasakariWorks (host : String) (s : Run TaskName Call Exn Result Cloud) : Prop :=
  (s.world.masakariOf host).length = 1 ∧
    ∀ r ∈ s.history, r.task = .failSafeHost → ¬ Raised isMasakari r.trace

/-- Nova is disabled if it works, and the host is on maintenance if Masakari works. -/
def FailSafePost (host : String) (s : Run TaskName Call Exn Result Cloud) : Prop :=
  (NovaWorks host s → s.world.Disabled host) ∧ (MasakariWorks host s → s.world.Maintained host)

/-- The run was not a return to service whose closing release failed; and if Nova failed in its
fail-safe while the host has one Masakari host, that one was on maintenance before. -/
def FailedSafely (p : Planned) (host : String) (s : Run TaskName Call Exn Result Cloud) : Prop :=
  (p ≠ .powerOff → ∀ r ∈ s.history, r.task = .releaseLock → r.ok = true) ∧
    ∀ r ∈ s.history, r.task = .failSafeHost → NovaFails host r.before r.trace →
      (r.before.masakariOf host).length = 1 → r.before.Maintained host

/-- The two ways in which a run in error with the lock ends. -/
inductive Ended (p : Planned) (conf : Options) (ctx : ActionContext) (input : Input) (w₀ : Cloud)
    (s : Run TaskName Call Exn Result Cloud) : Prop where
  | closing (good : List (Record TaskName Call Exn Result Cloud))
      (bad : Record TaskName Call Exn Result Cloud) :
      s.history = good ++ [bad] → good.map (·.task) = p.spine.dropLast →
      bad.task = .releaseLock → bad.ok = false → (∀ r ∈ good, r.ok = true) →
      Chain (program p.workflow conf ctx input) CloudStep w₀ s.history s.world →
      Ended p conf ctx input w₀ s
  | cleaned (lane : List (Record TaskName Call Exn Result Cloud))
      (f a l : Record TaskName Call Exn Result Cloud) :
      s.history = lane ++ [f, a, l] → (∀ r ∈ lane, r.task ∈ p.spine) →
      (∀ r ∈ lane, r.task = .releaseLock → r.ok = true) →
      f.task = .failSafeHost → a.task = .auditFailure → l.task = .releaseLockError →
      Chain (program p.workflow conf ctx input) CloudStep w₀ s.history s.world →
      Ended p conf ctx input w₀ s

theorem ended_of_error
    (h : Reach p.workflow (program p.workflow conf ctx input) CloudStep w₀ s)
    (herr : s.error p.workflow) (hlock : Acquired s) : Ended p conf ctx input w₀ s := by
  obtain ⟨hended, herr⟩ := herr
  cases p.lanes.reach_shape h with
  | forward i a hi ha => rw [Run.ended, ha] at hended; cases hended
  | cleanup i j good later bad a hj ha => rw [Run.ended, ha] at hended; cases hended
  | done hact hf hpass hc =>
    rcases herr with hfailed | ⟨r, hr, hbad, _⟩
    · rw [hf] at hfailed; cases hfailed
    · rw [hpass.ok r hr] at hbad; cases hbad
  | stuck i good bad hact hh hb hsucc hc =>
    have hmem : bad.task ∈ p.spine := List.mem_of_getElem? hb.task
    have hbtask := hb.task
    rcases hsucc with ⟨_, hsucc⟩ | ⟨_, hsucc⟩
    · -- the lock was not acquired
      have hacq := (ends_there hmem).2 hsucc
      rw [hacq] at hbtask
      have hgood : good = [] := by
        have := hb.passed.tasks
        rw [show p.lanes.spine.take i = [] from spine_before_acquire hbtask] at this
        exact List.map_eq_nil_iff.mp this
      obtain ⟨r, hr, _, hrok⟩ := hlock
      rw [hh, hgood, List.nil_append, List.mem_singleton] at hr
      rw [hr, hb.error] at hrok
      cases hrok
    · have hrel := (ends_there hmem).1 hsucc
      rw [hrel] at hbtask
      exact .closing good bad hh (hb.passed.tasks.trans (spine_before_release hbtask)) hrel hb.error
        hb.passed.ok hc
  | cleaned i good later bad hact hf hh hb hsucc hl hc =>
    obtain ⟨f, later, rfl, hf', hl⟩ := List.map_eq_cons_iff.mp hl
    obtain ⟨a, later, rfl, ha, hl⟩ := List.map_eq_cons_iff.mp hl
    obtain ⟨l, later, rfl, hl', hl⟩ := List.map_eq_cons_iff.mp hl
    rw [List.map_eq_nil_iff.mp hl] at hh
    refine .cleaned (good ++ [bad]) f a l (by rw [hh]; simp) ?_ ?_ hf' ha hl' hc
    · intro r hr
      rcases List.mem_append.mp hr with hr | hr
      · have : r.task ∈ p.spine.take i := by
          rw [← show good.map (·.task) = p.spine.take i from hb.passed.tasks]
          exact List.mem_map_of_mem hr
        exact List.mem_of_mem_take this
      · rw [List.mem_singleton.mp hr]; exact List.mem_of_getElem? hb.task
    · intro r hr hrel
      rcases List.mem_append.mp hr with hr | hr
      · exact hb.passed.ok r hr
      · rw [List.mem_singleton.mp hr] at hrel
        rw [hrel] at hsucc
        have hnone : p.workflow.successors .releaseLock false = [] := by cases p <;> decide
        rw [hnone] at hsucc
        cases hsucc

/-- The audit and the release of the lock leave the cloud as it is. -/
theorem touches_idle {host : String} {a : Action} (w : Cloud) {τ : Type} {op : Call τ}
    (h : Touches host a op) (ha : a = .releaseHostLock ∨ ∃ event outcome, a = .auditEvent event outcome) :
    w.effect op = w := by
  rcases ha with rfl | ⟨event, outcome, rfl⟩
  · cases op <;> first | rfl | simp [Touches] at h
  · cases op <;> first | rfl | simp [Touches] at h

/-- A run that has cleaned up is left as its fail-safe left it. -/
theorem cleaned_world {w : Cloud} {lane : List (Record TaskName Call Exn Result Cloud)}
    {f a l : Record TaskName Call Exn Result Cloud} (ha : a.task = .auditFailure)
    (hl : l.task = .releaseLockError)
    (hc : Chain (program p.workflow conf ctx input) CloudStep w₀ (lane ++ [f, a, l]) w) :
    f.Ran (program p.workflow conf ctx input) CloudStep f.before ∧ w = f.after := by
  refine ⟨hc.ran f (by simp), ?_⟩
  refine hc.establishes (I := fun u => u = f.after) (fun _ => rfl) fun r hr hran => ?_
  refine record_keeps (I := fun u => u = f.after) hran fun u τ op htouch hu => ?_
  rw [touches_idle u htouch ?_, hu]
  rcases List.mem_cons.mp hr with rfl | hr
  · rw [ha]; exact .inr ⟨_, _, rfl⟩
  · rw [List.mem_singleton.mp hr, hl]; exact .inl rfl

/-- What the fail-safe task of a run does to the cloud. -/
theorem failSafe_record {f : Record TaskName Call Exn Result Cloud} (hf : f.task = .failSafeHost)
    (hran : f.Ran (program p.workflow conf ctx input) CloudStep f.before) :
    (¬ NovaFails input.host f.before f.trace ∧ f.after.Disabled input.host ∧
        (MasakariFails input.host f.before f.trace ∨ f.after.Maintained input.host)) ∨
      (NovaFails input.host f.before f.trace ∧ ¬ Raised isMasakari f.trace ∧
        f.after.segments = f.before.segments ∧ f.after.hosts = f.before.hosts) := by
  have hprog : program p.workflow conf ctx input f.task = failSafeHostAction input.host := by
    rw [hf]; cases p <;> rfl
  have hsteps : Finishes (failSafeHostAction input.host) f.trace f.result := by
    have h := hran.steps
    rw [hprog] at h
    exact h
  obtain ⟨a, tr₁, tr₂, htr, hsafe, hend⟩ | ⟨e, hsafe, _⟩ := finishes_bind.mp hsteps
  · obtain ⟨rfl, _⟩ := finishes_done.mp hend
    rw [List.append_nil] at htr
    subst htr
    exact failSafeHost_cloud hsafe hran.drives
  · exact failSafeHost_cloud hsafe hran.drives

theorem failSafe_not_spine : TaskName.failSafeHost ∉ p.spine := by cases p <;> decide

theorem closing_iff {good : List (Record TaskName Call Exn Result Cloud)}
    {bad : Record TaskName Call Exn Result Cloud} (hh : s.history = good ++ [bad])
    (htasks : good.map (·.task) = p.spine.dropLast) (hbad : bad.task = .releaseLock)
    (herr : bad.ok = false) (hok : ∀ r ∈ good, r.ok = true)
    (hc : Chain (program p.workflow conf ctx input) CloudStep w₀ s.history s.world) :
    FailSafePost input.host s ↔ FailedSafely p input.host s := by
  have hmem : bad ∈ s.history := by rw [hh]; simp
  have hnofail : ∀ r ∈ s.history, r.task ≠ .failSafeHost := by
    intro r hr hrt
    rw [hh] at hr
    rcases List.mem_append.mp hr with hr | hr
    · have : r.task ∈ p.spine.dropLast := by rw [← htasks]; exact List.mem_map_of_mem hr
      rw [hrt] at this
      exact failSafe_not_spine (List.dropLast_subset _ this)
    · rw [List.mem_singleton.mp hr, hbad] at hrt; cases hrt
  rw [hh] at hc
  by_cases hp : p = .powerOff
  · subst hp
    obtain ⟨hdis, hmain⟩ := powerOff_closing hc htasks hbad hok
    exact iff_of_true ⟨fun _ => hdis, fun _ => hmain⟩
      ⟨fun h => absurd rfl h, fun r hr hrt => absurd hrt (hnofail r hr)⟩
  · obtain ⟨service, hone, hstatus⟩ := return_closing hp hc htasks hbad hok
    refine iff_of_false (fun hpost => ?_) fun hsafe => ?_
    · -- Nova works, and its service is enabled
      have hworks : NovaWorks input.host s :=
        ⟨by rw [hone]; rfl, fun r hr hrt => absurd hrt (hnofail r hr)⟩
      have hdis := hpost.1 hworks service (by rw [hone]; exact List.mem_singleton.mpr rfl)
      rw [hstatus] at hdis
      exact absurd hdis (by decide)
    · have hrel := hsafe.1 hp bad hmem hbad
      rw [herr] at hrel
      cases hrel

theorem cleaned_iff {lane : List (Record TaskName Call Exn Result Cloud)}
    {f a l : Record TaskName Call Exn Result Cloud} (hh : s.history = lane ++ [f, a, l])
    (hlane : ∀ r ∈ lane, r.task ∈ p.spine)
    (hrel : ∀ r ∈ lane, r.task = .releaseLock → r.ok = true)
    (hf : f.task = .failSafeHost) (ha : a.task = .auditFailure) (hl : l.task = .releaseLockError)
    (hc : Chain (program p.workflow conf ctx input) CloudStep w₀ s.history s.world) :
    FailSafePost input.host s ↔ FailedSafely p input.host s := by
  have hcases : ∀ r ∈ s.history, r ∈ lane ∨ r = f ∨ r = a ∨ r = l := by
    intro r hr
    rw [hh] at hr
    simpa using hr
  have hfmem : f ∈ s.history := by rw [hh]; simp
  have honly : ∀ r ∈ s.history, r.task = .failSafeHost → r = f := by
    intro r hr hrt
    rcases hcases r hr with hr | rfl | rfl | rfl
    · have := hlane r hr
      rw [hrt] at this
      exact absurd this failSafe_not_spine
    · rfl
    · rw [ha] at hrt; cases hrt
    · rw [hl] at hrt; cases hrt
  have hreleased : p ≠ .powerOff → ∀ r ∈ s.history, r.task = .releaseLock → r.ok = true := by
    intro _ r hr hrt
    rcases hcases r hr with hr | rfl | rfl | rfl
    · exact hrel r hr hrt
    · rw [hf] at hrt; cases hrt
    · rw [ha] at hrt; cases hrt
    · rw [hl] at hrt; cases hrt
  rw [hh] at hc
  obtain ⟨hran, hworld⟩ := cleaned_world ha hl hc
  have hlen := mappings_drives hran.drives input.host
  rw [← hworld] at hlen
  rcases failSafe_record hf hran with ⟨hnova, hdis, hmas⟩ | ⟨hnova, hquiet, hseg, hhosts⟩
  · rw [← hworld] at hdis hmas
    refine iff_of_true ⟨fun _ => hdis, fun hworks => ?_⟩ ⟨hreleased, fun r hr hrt hfails => ?_⟩
    · rcases hmas with (hraised | hmany) | hmain
      · exact absurd hraised (hworks.2 f hfmem hf)
      · rw [← hlen.2] at hmany; exact absurd hworks.1 hmany
      · exact hmain
    · rw [honly r hr hrt] at hfails; exact absurd hfails hnova
  · -- Nova failed, so Masakari is left as it was before
    have hsame : s.world.Maintained input.host ↔ f.before.Maintained input.host := by
      unfold Cloud.Maintained Cloud.masakariOf
      rw [hworld, hseg, hhosts]
    have hnotworks : ¬ NovaWorks input.host s := by
      rintro ⟨hunique, hnone⟩
      rcases hnova with hraised | hmany
      · exact hnone f hfmem hf hraised
      · rw [← hlen.1] at hmany; exact hmany hunique
    have hworks : MasakariWorks input.host s ↔ (f.before.masakariOf input.host).length = 1 := by
      rw [MasakariWorks, hlen.2]
      refine and_iff_left fun r hr hrt => ?_
      rw [honly r hr hrt]; exact hquiet
    constructor
    · rintro ⟨_, hpost⟩
      refine ⟨hreleased, fun r hr hrt _ hunique => ?_⟩
      rw [honly r hr hrt] at hunique ⊢
      exact hsame.mp (hpost (hworks.mpr hunique))
    · rintro ⟨_, hsafe⟩
      exact ⟨fun h => absurd h hnotworks,
        fun h => hsame.mpr (hsafe f hfmem hf hnova (hworks.mp h))⟩

/-- **The fail-safe postcondition.** Take a run of a planned workflow that has the lock of the host
and ends in error, on a cloud that nobody else writes to. It leaves Nova disabled if Nova works,
and the host on maintenance if Masakari works, exactly when it is not a return to service whose
closing release failed and, if Nova failed in its fail-safe, the host was on maintenance before. -/
theorem fail_safe_iff
    (h : Reach p.workflow (program p.workflow conf ctx input) CloudStep w₀ s)
    (herr : s.error p.workflow) (hlock : Acquired s) :
    FailSafePost input.host s ↔ FailedSafely p input.host s := by
  cases ended_of_error h herr hlock with
  | closing good bad hh htasks hbad hfail hok hc => exact closing_iff hh htasks hbad hfail hok hc
  | cleaned lane f a l hh hlane hrel hf ha hl hc => exact cleaned_iff hh hlane hrel hf ha hl hc

end Run

/-! ## A run while Nova is down -/

/-- One host in service. -/
def inService : Cloud where
  services := [idleService "enabled"]
  segments := [⟨"segment-1"⟩]
  hosts _ := [{ id := "host-1", name := "compute-01" }]

/-- Nova raises on every call; everything else works. -/
def novaDown : Simulator Call Exn Cloud
  | w, _, .services _ => (.error (.raised "Nova is down"), w)
  | w, _, .enableService _ => (.error (.raised "Nova is down"), w)
  | w, _, .disableService _ _ => (.error (.raised "Nova is down"), w)
  | w, _, .segments => (.ok w.segments, w)
  | w, _, .hosts segment => (.ok (w.hosts segment), w)
  | w, _, .updateHost item segment on => (.ok (), w.effect (.updateHost item segment on))
  | w, _, op => ((idleCloud "enabled" () op).1, w)

theorem novaDown_step (w : Cloud) {τ : Type} (op : Call τ) :
    CloudStep w ⟨op, (novaDown w op).1⟩ (novaDown w op).2 := by
  cases op <;> first
    | exact .raised (.inl rfl)
    | exact .answered rfl
    | exact .answered trivial

/-- The power-off of the host, from its start to its end. -/
def downRun : Run TaskName Call Exn Result Cloud :=
  let prog := program plannedPowerOff .declared ⟨"run-1", none⟩ { host := "compute-01" }
  (Run.init plannedPowerOff prog inService).ticks plannedPowerOff prog novaDown 10

theorem downRun_reach :
    Reach Planned.powerOff.workflow (program Planned.powerOff.workflow .declared ⟨"run-1", none⟩
      { host := "compute-01" }) CloudStep inService downRun :=
  Run.ticks_reach novaDown_step 10 _ .init

theorem downRun_error : downRun.error Planned.powerOff.workflow := ⟨rfl, .inl rfl⟩

theorem downRun_acquired : Acquired downRun := ⟨_, List.mem_cons_self, rfl, rfl⟩

theorem fail_safe_iff_down :
    FailSafePost "compute-01" downRun ↔ FailedSafely .powerOff "compute-01" downRun :=
  fail_safe_iff downRun_reach downRun_error downRun_acquired

/-- The lock was acquired, Nova is down, and the fail-safe never gets to Masakari. -/
theorem fail_safe_skips_masakari :
    ¬ ∀ (p : Planned) (conf : Options) (ctx : ActionContext) (input : Input) (w₀ : Cloud)
      (s : Run TaskName Call Exn Result Cloud),
      Reach p.workflow (program p.workflow conf ctx input) CloudStep w₀ s →
        s.error p.workflow → Acquired s → FailSafePost input.host s := by
  intro h
  have hpost := h .powerOff {} ⟨"run-1", none⟩ { host := "compute-01" } inService downRun
    downRun_reach downRun_error downRun_acquired
  have hall : downRun.history.all (fun r => r.trace.all fun ev => !isMasakari ev.op) = true := rfl
  have hnone : ∀ r ∈ downRun.history, ∀ ev ∈ r.trace, isMasakari ev.op = false := by
    simpa using hall
  have hworks : MasakariWorks "compute-01" downRun := by
    refine ⟨rfl, fun r hr _ => ?_⟩
    rintro ⟨ev, hev, hq, _⟩
    exact Bool.false_ne_true ((hnone r hr ev hev).symm.trans hq)
  have hmain := hpost.2 hworks (⟨"segment-1"⟩, { id := "host-1", name := "compute-01" })
    List.mem_cons_self
  exact absurd hmain (by decide)

end Workbook
end KollaPowerOps
