import KollaPowerOps.Lib.Path
import KollaPowerOps.Declared.SegmentStore
import KollaPowerOps.Workbook.Interleaving

/-!
# Workbook.Maintenance

The maintenance flag of a Masakari host, which two kinds of programs write: the executions of the
planned workflows, and the runs of `reconcile_segment`, which take no lock.

* `ActionStep`, `RedeployStep` : what a call of either does to Masakari. It may raise, and then it
  may have taken effect or not.
* `SiteStep`  : any number of executions and of redeployments over one Masakari, call by call.
* `Lifts`     : a step that ends the maintenance of a host and may do so.
* `maintenance_lifted` : after a planned workflow has put a host on maintenance, nothing but such a
  step ends it.

A redeployment whose specification declares the host with `on_maintenance: false` is one of these
steps, whatever a workflow is doing (`redeployment_lifts`).
-/

namespace KollaPowerOps

open Effect

namespace Declared

open MasakariSegment

/-- A host of Masakari is known by its segment and its id. -/
structure HostKey where
  segment : Segment
  id : String
  deriving DecidableEq, Repr

namespace Masakari

variable {w w' : Masakari} {key : HostKey} {name name' : String}

/-- There is a host, and this is its name. -/
def Named (w : Masakari) (key : HostKey) (name : String) : Prop :=
  ∃ host ∈ w.hosts key.segment, host.id = key.id ∧ host.name = name

/-- There is a host, and it is on maintenance. -/
def Flagged (w : Masakari) (key : HostKey) : Prop :=
  ∃ host ∈ w.hosts key.segment, host.id = key.id ∧ host.onMaintenance = some true

/-- Hosts stay where they are, with their names. The flag goes only for the hosts of `lost`. -/
structure Moves (w w' : Masakari) (lost : HostKey → Prop) : Prop where
  sound : w'.Sound
  named : ∀ key name, w.Named key name → w'.Named key name
  flagged : ∀ key, w.Flagged key → w'.Flagged key ∨ lost key

theorem Moves.of_hosts {lost : HostKey → Prop} (hw : w'.Sound) (h : w'.hosts = w.hosts) :
    w.Moves w' lost := by
  refine ⟨hw, fun key name hnamed => ?_, fun key hflag => .inl ?_⟩
  · unfold Named
    rw [h]
    exact hnamed
  · unfold Flagged
    rw [h]
    exact hflag

/-- One segment has its hosts replaced by others of the same names. -/
theorem Moves.of_setHosts {lost : HostKey → Prop} {segment : Segment} {hosts : List ManagedHost}
    (f : ManagedHost → ManagedHost) (hsound : (w.setHosts segment hosts).Sound)
    (hmem : ∀ host ∈ w.hosts segment, f host ∈ hosts)
    (hsame : ∀ host ∈ w.hosts segment, (f host).id = host.id ∧ (f host).name = host.name)
    (hflag : ∀ host ∈ w.hosts segment, host.onMaintenance = some true →
      (f host).onMaintenance = some true ∨ lost ⟨segment, host.id⟩) :
    w.Moves (w.setHosts segment hosts) lost := by
  refine ⟨hsound, fun key name hnamed => ?_, fun key hflagged => ?_⟩
  · obtain ⟨host, hhost, hid, hname⟩ := hnamed
    by_cases hseg : key.segment = segment
    · rw [hseg] at hhost
      obtain ⟨hid', hname'⟩ := hsame host hhost
      refine ⟨f host, ?_, hid'.trans hid, hname'.trans hname⟩
      rw [hseg, setHosts_self]
      exact hmem host hhost
    · refine ⟨host, ?_, hid, hname⟩
      rw [setHosts_ne w hosts hseg]
      exact hhost
  · obtain ⟨host, hhost, hid, hon⟩ := hflagged
    by_cases hseg : key.segment = segment
    · rw [hseg] at hhost
      rcases hflag host hhost hon with hstill | hlost
      · refine .inl ⟨f host, ?_, (hsame host hhost).1.trans hid, hstill⟩
        rw [hseg, setHosts_self]
        exact hmem host hhost
      · rw [← hseg, hid] at hlost
        exact .inr hlost
    · refine .inl ⟨host, ?_, hid, hon⟩
      rw [setHosts_ne w hosts hseg]
      exact hhost

/-! ## The calls of the power actions -/

/-- `update_host(item, segment, on_maintenance=on)` on a host of the segment. -/
def setFlag (id : String) (on : Bool) (host : ManagedHost) : ManagedHost :=
  if host.id = id then { host with onMaintenance := some on } else host

theorem setFlag_id (id : String) (on : Bool) (host : ManagedHost) :
    (setFlag id on host).id = host.id := by
  unfold setFlag
  split <;> rfl

theorem setFlag_name (id : String) (on : Bool) (host : ManagedHost) :
    (setFlag id on host).name = host.name := by
  unfold setFlag
  split <;> rfl

/-- What a call of a power action changes. -/
def effect (w : Masakari) : {τ : Type} → Call τ → Masakari
  | _, .updateHost item segment on =>
    w.setHosts segment ((w.hosts segment).map (setFlag item.id on))
  | _, _ => w

/-- The answer of a read says what is there. -/
def Tells (w : Masakari) : {τ : Type} → Call τ → τ → Prop
  | _, .segments, answer => answer = w.segmentIds
  | _, .hosts segment, answer => answer = (w.hosts segment).map ManagedHost.view
  | _, _, _ => True

end Masakari

/-- The call takes this host off maintenance. -/
def takesOff (key : HostKey) : {τ : Type} → Call τ → Prop
  | _, .updateHost item segment on => segment = key.segment ∧ item.id = key.id ∧ on = false
  | _, _ => False

/-- The update sets the flag of this host to false. -/
def declaresOff (key : HostKey) : {τ : Type} → InstanceHaCall τ → Prop
  | _, .updateHost host segmentId updates =>
    (⟨segmentId⟩ : Segment) = key.segment ∧ host.id = key.id ∧ updates.onMaintenance = some false
  | _, _ => False

inductive ActionStep : Masakari → CallEvent → Masakari → Prop where
  | answered {w : Masakari} {τ : Type} {op : Call τ} {a : τ} :
      w.Tells op a → ActionStep w ⟨op, .ok a⟩ (w.effect op)
  | raised {w w' : Masakari} {τ : Type} {op : Call τ} {e : Exn} :
      w' = w ∨ w' = w.effect op → ActionStep w ⟨op, .error e⟩ w'

inductive RedeployStep : Masakari → SegmentEvent → Masakari → Prop where
  | answered {w w' : Masakari} {τ : Type} {op : InstanceHaCall τ} {a : τ} :
      w.Keeps op a w' → RedeployStep w ⟨op, .ok a⟩ w'
  | raised {w w' : Masakari} {τ : Type} {op : InstanceHaCall τ} {e : ReconcileExn} :
      w' = w ∨ (∃ a, w.Keeps op a w') → RedeployStep w ⟨op, .error e⟩ w'

section Steps

variable {w w' : Masakari}

theorem effect_moves (hw : w.Sound) {τ : Type} (op : Call τ) :
    w.Moves (w.effect op) fun key => takesOff key op := by
  cases op with
  | updateHost item segment on =>
    have hids : ((w.hosts segment).map (Masakari.setFlag item.id on)).map ManagedHost.id =
        (w.hosts segment).map ManagedHost.id := by
      rw [List.map_map]
      exact List.map_congr_left fun host _ => Masakari.setFlag_id item.id on host
    refine .of_setHosts (Masakari.setFlag item.id on) ?_ (fun host hhost => List.mem_map_of_mem hhost)
      (fun host _ => ⟨Masakari.setFlag_id _ _ host, Masakari.setFlag_name _ _ host⟩) ?_
    · by_cases hmem : segment ∈ w.segmentIds
      · refine hw.setHosts hmem ?_
        rw [hids]
        exact hw.hostIds segment
      · have hnone : w.hosts segment = [] := hw.owned segment hmem
        rw [hnone, List.map_nil, Masakari.setHosts, ← hnone, Function.update_eq_self]
        exact hw
    · intro host _ hon
      unfold Masakari.setFlag
      split
      · rename_i hid
        cases on with
        | true => exact .inl rfl
        | false => exact .inr ⟨rfl, hid.symm, rfl⟩
      · exact .inl hon
  | _ => exact .of_hosts hw rfl

theorem actionStep_moves {ev : CallEvent} (hw : w.Sound) (h : ActionStep w ev w') :
    w.Moves w' fun key => takesOff key ev.op := by
  cases h with
  | answered _ => exact effect_moves hw _
  | raised h =>
    rcases h with rfl | rfl
    · exact .of_hosts hw rfl
    · exact effect_moves hw _

theorem keeps_moves (hw : w.Sound) {τ : Type} {op : InstanceHaCall τ} {a : τ}
    (h : w.Keeps op a w') : w.Moves w' fun key => declaresOff key op := by
  have hw' : w'.Sound := keepStep_sound hw (.answered h)
  cases op with
  | segments =>
    rw [h.2]
    exact .of_hosts hw rfl
  | hosts segment =>
    rw [h.2]
    exact .of_hosts hw rfl
  | createSegment name serviceType recoveryMethod description =>
    obtain ⟨_, hfresh, rfl⟩ := h
    have hnone : w.hosts a.toSegment = [] := hw.owned _ hfresh
    refine .of_hosts hw' ?_
    show Function.update w.hosts a.toSegment [] = w.hosts
    rw [← hnone, Function.update_eq_self]
  | updateSegment segment updates =>
    obtain ⟨stored, _, _, _, rfl⟩ := h
    exact .of_hosts hw' rfl
  | createHost segment attrs =>
    obtain ⟨_, id, _, rfl⟩ := h
    exact .of_setHosts (fun host => host) hw' (fun host hhost => List.mem_append_left _ hhost)
      (fun host _ => ⟨rfl, rfl⟩) fun host _ hon => .inl hon
  | updateHost host segmentId updates =>
    obtain ⟨stored, hstored, hid, rfl⟩ := h
    refine .of_setHosts (fun r => if r.id = stored.id then updates.apply stored else r) hw'
      (fun r hr => List.mem_map_of_mem hr) (fun r hr => ?_) fun r hr hon => ?_
    · split
      · rename_i hsame
        obtain rfl := Table.row_unique (k := ManagedHost.id) (hw.hostIds _) hr hstored hsame
        exact ⟨rfl, rfl⟩
      · exact ⟨rfl, rfl⟩
    · split
      · rename_i hsame
        obtain rfl := Table.row_unique (k := ManagedHost.id) (hw.hostIds _) hr hstored hsame
        cases hupdate : updates.onMaintenance with
        | none => exact .inl (by rw [HostUpdates.apply, hupdate]; exact hon)
        | some on =>
          cases on with
          | true => exact .inl (by rw [HostUpdates.apply, hupdate]; rfl)
          | false => exact .inr ⟨rfl, hid.symm, hupdate⟩
      · exact .inl hon

theorem redeployStep_moves {ev : SegmentEvent} (hw : w.Sound) (h : RedeployStep w ev w') :
    w.Moves w' fun key => declaresOff key ev.op := by
  cases h with
  | answered h => exact keeps_moves hw h
  | raised h =>
    rcases h with rfl | ⟨a, h⟩
    · exact .of_hosts hw rfl
    · exact keeps_moves hw h

end Steps

/-! ## Where an update has its host from -/

namespace MasakariSegment

/-- A call of the loop over the hosts of the specification. -/
def ChangeOf (spec : SegmentSpec) (segment : ManagedSegment) (existing : List ManagedHost)
    (checkMode : Bool) : {τ : Type} → InstanceHaCall τ → Prop
  | _, .updateHost host segmentId updates =>
    checkMode = false ∧ host ∈ existing ∧ segmentId = segment.id ∧
      ∃ desired ∈ spec.hosts, host.name = desired.name ∧ updates = hostUpdates host desired
  | _, .createHost _ _ => True
  | _, _ => False

theorem changeHosts_changes {spec : SegmentSpec} {segment : ManagedSegment}
    {existing : List ManagedHost} {checkMode : Bool} (desired : List DesiredHost)
    (hsub : ∀ d ∈ desired, d ∈ spec.hosts) :
    (changeHosts segment existing checkMode desired).Uses
      (ChangeOf spec segment existing checkMode) := by
  induction desired with
  | nil => trivial
  | cons d desired ih =>
    have hrest := ih fun d' hd' => hsub d' (List.mem_cons_of_mem _ hd')
    have hcount : ((changeHosts segment existing checkMode desired).bind fun n =>
        Prog.done (.ok (n + 1))).Uses (ChangeOf spec segment existing checkMode) :=
      Prog.Uses.bind hrest fun _ => trivial
    simp only [changeHosts, Prog.bind_def, Prog.pure_def]
    cases hfind : existing.find? fun host => host.name = d.name with
    | none =>
      cases checkMode with
      | true => exact hcount
      | false => exact ⟨trivial, fun _ => hcount⟩
    | some host =>
      dsimp only
      split
      · exact hrest
      · cases checkMode with
        | true => exact hcount
        | false =>
          refine ⟨⟨rfl, List.mem_of_find?_eq_some hfind, rfl, d, hsub d List.mem_cons_self, ?_, rfl⟩,
            fun _ => hcount⟩
          simpa using List.find?_some hfind

/-- An update of a host: a listing of its segment has shown the host, and the specification
declares the name. -/
structure UpdateOf (spec : SegmentSpec) (checkMode : Bool) (tr : List SegmentEvent)
    (host : ManagedHost) (segmentId : String) (updates : HostUpdates) : Prop where
  real : checkMode = false
  listed : ∃ (segment : ManagedSegment) (existing : List ManagedHost),
    (⟨.hosts segment, .ok existing⟩ : SegmentEvent) ∈ tr ∧ segment.id = segmentId ∧ host ∈ existing
  declared : ∃ desired ∈ spec.hosts, host.name = desired.name ∧ updates = hostUpdates host desired

variable {spec : SegmentSpec} {checkMode created : Bool} {segment : ManagedSegment}
  {tr : List SegmentEvent} {host : ManagedHost} {segmentId : String} {updates : HostUpdates}
  {x : Except ReconcileExn Unit}

theorem UpdateOf.mono {tr' : List SegmentEvent} (h : UpdateOf spec checkMode tr host segmentId updates)
    (hsub : ∀ ev ∈ tr, ev ∈ tr') : UpdateOf spec checkMode tr' host segmentId updates := by
  obtain ⟨hreal, ⟨segment, existing, hmem, hlisted⟩, hdeclared⟩ := h
  exact ⟨hreal, ⟨segment, existing, hsub _ hmem, hlisted⟩, hdeclared⟩

def updatesHost {τ : Type} : InstanceHaCall τ → Bool
  | .updateHost _ _ _ => true
  | _ => false

theorem updateSegment_updates :
    (updateSegment segment spec checkMode).Uses fun op => updatesHost op = false := by
  unfold updateSegment change
  split
  · trivial
  · split
    · trivial
    · exact ⟨rfl, fun _ => trivial⟩

theorem reconcileExisting_updates {q : SegmentOp SegmentReport}
    (h : Steps (reconcileExisting spec checkMode created segment) tr q)
    (hev : (⟨.updateHost host segmentId updates, x⟩ : SegmentEvent) ∈ tr) :
    UpdateOf spec checkMode tr host segmentId updates := by
  simp only [reconcileExisting, checked, Prog.bind_def, Prog.bind_request] at h
  rcases h.mem_bind hev with ⟨tr₁, _, p, _, hupdate, hev⟩ | ⟨updated, tr₁, tr₂, rfl, _, h, hev⟩
  · have hnot := (hupdate.within updateSegment_updates).2 _ hev
    cases hnot
  · obtain ⟨existing, tr₃, rfl, h, hev⟩ := h.mem_later (q := updatesHost) hev rfl rfl
    cases hdup : checkExisting existing [] with
    | error e =>
      rw [hdup] at h
      obtain ⟨rfl, _⟩ := h.done_inv
      cases hev
    | ok u =>
      rw [hdup, Prog.bind_ok] at h
      rcases h.mem_bind hev with ⟨tr₄, _, p, _, hloop, hev⟩ | ⟨n, _, _, _, _, h, hev⟩
      · obtain ⟨hreal, hmem, rfl, hdeclared⟩ :=
          (hloop.within (changeHosts_changes spec.hosts fun _ hd => hd)).2 _ hev
        exact ⟨hreal, ⟨updated, existing, by simp, rfl, hmem⟩, hdeclared⟩
      · obtain ⟨rfl, _⟩ := h.done_inv
        cases hev

/-- Where the updates of a redeployment come from. -/
theorem reconcileSegment_updates {rt : PyRuntime} {raw : Value} {q : SegmentOp SegmentReport}
    (h : Steps (reconcileSegment rt raw checkMode) tr q)
    (hev : (⟨.updateHost host segmentId updates, x⟩ : SegmentEvent) ∈ tr) :
    ∃ spec, normalizeSegmentSpec rt raw = .ok spec ∧
      UpdateOf spec checkMode tr host segmentId updates := by
  unfold reconcileSegment checked at h
  cases hspec : normalizeSegmentSpec rt raw with
  | error e =>
    rw [hspec] at h
    obtain ⟨rfl, _⟩ := h.done_inv
    cases hev
  | ok spec =>
    refine ⟨spec, rfl, ?_⟩
    rw [hspec] at h
    simp only [Prog.bind_def, Prog.bind_ok, Prog.bind_request, Prog.pure_def] at h
    obtain ⟨segments, tr₁, rfl, h, hev⟩ := h.mem_later (q := updatesHost) hev rfl rfl
    refine UpdateOf.mono ?_ fun ev hmem => List.mem_cons_of_mem _ hmem
    split at h
    · split at h
      · obtain ⟨rfl, _⟩ := h.done_inv
        cases hev
      · obtain ⟨new, tr₂, rfl, h, hev⟩ := h.mem_later (q := updatesHost) hev rfl rfl
        exact (reconcileExisting_updates h hev).mono fun ev hmem => List.mem_cons_of_mem _ hmem
    · rename_i found _
      cases htype : refuseIf (found.serviceType != some "COMPUTE")
          "existing segment service_type is not COMPUTE" with
      | error e =>
        rw [htype] at h
        obtain ⟨rfl, _⟩ := h.done_inv
        cases hev
      | ok u =>
        rw [htype] at h
        exact reconcileExisting_updates h hev
    · obtain ⟨rfl, _⟩ := h.done_inv
      cases hev

end MasakariSegment

end Declared

namespace Workbook

open TaskGraph Actions Declared

/-- The call sets the flag of a Masakari host. -/
def setsFlag {τ : Type} : Call τ → Bool
  | .updateHost _ _ _ => true
  | _ => false

/-- A listing of the segment has shown the host, by this name. -/
def Listed (tr : Trace) (segment : Segment) (item : MasakariHost) (host : String) : Prop :=
  ∃ items, (⟨.hosts segment, .ok items⟩ : CallEvent) ∈ tr ∧ item ∈ items ∧ item.name = some host

section Listed

variable {host : String} {tr tr' : Trace} {segment : Segment} {item : MasakariHost}

theorem Listed.mono (h : Listed tr segment item host) (hsub : ∀ ev ∈ tr, ev ∈ tr') :
    Listed tr' segment item host := by
  obtain ⟨items, hmem, hitem, hname⟩ := h
  exact ⟨items, hsub _ hmem, hitem, hname⟩

theorem masakariMatches_listed {segments : List Segment} {found : List (Segment × MasakariHost)}
    (h : Returns (masakariMatches host segments) tr found) :
    ∀ x ∈ found, Listed tr x.1 x.2 host := by
  induction segments generalizing tr found with
  | nil =>
    obtain ⟨_, rfl⟩ := returns_ok.mp h
    intro x hx
    cases hx
  | cons segment segments ih =>
    obtain ⟨items, tr₁, rfl, hrest⟩ := returns_call.mp h
    simp only [Prog.bind_ok, Prog.bind_def] at hrest
    obtain ⟨more, tr₂, tr₃, rfl, hmore, hend⟩ := returns_bind.mp hrest
    obtain ⟨_, rfl⟩ := returns_ok.mp hend
    intro x hx
    rcases List.mem_append.mp hx with hx | hx
    · obtain ⟨item, hitem, rfl⟩ := List.mem_map.mp hx
      obtain ⟨hitem, hname⟩ := List.mem_filter.mp hitem
      exact ⟨items, List.mem_cons_self, hitem, of_decide_eq_true hname⟩
    · exact (ih hmore x hx).mono fun ev hev => by simp [hev]

theorem masakariHost_listed (h : Returns (masakariHost host) tr (segment, item)) :
    Listed tr segment item host := by
  obtain ⟨segments, tr₁, rfl, hrest⟩ := returns_call.mp h
  simp only [Prog.bind_ok, Prog.bind_def] at hrest
  obtain ⟨found, tr₂, tr₃, rfl, hfound, hend⟩ := returns_bind.mp hrest
  have hone : found = [(segment, item)] := (returns_exactlyOne.mp hend).2
  refine (masakariMatches_listed hfound (segment, item) ?_).mono fun ev hev => by simp [hev]
  rw [hone]
  exact List.mem_singleton.mpr rfl

variable {on desired : Bool} {x : Except Exn Unit}

theorem reading_not_setsFlag {τ : Type} (op : Call τ) (h : op.reading = true) :
    setsFlag op = false := by
  cases op with
  | updateHost item segment on => cases h
  | _ => rfl

/-- The call sets the flag of this one host. -/
def SetsFlagOf (segment : Segment) (item : MasakariHost) : {τ : Type} → Call τ → Prop
  | _, .updateHost i s _ => i = item ∧ s = segment
  | _, _ => False

theorem masakariUpdate_sets (segment : Segment) (item : MasakariHost) (desired : Bool) :
    (masakariUpdate segment item desired).Uses (SetsFlagOf segment item) := by
  unfold masakariUpdate
  split
  · exact ⟨⟨rfl, rfl⟩, fun _ => trivial⟩
  · trivial

/-- Where the update of a maintenance task has its host from. -/
theorem setMasakariMaintenance_listed {q : Op MaintenanceResult}
    (h : Steps (setMasakariMaintenance host desired) tr q)
    (hev : (⟨.updateHost item segment on, x⟩ : CallEvent) ∈ tr) : Listed tr segment item host := by
  simp only [setMasakariMaintenance, Prog.bind_def] at h
  rcases h.mem_bind hev with ⟨tr₁, _, p, _, hfind, hev⟩ | ⟨⟨s, i⟩, tr₁, tr₂, rfl, hfind, hrest, hev⟩
  · have hread : (masakariHost host).Uses fun op => setsFlag op = false :=
      (masakariHost_within reading_not_setsFlag host).mono (fun _ h => h) fun _ _ => trivial
    have hnot := (hfind.within hread).2 _ hev
    cases hnot
  · rcases hrest.mem_bind hev with ⟨tr₃, _, p, _, hupdate, hev⟩ | ⟨u, _, _, _, _, hend, hev⟩
    · obtain ⟨rfl, rfl⟩ := (hupdate.within (masakariUpdate_sets s i desired)).2 _ hev
      exact (masakariHost_listed hfind).mono fun ev hmem => List.mem_append_left _ hmem
    · obtain ⟨rfl, _⟩ := hend.done_inv
      cases hev

/-- Where the update of the fail-safe has its host from. -/
theorem failSafeHost_listed {q : Op FailSafe} (h : Steps (failSafeHost host) tr q)
    (hev : (⟨.updateHost item segment on, x⟩ : CallEvent) ∈ tr) : Listed tr segment item host := by
  simp only [failSafeHost, Prog.bind_def] at h
  rcases h.mem_bind hev with ⟨tr₁, _, p, _, hnova, hev⟩ | ⟨_, tr₁, tr₂, rfl, _, hrest, hev⟩
  · have hother : (setNovaService host false "PowerOps fail-safe").Uses fun op =>
        setsFlag op = false :=
      setNovaService_uses reading_not_setsFlag _ _ _ (fun h => by cases h) fun _ _ _ => rfl
    have hnot := (hnova.within hother).2 _ hev
    cases hnot
  · rcases hrest.mem_bind hev with ⟨tr₃, tr₄, p, rfl, hset, hev⟩ | ⟨_, _, _, _, _, hend, hev⟩
    · exact (setMasakariMaintenance_listed hset hev).mono fun ev hmem => by simp [hmem]
    · obtain ⟨rfl, _⟩ := hend.done_inv
      cases hev

/-- The result that an action wraps adds no call. -/
theorem wrapped_listed {α : Type} {p : Op α} {f : α → Result} {q : Op Result}
    (h : Steps (p.bind fun a => Prog.done (.ok (f a))) tr q)
    (hev : (⟨.updateHost item segment on, x⟩ : CallEvent) ∈ tr)
    (hp : ∀ {tr' : Trace} {p' : Op α}, Steps p tr' p' →
      (⟨.updateHost item segment on, x⟩ : CallEvent) ∈ tr' → Listed tr' segment item host) :
    Listed tr segment item host := by
  rcases h.mem_bind hev with ⟨tr₁, tr₂, p', rfl, hsteps, hev⟩ | ⟨_, _, _, _, _, hend, hev⟩
  · exact (hp hsteps hev).mono fun ev hmem => List.mem_append_left _ hmem
  · obtain ⟨rfl, _⟩ := hend.done_inv
    cases hev

/-- A task that sets the flag of a host has found it in a listing, by the name in the input. -/
theorem program_listed {p : Planned} {conf : Options} {ctx : ActionContext} {input : Input}
    {t : TaskName} {q : Op Result}
    (h : Steps (program p.workflow conf ctx input t) tr q)
    (hev : (⟨.updateHost item segment on, x⟩ : CallEvent) ∈ tr) :
    Listed tr segment item input.host := by
  have htouch : Touches input.host (p.action t) (Call.updateHost item segment on) :=
    (h.within (program_uses p conf ctx input t)).2 _ hev
  rcases program_eq p conf ctx input t with hp | hp
  · rw [hp] at h
    obtain ⟨_, haction | ⟨haction, _⟩⟩ := htouch
    · rw [haction] at h
      exact wrapped_listed h hev setMasakariMaintenance_listed
    · rw [haction] at h
      exact wrapped_listed h hev failSafeHost_listed
  · rw [hp] at h
    obtain ⟨rfl, _⟩ := h.done_inv
    cases hev

end Listed

/-! ## The site -/

open MasakariSegment (ManagedHost InstanceHaCall SegmentOp SegmentReport normalizeSegmentSpec
  reconcileSegment)

/-- A run of the role's module, under the specification of its deployment. -/
structure Redeployment where
  runtime : PyRuntime
  rawSpec : Value
  checkMode : Bool := false

def Redeployment.program (r : Redeployment) : SegmentOp SegmentReport :=
  reconcileSegment r.runtime r.rawSpec r.checkMode

/-- The specification declares a host of this name with `on_maintenance: false`, and is applied. -/
def Redeployment.DeclaresOff (r : Redeployment) (name : String) : Prop :=
  r.checkMode = false ∧ ∃ spec, normalizeSegmentSpec r.runtime r.rawSpec = .ok spec ∧
    ∃ desired ∈ spec.hosts, desired.name = name ∧ desired.onMaintenance = false

/-- A redeployment under way: its calls so far, and what is left of it. -/
structure Redeploying where
  trace : List SegmentEvent
  rest : SegmentOp SegmentReport

/-- Masakari, the executions and the redeployments. -/
structure Site (ι κ : Type) where
  masakari : Masakari
  runs : ι → Run TaskName Call Exn Result Unit
  redeployments : κ → Redeploying

inductive SiteLabel (ι κ : Type) where
  | call (i : ι) (t : TaskName) (ev : CallEvent)
  | finish (i : ι)
  | reconcile (k : κ) (ev : SegmentEvent)

variable {ι κ : Type} [DecidableEq ι] [DecidableEq κ]

inductive SiteStep (ex : ι → Execution) : Site ι κ → SiteLabel ι κ → Site ι κ → Prop where
  | call {c : Site ι κ} {i : ι} {t : TaskName} {ev : CallEvent} {m : Masakari}
      {run : Run TaskName Call Exn Result Unit} :
      Step (ex i).workflow (ex i).program Free (c.runs i) (some (t, ev)) run →
      ActionStep c.masakari ev m →
      SiteStep ex c (.call i t ev) { c with masakari := m, runs := Function.update c.runs i run }
  | finish {c : Site ι κ} {i : ι} {run : Run TaskName Call Exn Result Unit} :
      Step (ex i).workflow (ex i).program Free (c.runs i) none run →
      SiteStep ex c (.finish i) { c with runs := Function.update c.runs i run }
  | reconcile {c : Site ι κ} {k : κ} {ev : SegmentEvent} {m : Masakari}
      {p : SegmentOp SegmentReport} :
      Steps (c.redeployments k).rest [ev] p → RedeployStep c.masakari ev m →
      SiteStep ex c (.reconcile k ev)
        { c with
          masakari := m
          redeployments :=
            Function.update c.redeployments k ⟨(c.redeployments k).trace ++ [ev], p⟩ }

/-- No execution and no redeployment has made a call yet. -/
def Site.init (ex : ι → Execution) (red : κ → Redeployment) (m₀ : Masakari) : Site ι κ where
  masakari := m₀
  runs i := Run.init (ex i).workflow (ex i).program ()
  redeployments k := ⟨[], (red k).program⟩

/-- The step ends the maintenance of this host. -/
def Ends (key : HostKey) : SiteLabel ι κ → Prop
  | .call _ _ ev => takesOff key ev.op
  | .finish _ => False
  | .reconcile _ ev => declaresOff key ev.op

/-- `maintenance_off` of a return path, on the host of its execution, after the wait for power on,
the wait for Nova and the verification of the host have ended with success. -/
inductive ReturnStep (ex : ι → Execution) (key : HostKey) (c : Site ι κ) : SiteLabel ι κ → Prop where
  | intro {i : ι} {ev : CallEvent} :
      takesOff key ev.op → c.masakari.Named key (ex i).host →
      [.waitOn, .waitNova, .verifyHostReturn].Sublist ((c.runs i).history.map (·.task)) →
      AllShown (ex i).conf (ex i).ctx (ex i).input (c.runs i).history →
      ReturnStep ex key c (.call i .maintenanceOff ev)

/-- A step that may end the maintenance of a host: a return path, or a redeployment whose
specification declares the host with `on_maintenance: false`. -/
inductive Lifts (ex : ι → Execution) (red : κ → Redeployment) (key : HostKey) (c : Site ι κ) :
    SiteLabel ι κ → Prop where
  | returned {l : SiteLabel ι κ} : ReturnStep ex key c l → Lifts ex red key c l
  | declared {k : κ} {ev : SegmentEvent} {name : String} :
      declaresOff key ev.op → c.masakari.Named key name → (red k).DeclaresOff name →
      Lifts ex red key c (.reconcile k ev)

variable {ex : ι → Execution} {red : κ → Redeployment} {m₀ : Masakari} {c c' : Site ι κ}
  {tr : List (SiteLabel ι κ)} {key : HostKey}

structure Site.Valid (ex : ι → Execution) (red : κ → Redeployment) (c : Site ι κ) : Prop where
  sound : c.masakari.Sound
  runs : ∀ i, Reach (ex i).workflow (ex i).program Free () (c.runs i)
  redeployments : ∀ k, Steps (red k).program (c.redeployments k).trace (c.redeployments k).rest

theorem step_moves {l : SiteLabel ι κ} (hc : c.masakari.Sound) (h : SiteStep ex c l c') :
    c.masakari.Moves c'.masakari fun key => Ends key l := by
  cases h with
  | call _ haction => exact actionStep_moves hc haction
  | finish _ => exact .of_hosts hc rfl
  | reconcile _ hredeploy => exact redeployStep_moves hc hredeploy

theorem step_valid {l : SiteLabel ι κ} (hc : c.Valid ex red) (h : SiteStep ex c l c') :
    c'.Valid ex red := by
  have hsound := (step_moves hc.sound h).sound
  cases h with
  | call hs _ => exact ⟨hsound, fun i => update_reach (c := ⟨fun _ => none, c.runs⟩) hc.runs hs,
      hc.redeployments⟩
  | finish hs => exact ⟨hsound, fun i => update_reach (c := ⟨fun _ => none, c.runs⟩) hc.runs hs,
      hc.redeployments⟩
  | @reconcile k ev m p hsteps _ =>
    refine ⟨hsound, hc.runs, fun k' => ?_⟩
    show Steps (red k').program (Function.update c.redeployments k _ k').trace
      (Function.update c.redeployments k _ k').rest
    by_cases hk : k' = k
    · subst hk
      rw [Function.update_self]
      exact (hc.redeployments k').trans hsteps
    · rw [Function.update_of_ne hk]
      exact hc.redeployments k'

theorem path_valid (hm : m₀.Sound) (h : Path (SiteStep ex) (Site.init ex red m₀) tr c) :
    c.Valid ex red :=
  h.keeps (fun _ _ _ hs hv => step_valid hv hs) ⟨hm, fun _ => .init, fun _ => .nil⟩

/-- A host stays where it is, with its name. -/
theorem path_named {name : String} (hc : c.masakari.Sound) (h : Path (SiteStep ex) c tr c')
    (hnamed : c.masakari.Named key name) : c'.masakari.Named key name := by
  have hboth : c'.masakari.Sound ∧ c'.masakari.Named key name :=
    h.keeps (I := fun u => u.masakari.Sound ∧ u.masakari.Named key name)
      (fun u l u' hs hu =>
        ⟨(step_moves hu.1 hs).sound, (step_moves hu.1 hs).named key name hu.2⟩) ⟨hc, hnamed⟩
  exact hboth.2

/-! ## What the calls so far have shown -/

/-- Every call of an execution is a step of the site. -/
theorem call_occurs {i : ι} {ev : CallEvent}
    (h : Path (SiteStep ex) (Site.init ex red m₀) tr c) (hev : ev ∈ (c.runs i).events) :
    Occurs (SiteStep ex) (fun _ l _ => ∃ t, l = .call i t ev) (Site.init ex red m₀) tr c := by
  generalize hstart : Site.init ex red m₀ = start at h
  induction h with
  | nil =>
    rw [← hstart] at hev
    rcases Run.mem_events.mp hev with ⟨r, hr, _⟩ | ⟨a, ha, hev⟩
    · cases hr
    · rw [(spawn_trace ha).1] at hev
      cases hev
  | @snoc c c' tr l h hs ih =>
    have hold : ev ∈ (c.runs i).events → Occurs (SiteStep ex) (fun _ l _ => ∃ t, l = .call i t ev)
        start (tr ++ [l]) c' := fun hev =>
      (ih hev).snoc hs
    have hrun : ∀ {j : ι} {run : Run TaskName Call Exn Result Unit}
        {x : Option (TaskName × CallEvent)},
        Step (ex j).workflow (ex j).program Free (c.runs j) x run →
        ev ∈ (Function.update c.runs j run i).events →
        ev ∈ (c.runs i).events ∨ j = i ∧ ∃ t, x = some (t, ev) := fun {j run x} hstep hev => by
      by_cases hij : i = j
      · subst hij
        rw [Function.update_self] at hev
        exact (hstep.events hev).imp_right fun hx => ⟨rfl, hx⟩
      · rw [Function.update_of_ne hij] at hev
        exact .inl hev
    cases hs with
    | @call j t ev' m run hstep haction =>
      rcases hrun hstep hev with hev | ⟨rfl, t', hx⟩
      · exact hold hev
      · cases hx
        exact .last h (.call hstep haction) ⟨t, rfl⟩
    | finish hstep =>
      rcases hrun hstep hev with hev | ⟨_, _, hx⟩
      · exact hold hev
      · cases hx
    | reconcile _ _ => exact hold hev

/-- Every call of a redeployment is a step of the site. -/
theorem redeploy_occurs {k : κ} {ev : SegmentEvent}
    (h : Path (SiteStep ex) (Site.init ex red m₀) tr c) (hev : ev ∈ (c.redeployments k).trace) :
    Occurs (SiteStep ex) (fun _ l _ => l = .reconcile k ev) (Site.init ex red m₀) tr c := by
  generalize hstart : Site.init ex red m₀ = start at h
  induction h with
  | nil =>
    rw [← hstart] at hev
    cases hev
  | @snoc c c' tr l h hs ih =>
    have hold : ev ∈ (c.redeployments k).trace → Occurs (SiteStep ex)
        (fun _ l _ => l = .reconcile k ev) start (tr ++ [l]) c' := fun hev =>
      (ih hev).snoc hs
    cases hs with
    | call _ _ => exact hold hev
    | finish _ => exact hold hev
    | @reconcile k' ev' m p hsteps hredeploy =>
      have htrace : ev ∈ (Function.update c.redeployments k'
          ⟨(c.redeployments k').trace ++ [ev'], p⟩ k).trace := hev
      by_cases hk : k = k'
      · subst hk
        rw [Function.update_self] at htrace
        rcases List.mem_append.mp htrace with hev | hev
        · exact hold hev
        · rw [List.mem_singleton.mp hev]
          exact .last h (.reconcile hsteps hredeploy) rfl
      · rw [Function.update_of_ne hk] at htrace
        exact hold htrace

/-- A host that a task has listed is there. If the listing showed it on maintenance, it was. -/
theorem listed_occurs {i : ι} {segment : Segment} {item : MasakariHost} {host : String}
    (h : Path (SiteStep ex) (Site.init ex red m₀) tr c)
    (hlisted : Listed (c.runs i).events segment item host) :
    Occurs (SiteStep ex) (fun _ _ u => u.masakari.Named ⟨segment, item.id⟩ host ∧
      (item.maintained = true → u.masakari.Flagged ⟨segment, item.id⟩))
      (Site.init ex red m₀) tr c := by
  obtain ⟨items, hmem, hitem, hname⟩ := hlisted
  refine (call_occurs h hmem).mono fun {_ u l u'} _ hs hl => ?_
  obtain ⟨t, rfl⟩ := hl
  cases hs with
  | call _ haction =>
    cases haction with
    | answered htells =>
      have hitems : items = (u.masakari.hosts segment).map ManagedHost.view := htells
      rw [hitems] at hitem
      obtain ⟨row, hrow, rfl⟩ := List.mem_map.mp hitem
      refine ⟨⟨row, hrow, rfl, Option.some.inj hname⟩, fun hon => ⟨row, hrow, rfl, ?_⟩⟩
      have hflag : row.onMaintenance.getD false = true := hon
      cases hrowflag : row.onMaintenance with
      | none => rw [hrowflag] at hflag; cases hflag
      | some on => rw [hrowflag] at hflag; exact congrArg some hflag

/-- The host of an update has the name in the input. -/
theorem update_named {i : ι} {t : TaskName} {item : MasakariHost} {segment : Segment} {on : Bool}
    {x : Except Exn Unit} (hm : m₀.Sound) (h : Path (SiteStep ex) (Site.init ex red m₀) tr c)
    (hs : SiteStep ex c (.call i t ⟨.updateHost item segment on, x⟩) c') :
    c.masakari.Named ⟨segment, item.id⟩ (ex i).host := by
  have hv := path_valid hm h
  cases hs with
  | call hstep _ =>
    obtain ⟨tr', p, hsteps, hsub⟩ := (hv.runs i).call_steps hstep
    obtain ⟨items, hmem, hitem, hname⟩ :=
      program_listed (x := x) hsteps (List.mem_append_right _ (List.mem_singleton.mpr rfl))
    have hbefore : (⟨.hosts segment, .ok items⟩ : CallEvent) ∈ tr' := by
      rcases List.mem_append.mp hmem with hmem | hmem
      · exact hmem
      · have hnot : setsFlag (Call.hosts segment) = setsFlag (Call.updateHost item segment on) :=
          congrArg (fun ev : CallEvent => setsFlag ev.op) (List.mem_singleton.mp hmem)
        cases hnot
    obtain ⟨tr₁, u, l, u', tr₂, _, h₁, hlast, ⟨hnamed, _⟩, h₂⟩ :=
      listed_occurs h ⟨items, hsub _ hbefore, hitem, hname⟩
    exact path_named (path_valid hm (h₁.snoc hlast)).sound h₂ hnamed

/-- The host of a redeployment's update has a name that its specification declares. -/
theorem redeploy_named {k : κ} {host : ManagedHost} {segmentId : String}
    {updates : MasakariSegment.HostUpdates} {x : Except ReconcileExn Unit} (hm : m₀.Sound)
    (h : Path (SiteStep ex) (Site.init ex red m₀) tr c)
    (hs : SiteStep ex c (.reconcile k ⟨.updateHost host segmentId updates, x⟩) c') :
    c.masakari.Named ⟨⟨segmentId⟩, host.id⟩ host.name ∧ (red k).checkMode = false ∧
      ∃ spec, normalizeSegmentSpec (red k).runtime (red k).rawSpec = .ok spec ∧
        ∃ desired ∈ spec.hosts, host.name = desired.name ∧
          updates = MasakariSegment.hostUpdates host desired := by
  have hv := path_valid hm h
  cases hs with
  | reconcile hsteps _ =>
    obtain ⟨spec, hspec, hreal, ⟨segment, existing, hmem, rfl, hlisted⟩, hdeclared⟩ :=
      MasakariSegment.reconcileSegment_updates ((hv.redeployments k).trans hsteps)
        (List.mem_append_right _ (List.mem_singleton.mpr rfl))
    have hbefore : (⟨.hosts segment, .ok existing⟩ : SegmentEvent) ∈ (c.redeployments k).trace := by
      rcases List.mem_append.mp hmem with hmem | hmem
      · exact hmem
      · have hnot := congrArg (fun ev : SegmentEvent => MasakariSegment.updatesHost ev.op)
          (List.mem_singleton.mp hmem)
        cases hnot
    refine ⟨?_, hreal, spec, hspec, hdeclared⟩
    obtain ⟨tr₁, u, l, u', tr₂, _, h₁, hlast, rfl, h₂⟩ := redeploy_occurs h hbefore
    refine path_named (path_valid hm (h₁.snoc hlast)).sound h₂ ?_
    cases hlast with
    | reconcile _ hredeploy =>
      cases hredeploy with
      | answered hkeeps =>
        obtain ⟨hexisting, hsame⟩ := hkeeps
        refine ⟨host, ?_, rfl, rfl⟩
        show host ∈ Masakari.hosts _ segment.toSegment
        rw [hsame, ← hexisting]
        exact hlisted

/-- A step that ends the maintenance of a host may do so. -/
theorem ends_lifts {l : SiteLabel ι κ} (hm : m₀.Sound)
    (h : Path (SiteStep ex) (Site.init ex red m₀) tr c) (hs : SiteStep ex c l c')
    (hends : Ends key l) : Lifts ex red key c l := by
  cases l with
  | finish i => exact hends.elim
  | call i t ev =>
    obtain ⟨op, x⟩ := ev
    cases op with
    | updateHost item segment on =>
      have hnamed := update_named hm h hs
      obtain ⟨rfl, hid, rfl⟩ := hends
      rw [hid] at hnamed
      cases hs with
      | call hstep _ =>
        have hrun := (path_valid hm h).runs i
        obtain ⟨_, hverified, hshown⟩ := return_gated hrun hstep rfl
        obtain ⟨_, haction | ⟨_, hon⟩⟩ := call_touches hrun hstep
        · cases t <;> first
            | exact .returned (.intro ⟨rfl, hid, rfl⟩ hnamed hverified hshown)
            | cases haction
        · cases hon
    | _ => exact hends.elim
  | reconcile k ev =>
    obtain ⟨op, x⟩ := ev
    cases op with
    | updateHost host segmentId updates =>
      obtain ⟨hnamed, hreal, spec, hspec, desired, hdesired, hname, rfl⟩ := redeploy_named hm h hs
      obtain ⟨hseg, hid, hoff⟩ := hends
      rw [hseg, hid] at hnamed
      refine .declared ⟨hseg, hid, hoff⟩ hnamed ⟨hreal, spec, hspec, desired, hdesired, hname.symm, ?_⟩
      have hdiffers : MasakariSegment.differing host.onMaintenance desired.onMaintenance =
          some false := hoff
      unfold MasakariSegment.differing at hdiffers
      split at hdiffers
      · cases hdiffers
      · exact Option.some.inj hdiffers
    | _ => exact hends.elim

/-! ## The maintenance of a host -/

/-- Somewhere in the run a host of this name was on maintenance, and from there on it stays so,
however the run goes on, until one of the steps that `lifts` names. -/
def PutOnMaintenance (ex : ι → Execution) (lifts : HostKey → Site ι κ → SiteLabel ι κ → Prop)
    (host : String) (start : Site ι κ) (tr : List (SiteLabel ι κ)) (c : Site ι κ) : Prop :=
  ∃ key tr₁ c₁ tr₂, tr = tr₁ ++ tr₂ ∧ Path (SiteStep ex) start tr₁ c₁ ∧
    Path (SiteStep ex) c₁ tr₂ c ∧ c₁.masakari.Named key host ∧ c₁.masakari.Flagged key ∧
    ∀ tr₃ c₃, Path (SiteStep ex) c₁ tr₃ c₃ →
      c₃.masakari.Flagged key ∨ Occurs (SiteStep ex) (fun u l _ => lifts key u l) c₁ tr₃ c₃

/-- From a state on, maintenance is only ended by a step that may do so. -/
theorem flagged_until (hm : m₀.Sound) (h : Path (SiteStep ex) (Site.init ex red m₀) tr c)
    (hon : c.masakari.Flagged key) {tr' : List (SiteLabel ι κ)} (h' : Path (SiteStep ex) c tr' c') :
    c'.masakari.Flagged key ∨ Occurs (SiteStep ex) (fun u l _ => Lifts ex red key u l) c tr' c' := by
  refine h'.until (I := fun u => u.masakari.Flagged key) (fun {tr₁ u l u'} h₁ hs hu => ?_) hon
  have hpath := h.trans h₁
  rcases (step_moves (path_valid hm hpath).sound hs).flagged key hu with hstill | hends
  · exact .inl hstill
  · exact .inr (ends_lifts hm hpath hs hends)

/-- A task `maintenance_on` that ended with success has found or put a host of its name on
maintenance. -/
theorem maintenanceOn_occurs (hm : m₀.Sound) {i : ι} {r : Record TaskName Call Exn Result Unit}
    (h : Path (SiteStep ex) (Site.init ex red m₀) tr c) (hr : r ∈ (c.runs i).history)
    (htask : r.task = .maintenanceOn) (hok : r.ok = true) :
    ∃ key, Occurs (SiteStep ex) (fun _ _ u => u.masakari.Named key (ex i).host ∧
      u.masakari.Flagged key) (Site.init ex red m₀) tr c := by
  have hsteps := ((path_valid hm h).runs i).going.history r hr
  have hsub : ∀ ev ∈ r.trace, ev ∈ (c.runs i).events := fun ev hev =>
    Run.mem_events.mpr (.inl ⟨r, hr, hev⟩)
  cases hresult : r.result with
  | error e => rw [Record.ok, hresult] at hok; cases hok
  | ok a =>
    rw [hresult] at hsteps
    have hshown := program_shows hsteps
    rw [htask] at hshown
    obtain ⟨segment, item, found, hfound, ⟨htr, hon⟩ | htr⟩ := hshown
    · have hlisted := (masakariHost_listed hfound).mono fun ev hev => hsub ev (htr ▸ hev)
      exact ⟨⟨segment, item.id⟩, (listed_occurs h hlisted).mono fun _ _ hP => ⟨hP.1, hP.2 hon⟩⟩
    · have hupdate : (⟨.updateHost item segment true, .ok ()⟩ : CallEvent) ∈ (c.runs i).events :=
        hsub _ (htr ▸ List.mem_append_right _ (List.mem_singleton.mpr rfl))
      refine ⟨⟨segment, item.id⟩, (call_occurs h hupdate).mono fun {_ u l u'} h₁ hs hl => ?_⟩
      obtain ⟨t, rfl⟩ := hl
      have hnamed := update_named hm h₁ hs
      refine ⟨(step_moves (path_valid hm h₁).sound hs).named _ _ hnamed, ?_⟩
      obtain ⟨row, hrow, hid, _⟩ := hnamed
      cases hs with
      | call _ haction =>
        cases haction with
        | answered _ =>
          refine ⟨Masakari.setFlag item.id true row, ?_, (Masakari.setFlag_id _ _ row).trans hid, ?_⟩
          · show _ ∈ (u.masakari.setHosts segment _).hosts segment
            rw [setHosts_self]
            exact List.mem_map_of_mem hrow
          · rw [Masakari.setFlag, if_pos hid]

/-- **Maintenance is lifted by a verified return, or by a specification that declares it off.**
After a task `maintenance_on` has succeeded, its host stays on maintenance in any interleaving of
executions and redeployments, until `maintenance_off` of a return path clears it after the
verification of the host, or a redeployment that declares `on_maintenance: false` for it does. -/
theorem maintenance_lifted (hm : m₀.Sound) {i : ι} {r : Record TaskName Call Exn Result Unit}
    (h : Path (SiteStep ex) (Site.init ex red m₀) tr c) (hr : r ∈ (c.runs i).history)
    (htask : r.task = .maintenanceOn) (hok : r.ok = true) :
    PutOnMaintenance ex (Lifts ex red) (ex i).host (Site.init ex red m₀) tr c := by
  obtain ⟨key, tr₁, u, l, u', tr₂, rfl, h₁, hs, ⟨hnamed, hon⟩, h₂⟩ :=
    maintenanceOn_occurs hm h hr htask hok
  have hpath := h₁.snoc hs
  refine ⟨key, tr₁ ++ [l], u', tr₂, ?_, hpath, h₂, hnamed, hon, fun tr₃ c₃ h₃ =>
    flagged_until hm hpath hon h₃⟩
  rw [List.append_assoc, List.singleton_append]

/-! ## A redeployment during a power-off -/

/-- Masakari answers for itself, the node is found off, and everything else is as on the idle
host. -/
def siteSim (m : Masakari) : Simulator Call Exn Unit
  | _, _, .segments => (.ok m.segmentIds, ())
  | _, _, .hosts segment => (.ok ((m.hosts segment).map ManagedHost.view), ())
  | _, _, .getNode _ => (.ok { idleNode with powerState := some "power off" }, ())
  | w, _, op => idleCloud "enabled" w op

/-- Let one execution or one redeployment take a step. -/
inductive Turn (ι κ : Type) where
  | run (i : ι)
  | reconcile (k : κ)

def Site.turn (ex : ι → Execution) (c : Site ι κ) :
    Turn ι κ → Option (SiteLabel ι κ × Site ι κ)
  | .run i =>
    if (c.runs i).active.isEmpty then none
    else
      let run := (c.runs i).tick (ex i).workflow (ex i).program (siteSim c.masakari)
      match (c.runs i).label (siteSim c.masakari) with
      | some (t, ev) => some (.call i t ev, { c with
          masakari := c.masakari.effect ev.op
          runs := Function.update c.runs i run })
      | none => some (.finish i, { c with runs := Function.update c.runs i run })
  | .reconcile k =>
    match (c.redeployments k).rest with
    | .done _ => none
    | .call op next =>
      let answered := keepSim c.masakari op
      some (.reconcile k ⟨op, answered.1⟩, { c with
        masakari := answered.2
        redeployments := Function.update c.redeployments k
          ⟨(c.redeployments k).trace ++ [⟨op, answered.1⟩], answer next answered.1⟩ })

/-- The steps of some turns, and the state after them. A turn of one that has ended is left out. -/
def Site.turns (ex : ι → Execution) (c : Site ι κ) :
    List (Turn ι κ) → List (SiteLabel ι κ) × Site ι κ
  | [] => ([], c)
  | t :: ts =>
    match c.turn ex t with
    | none => c.turns ex ts
    | some (l, c') => (l :: (c'.turns ex ts).1, (c'.turns ex ts).2)

theorem siteSim_step {m : Masakari} {τ : Type} (op : Call τ) :
    ActionStep m ⟨op, (siteSim m () op).1⟩ (m.effect op) := by
  cases op with
  | segments => exact .answered rfl
  | hosts segment => exact .answered rfl
  | _ => exact .answered trivial

theorem keepSim_redeploys (m : Masakari) {τ : Type} (op : InstanceHaCall τ) :
    RedeployStep m ⟨op, (keepSim m op).1⟩ (keepSim m op).2 := by
  unfold keepSim
  cases hanswer : m.answer op with
  | none => exact .raised (.inl rfl)
  | some a => exact .answered (answer_keeps hanswer)

theorem turn_step {t : Turn ι κ} {l : SiteLabel ι κ} (h : c.turn ex t = some (l, c')) :
    SiteStep ex c l c' := by
  cases t with
  | run i =>
    simp only [Site.turn] at h
    split at h
    · cases h
    · rename_i hactive
      have hs : Step (ex i).workflow (ex i).program Free (c.runs i) _ _ :=
        Run.tick_step (siteSim c.masakari) (fun _ _ _ => trivial) (by simpa using hactive)
      cases hl : (c.runs i).label (siteSim c.masakari) with
      | none =>
        rw [hl] at h hs
        cases h
        exact .finish hs
      | some x =>
        rw [hl] at h hs
        cases h
        refine .call hs ?_
        unfold Run.label at hl
        split at hl
        · cases hl
        · split at hl
          · cases hl
          · cases hl
            exact siteSim_step _
  | reconcile k =>
    simp only [Site.turn] at h
    cases hrest : (c.redeployments k).rest with
    | done r =>
      rw [hrest] at h
      cases h
    | call op next =>
      rw [hrest] at h
      cases h
      refine .reconcile ?_ (keepSim_redeploys c.masakari op)
      rw [hrest]
      exact Steps.answer _

theorem turns_path (ts : List (Turn ι κ)) (c : Site ι κ) :
    Path (SiteStep ex) c (c.turns ex ts).1 (c.turns ex ts).2 := by
  induction ts generalizing c with
  | nil => exact .nil
  | cons t ts ih =>
    unfold Site.turns
    cases hturn : c.turn ex t with
    | none => exact ih c
    | some x => exact (Path.single (turn_step hturn)).trans (ih x.2)

/-- The declaration of `compute-01`, with the value of `masakari_on_maintenance`. -/
def maintainedNode (on : Bool) : Value :=
  .dict [(.str "name", .str "compute-01"), (.str "nova_hostname", .str "compute-01"),
    (.str "masakari_on_maintenance", .bool on)]

/-- A redeployment of the role with this declaration. -/
def redeployed (on : Bool) : Redeployment where
  runtime := PyRuntime.ascii
  rawSpec :=
    match plainRole.segmentSpec (globals [maintainedNode on]) [maintainedNode on] with
    | .ok raw => raw
    | .error _ => .none

/-- The segment with its one host, in service. -/
def hostInService : Masakari where
  segments := [{
    id := "segment-1"
    name := "powerops-compute"
    serviceType := "COMPUTE"
    recoveryMethod := "auto"
    description := "PowerOps compute hosts managed by Kolla-Ansible" }]
  hosts segment :=
    if segment = ⟨"segment-1"⟩ then
      [{ id := "host-1"
         name := "compute-01"
         type := "COMPUTE"
         controlAttributes := "SSH"
         reserved := false
         onMaintenance := false }]
    else []

theorem hostInService_sound : hostInService.Sound := by
  refine ⟨by decide, fun segment => ?_, fun segment hnot => if_neg fun hsame => hnot ?_⟩
  · unfold hostInService
    dsimp only
    split
    · decide
    · exact List.nodup_nil
  · rw [hsame]
    decide

def SiteLabel.task : SiteLabel ι κ → Option TaskName
  | .call _ t _ => some t
  | _ => none

omit [DecidableEq ι] [DecidableEq κ] in
theorem ReturnStep.task {l : SiteLabel ι κ} (h : ReturnStep ex key c l) :
    l.task = some .maintenanceOff := by
  cases h
  rfl

/-- One planned power-off, and one redeployment. -/
def outage : Unit → Execution := fun _ => twoRuns false

def outageStart (on : Bool) : Site Unit Unit := .init outage (fun _ => redeployed on) hostInService

/-- The power-off runs to its end. -/
def poweredOff (on : Bool) : List (SiteLabel Unit Unit) × Site Unit Unit :=
  (outageStart on).turns outage (List.replicate 34 (.run ()))

/-- Then the redeployment does. -/
def redeployedAfter (on : Bool) : List (SiteLabel Unit Unit) × Site Unit Unit :=
  (poweredOff on).2.turns outage (List.replicate 3 (.reconcile ()))

theorem poweredOff_path (on : Bool) :
    Path (SiteStep outage) (outageStart on) (poweredOff on).1 (poweredOff on).2 :=
  turns_path _ _

/-- The host has been powered off, and the redeployment takes it off maintenance. -/
theorem redeployment_lifts :
    ¬ ∀ (ex : Unit → Execution) (red : Unit → Redeployment) (m₀ : Masakari)
        (tr : List (SiteLabel Unit Unit)) (c : Site Unit Unit) (i : Unit)
        (r : Record TaskName Call Exn Result Unit),
      m₀.Sound → Path (SiteStep ex) (.init ex red m₀) tr c → r ∈ (c.runs i).history →
      r.task = .maintenanceOn → r.ok = true →
        PutOnMaintenance ex (ReturnStep ex) (ex i).host (.init ex red m₀) tr c := by
  intro h
  have hrecord : ∃ r ∈ ((poweredOff false).2.runs ()).history,
      r.task = .maintenanceOn ∧ r.ok = true := by decide +kernel
  obtain ⟨r, hr, htask, hok⟩ := hrecord
  obtain ⟨key, tr₁, c₁, tr₂, htr, _, h₂, _, _, hkept⟩ :=
    h outage (fun _ => redeployed false) hostInService _ _ () r hostInService_sound (poweredOff_path false)
      hr htask hok
  have hafter : Path (SiteStep outage) (poweredOff false).2 (redeployedAfter false).1
      (redeployedAfter false).2 := turns_path _ _
  rcases hkept _ _ (h₂.trans hafter) with ⟨host, hhost, _, hon⟩ | hocc
  · have hsound := (path_valid hostInService_sound ((poweredOff_path false).trans hafter)).sound
    by_cases hseg : key.segment = ⟨"segment-1"⟩
    · have hoff : ∀ host ∈ (redeployedAfter false).2.masakari.hosts ⟨"segment-1"⟩,
          host.onMaintenance = some false := by decide +kernel
      rw [hseg] at hhost
      rw [hoff host hhost] at hon
      cases hon
    · have hids : (redeployedAfter false).2.masakari.segmentIds = [⟨"segment-1"⟩] := by
        decide +kernel
      rw [hsound.owned key.segment (by rw [hids]; simpa using hseg)] at hhost
      cases hhost
  · obtain ⟨l, hl, _, _, hreturn⟩ := hocc.mem
    have hnone : ∀ l ∈ (poweredOff false).1 ++ (redeployedAfter false).1,
        l.task ≠ some .maintenanceOff := by decide +kernel
    refine hnone l ?_ hreturn.task
    rw [htr, List.append_assoc]
    exact List.mem_append_right _ hl

/-- The same power-off, and a redeployment that declares the host on maintenance. -/
theorem maintenance_lifted_off :
    PutOnMaintenance outage (Lifts outage fun _ => redeployed true) "compute-01" (outageStart true)
      (poweredOff true).1 (poweredOff true).2 := by
  have hrecord : ∃ r ∈ ((poweredOff true).2.runs ()).history,
      r.task = .maintenanceOn ∧ r.ok = true := by decide +kernel
  obtain ⟨r, hr, htask, hok⟩ := hrecord
  exact maintenance_lifted hostInService_sound (poweredOff_path true) hr htask hok

end Workbook
end KollaPowerOps
