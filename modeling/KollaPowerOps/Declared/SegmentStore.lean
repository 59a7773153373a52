import KollaPowerOps.Declared.SegmentPlan

/-!
# Declared.SegmentStore

A Masakari that stores what it is given, and where reconciliations of a segment lead in it.

* `Masakari.Sound`   : ids are unique, and only segments have hosts; every step keeps it.
* `KeepStep`         : a call is answered after exactly the given attributes were stored.
* `SettledSegment`   : the segment and the hosts of the specification are there.
* `segment_converges` : a successful run settles the segment and leaves everything undeclared
  alone; the next one writes nothing; a check run from the first state foretold it.
-/

namespace KollaPowerOps
namespace Declared

open Effect MasakariSegment

/-! ## The store -/

/-- `update_host` applies the given attributes and leaves the others. -/
def MasakariSegment.HostUpdates.apply (updates : HostUpdates) (host : ManagedHost) : ManagedHost :=
  { host with
    type := updates.type.or host.type
    controlAttributes := updates.controlAttributes.or host.controlAttributes
    reserved := updates.reserved.or host.reserved
    onMaintenance := updates.onMaintenance.or host.onMaintenance }

/-- The host that `create_host` stores. -/
def MasakariSegment.DesiredHost.create (attrs : DesiredHost) (id : String) : ManagedHost where
  id := id
  name := attrs.name
  type := attrs.type
  controlAttributes := attrs.controlAttributes
  reserved := attrs.reserved
  onMaintenance := attrs.onMaintenance

/-- Masakari with the hosts of one segment replaced. -/
def Masakari.setHosts (w : Masakari) (segment : Segment) (hosts : List ManagedHost) : Masakari :=
  { w with hosts := Function.update w.hosts segment hosts }

@[simp] theorem setHosts_self (w : Masakari) (segment : Segment) (hosts : List ManagedHost) :
    (w.setHosts segment hosts).hosts segment = hosts := Function.update_self _ _ _

theorem setHosts_ne (w : Masakari) {segment other : Segment} (hosts : List ManagedHost)
    (h : other ≠ segment) : (w.setHosts segment hosts).hosts other = w.hosts other :=
  Function.update_of_ne h _ _

structure Masakari.Sound (w : Masakari) : Prop where
  segmentIds : w.segmentIds.Nodup
  hostIds : ∀ segment, ((w.hosts segment).map ManagedHost.id).Nodup
  owned : ∀ segment, segment ∉ w.segmentIds → w.hosts segment = []

/-- The answer of a call, and the state after it. -/
def Masakari.Keeps (w : Masakari) : {τ : Type} → InstanceHaCall τ → τ → Masakari → Prop
  | _, .segments, segments, w' => segments = w.segments ∧ w' = w
  | _, .hosts segment, hosts, w' => hosts = w.hosts segment.toSegment ∧ w' = w
  | _, .createSegment name serviceType recoveryMethod description, segment, w' =>
    (segment.name = some name ∧ segment.serviceType = some serviceType ∧
      segment.recoveryMethod = some recoveryMethod ∧ segment.description = some description) ∧
      segment.toSegment ∉ w.segmentIds ∧
      w' = { segments := w.segments ++ [segment]
             hosts := Function.update w.hosts segment.toSegment [] }
  | _, .updateSegment segment updates, segment', w' =>
    ∃ stored ∈ w.segments, stored.toSegment = segment.toSegment ∧
      segment' = updates.apply stored ∧ w' = w.put segment'
  | _, .createHost segment attrs, _, w' =>
    segment.toSegment ∈ w.segmentIds ∧
      ∃ id, (∀ host ∈ w.hosts segment.toSegment, host.id ≠ id) ∧
        w' = w.setHosts segment.toSegment (w.hosts segment.toSegment ++ [attrs.create id])
  | _, .updateHost host segmentId updates, _, w' =>
    ∃ stored ∈ w.hosts ⟨segmentId⟩, stored.id = host.id ∧
      w' = w.setHosts ⟨segmentId⟩
        (Table.put ManagedHost.id (updates.apply stored) (w.hosts ⟨segmentId⟩))

inductive KeepStep : Masakari → SegmentEvent → Masakari → Prop where
  | answered {w w' : Masakari} {τ : Type} {op : InstanceHaCall τ} {a : τ} :
      w.Keeps op a w' → KeepStep w ⟨op, .ok a⟩ w'

theorem keepStep_call {w w' : Masakari} {τ : Type} {op : InstanceHaCall τ} {a : τ}
    (h : KeepStep w ⟨op, .ok a⟩ w') : w.Keeps op a w' := by
  cases h with
  | answered hs => exact hs

theorem keepStep_serves : Serves KeepStep where
  answering := by
    intro w ev w' hs
    cases hs
    exact ⟨_, rfl⟩
  segments h := keepStep_call h
  hosts h := keepStep_call h
  updated h := by
    obtain ⟨stored, _, hid, rfl, rfl⟩ := keepStep_call h
    exact ⟨hid, rfl⟩
  created h := by
    obtain ⟨_, _, rfl⟩ := keepStep_call h
    exact Function.update_self _ _ _

/-- New hosts of a segment, with ids of their own. -/
theorem Masakari.Sound.setHosts {w : Masakari} {segment : Segment} {hosts : List ManagedHost}
    (hw : w.Sound) (hmem : segment ∈ w.segmentIds) (hids : (hosts.map ManagedHost.id).Nodup) :
    (w.setHosts segment hosts).Sound := by
  refine ⟨hw.segmentIds, fun other => ?_, fun other hother => ?_⟩
  · by_cases hsame : other = segment
    · rw [hsame, setHosts_self]
      exact hids
    · rw [setHosts_ne w hosts hsame]
      exact hw.hostIds other
  · have hne : other ≠ segment := fun hsame => hother (hsame ▸ hmem)
    rw [setHosts_ne w hosts hne]
    exact hw.owned other hother

/-- The store stays sound. -/
theorem keepStep_sound {w w' : Masakari} {ev : SegmentEvent} (hw : w.Sound)
    (h : KeepStep w ev w') : w'.Sound := by
  cases h with
  | @answered _ _ op _ hs =>
    cases op with
    | segments => rw [hs.2]; exact hw
    | hosts segment => rw [hs.2]; exact hw
    | createSegment name serviceType recoveryMethod description =>
      obtain ⟨_, hfresh, rfl⟩ := hs
      refine ⟨?_, fun other => ?_, fun other hother => ?_⟩
      · rw [Masakari.segmentIds, List.map_append, List.nodup_append]
        refine ⟨hw.segmentIds, List.nodup_singleton _, fun s hs s' hs' hsame => ?_⟩
        rw [List.mem_singleton.mp hs'] at hsame
        exact hfresh (hsame ▸ hs)
      · show ((Function.update w.hosts _ _ other).map ManagedHost.id).Nodup
        rw [Function.update_apply]
        split
        · exact List.nodup_nil
        · exact hw.hostIds other
      · rw [Masakari.segmentIds, List.map_append, List.mem_append, not_or] at hother
        show Function.update w.hosts _ _ other = []
        rw [Function.update_apply]
        split
        · rfl
        · exact hw.owned other hother.1
    | updateSegment segment updates =>
      obtain ⟨stored, hstored, hid, rfl, rfl⟩ := hs
      have hids : (w.put (updates.apply stored)).segmentIds = w.segmentIds := Table.keys_put
      exact ⟨by rw [hids]; exact hw.segmentIds, hw.hostIds, fun other hother => hw.owned other
        (by rw [hids] at hother; exact hother)⟩
    | createHost segment attrs =>
      obtain ⟨hmem, id, hfresh, rfl⟩ := hs
      refine hw.setHosts hmem ?_
      rw [List.map_append, List.nodup_append]
      refine ⟨hw.hostIds _, List.nodup_singleton _, fun s hs s' hs' hsame => ?_⟩
      obtain ⟨host, hhost, rfl⟩ := List.mem_map.mp hs
      rw [List.mem_singleton.mp hs'] at hsame
      exact hfresh host hhost hsame
    | updateHost host segmentId updates =>
      obtain ⟨stored, hstored, hid, rfl⟩ := hs
      refine hw.setHosts ?_ ?_
      · by_contra hnone
        rw [hw.owned _ hnone] at hstored
        cases hstored
      · rw [Table.keys_put]
        exact hw.hostIds _

/-! ## Hosts -/

/-- The host has the declared attributes. -/
structure HasAttributes (host : ManagedHost) (desired : DesiredHost) : Prop where
  type : host.type = some desired.type
  controlAttributes : host.controlAttributes = some desired.controlAttributes
  reserved : host.reserved = some desired.reserved
  onMaintenance : host.onMaintenance = some desired.onMaintenance

theorem differing_none {α : Type} [DecidableEq α] {current : Option α} {desired : α} :
    differing current desired = none ↔ current = some desired := by
  unfold differing
  split <;> simp_all

/-- Updated, a field has the desired value. -/
theorem differing_or {α : Type} [DecidableEq α] (current : Option α) (desired : α) :
    (differing current desired).or current = some desired := by
  unfold differing
  split
  · assumption
  · rfl

theorem hostUpdates_none {host : ManagedHost} {desired : DesiredHost} :
    hostUpdates host desired = {} ↔ HasAttributes host desired := by
  rw [hostUpdates, HostUpdates.mk.injEq]
  simp only [differing_none]
  exact ⟨fun ⟨ht, hc, hr, hm⟩ => ⟨ht, hc, hr, hm⟩, fun h => ⟨h.1, h.2, h.3, h.4⟩⟩

theorem hostUpdates_apply (host : ManagedHost) (desired : DesiredHost) :
    HasAttributes ((hostUpdates host desired).apply host) desired :=
  ⟨differing_or _ _, differing_or _ _, differing_or _ _, differing_or _ _⟩

/-- The declared host is the only one of its name in the segment. -/
abbrev HostHeld (w : Masakari) (segment : Segment) (desired : DesiredHost) : Prop :=
  Table.Held ManagedHost.name DesiredHost.name HasAttributes (w.hosts segment) desired

/-- The declared hosts are in the segment, and nothing else has changed. -/
structure HostsPlaced (w w' : Masakari) (segment : Segment) (desired : List DesiredHost) :
    Prop where
  sound : w'.Sound
  segments : w'.segments = w.segments
  elsewhere : ∀ other, other ≠ segment → w'.hosts other = w.hosts other
  placed : Table.Placed ManagedHost.name DesiredHost.name HasAttributes (w.hosts segment)
    (w'.hosts segment) desired

theorem HostsPlaced.cons {w w₁ w' : Masakari} {segment : Segment} {host : DesiredHost}
    {desired : List DesiredHost} (hnew : host.name ∉ desired.map DesiredHost.name)
    (h₁ : HostsPlaced w w₁ segment [host]) (h₂ : HostsPlaced w₁ w' segment desired) :
    HostsPlaced w w' segment (host :: desired) where
  sound := h₂.sound
  segments := h₂.segments.trans h₁.segments
  elsewhere other hother := (h₂.elsewhere other hother).trans (h₁.elsewhere other hother)
  placed := .cons hnew h₁.placed h₂.placed

section Run

variable {w w' : Masakari} {tr : List SegmentEvent} {segment : ManagedSegment}

theorem createHost_placed {desired : DesiredHost} (hw : w.Sound)
    (hnone : (w.hosts segment.toSegment).filter (fun h => h.name = desired.name) = [])
    (h : KeepStep w ⟨.createHost segment desired, .ok ()⟩ w') :
    HostsPlaced w w' segment.toSegment [desired] := by
  have hw' := keepStep_sound hw h
  obtain ⟨_, id, _, rfl⟩ := keepStep_call h
  refine ⟨hw', rfl, fun other hother => setHosts_ne w _ hother, ?_⟩
  rw [setHosts_self]
  exact Table.placed_append hnone rfl ⟨rfl, rfl, rfl, rfl⟩

theorem updateHost_placed {host : ManagedHost} {desired : DesiredHost} (hw : w.Sound)
    (hfound : (w.hosts segment.toSegment).filter (fun h => h.name = desired.name) = [host])
    (h : KeepStep w ⟨.updateHost host segment.id (hostUpdates host desired), .ok ()⟩ w') :
    HostsPlaced w w' segment.toSegment [desired] := by
  have hw' := keepStep_sound hw h
  obtain ⟨stored, hstored, hid, rfl⟩ := keepStep_call h
  obtain ⟨hmem, hname, -⟩ := Table.sole_of_filter hfound
  obtain rfl := Table.row_unique (k := ManagedHost.id) (hw.hostIds _) hstored hmem hid
  refine ⟨hw', rfl, fun other hother => setHosts_ne w _ hother, ?_⟩
  have hself : ∀ hosts, (w.setHosts ⟨segment.id⟩ hosts).hosts segment.toSegment = hosts :=
    setHosts_self w ⟨segment.id⟩
  rw [hself]
  exact Table.placed_put (hw.hostIds _) hfound rfl hname (hostUpdates_apply _ _)

/-- One change of the hosts, and the rest of the loop. -/
theorem runs_hostChange {op : InstanceHaCall Unit} {p : SegmentOp Nat} {n : Nat}
    (h : Runs KeepStep w ((MasakariSegment.change false () op).bind fun _ =>
      p.bind fun n => .done (.ok (n + 1))) tr (.ok n) w') :
    ∃ w₁ tr' m, KeepStep w ⟨op, .ok ()⟩ w₁ ∧ Runs KeepStep w₁ p tr' (.ok m) w' := by
  obtain ⟨_, w₁, tr', _, hev, hnext⟩ := (runs_call keepStep_serves.answering).mp h
  have hrest : Runs KeepStep w₁ (p.bind fun n => .done (.ok (n + 1))) tr' (.ok n) w' := hnext
  rcases runs_bind.mp hrest with ⟨m, tr₁, tr₂, w₂, _, hp, hend⟩ | ⟨e, _, herr⟩
  · obtain ⟨_, _, rfl⟩ := runs_done.mp hend
    exact ⟨w₁, tr₁, m, hev, hp⟩
  · cases herr

/-- What a lookup by name says of the hosts of that name. -/
theorem existing_filter {existing : List ManagedHost} {name : String}
    (hnames : (existing.map ManagedHost.name).Nodup) :
    existing.filter (fun h => h.name = name) =
      ((existing.find? fun h => h.name = name).map fun h => [h]).getD [] := by
  cases hfind : existing.find? fun h => h.name = name with
  | none =>
    rw [List.find?_eq_none] at hfind
    exact List.filter_eq_nil_iff.mpr hfind
  | some host =>
    have hname : host.name = name := by simpa using List.find?_some hfind
    rw [← hname]
    exact filter_key hnames (List.mem_of_find?_eq_some hfind)

/-- The loop over the hosts: what it saw of the desired hosts is still so. -/
theorem changeHosts_keeps {existing : List ManagedHost} {desired : List DesiredHost} {n : Nat}
    (hw : w.Sound) (hnames : (existing.map ManagedHost.name).Nodup)
    (hnodup : (desired.map DesiredHost.name).Nodup)
    (hsee : ∀ host ∈ desired, (w.hosts segment.toSegment).filter (fun h => h.name = host.name) =
      existing.filter fun h => h.name = host.name)
    (h : Runs KeepStep w (changeHosts segment existing false desired) tr (.ok n) w') :
    HostsPlaced w w' segment.toSegment desired := by
  induction desired generalizing w tr n with
  | nil =>
    obtain ⟨_, _, rfl⟩ := runs_done.mp h
    exact ⟨hw, rfl, fun _ _ => rfl, .nil⟩
  | cons host desired ih =>
    rw [List.map_cons, List.nodup_cons] at hnodup
    obtain ⟨hhost, hsees⟩ := List.forall_mem_cons.mp hsee
    rw [existing_filter hnames] at hhost
    -- What follows the host, once it is placed, whatever the change.
    have hrest : ∀ {w₁ : Masakari} {tr₁ : List SegmentEvent} {m : Nat},
        HostsPlaced w w₁ segment.toSegment [host] →
        Runs KeepStep w₁ (changeHosts segment existing false desired) tr₁ (.ok m) w' →
        HostsPlaced w w' segment.toSegment (host :: desired) := by
      intro w₁ tr₁ m hplaced hloop
      refine .cons hnodup.1 hplaced (ih hplaced.sound hnodup.2 (fun d hd => ?_) hloop)
      refine (hplaced.placed.lookup ?_).trans (hsees d hd)
      intro hsame
      rw [List.map_singleton, List.mem_singleton] at hsame
      exact hnodup.1 (hsame ▸ List.mem_map_of_mem hd)
    simp only [changeHosts, Prog.bind_def, Prog.pure_def] at h
    cases hfind : existing.find? fun other => other.name = host.name with
    | none =>
      rw [hfind] at hhost
      simp only [hfind] at h
      obtain ⟨w₁, tr₁, m, hev, hloop⟩ := runs_hostChange h
      exact hrest (createHost_placed hw hhost hev) hloop
    | some found =>
      rw [hfind] at hhost
      simp only [hfind] at h
      by_cases hsame : hostUpdates found host = {}
      · rw [if_pos hsame] at h
        have hheld : HostHeld w segment.toSegment host :=
          ⟨found, hhost, hostUpdates_none.mp hsame⟩
        exact hrest ⟨hw, rfl, fun _ _ => rfl, Table.placed_self hheld⟩ h
      · rw [if_neg hsame] at h
        obtain ⟨w₁, tr₁, m, hev, hloop⟩ := runs_hostChange h
        exact hrest (updateHost_placed hw hhost hev) hloop

/-! ## The segment -/

/-- The segment has the declared attributes. -/
structure SegmentSettings (spec : SegmentSpec) (segment : ManagedSegment) : Prop where
  name : segment.name = some spec.name
  serviceType : segment.serviceType = some "COMPUTE"
  recoveryMethod : segment.recoveryMethod = some spec.recoveryMethod
  description : segment.description = some spec.description

theorem segmentUpdates_none {spec : SegmentSpec} :
    segmentUpdates segment spec = {} ↔ segment.recoveryMethod = some spec.recoveryMethod ∧
      segment.description = some spec.description := by
  rw [segmentUpdates, SegmentUpdates.mk.injEq]
  simp only [differing_none]

theorem segmentUpdates_apply {spec : SegmentSpec} (hname : segment.name = some spec.name)
    (htype : segment.serviceType = some "COMPUTE") :
    SegmentSettings spec ((segmentUpdates segment spec).apply segment) :=
  ⟨hname, htype, differing_or _ _, differing_or _ _⟩

theorem updateSegment_keeps {spec : SegmentSpec} {r : Except ReconcileExn ManagedSegment}
    (hw : w.Sound) (hmem : segment ∈ w.segments) (hname : segment.name = some spec.name)
    (htype : segment.serviceType = some "COMPUTE")
    (h : Runs KeepStep w (updateSegment segment spec false) tr r w') :
    ∃ segment', r = .ok segment' ∧ SegmentSettings spec segment' ∧
      segment'.toSegment = segment.toSegment ∧ w' = w.put segment' ∧ w'.Sound := by
  unfold updateSegment at h
  by_cases hsame : segmentUpdates segment spec = {}
  · rw [if_pos hsame] at h
    obtain ⟨_, rfl, rfl⟩ := runs_done.mp h
    obtain ⟨hmethod, hdescription⟩ := segmentUpdates_none.mp hsame
    refine ⟨segment, rfl, ⟨hname, htype, hmethod, hdescription⟩, rfl, ?_, hw⟩
    rw [Masakari.put, Table.put_self hw.segmentIds hmem]
  · rw [if_neg hsame] at h
    obtain ⟨segment', w₁, tr', _, hev, hrest⟩ := (runs_call keepStep_serves.answering).mp h
    obtain ⟨_, rfl, rfl⟩ := runs_done.mp hrest
    have hw' := keepStep_sound hw hev
    obtain ⟨stored, hstored, hid, rfl, rfl⟩ := keepStep_call hev
    obtain rfl := Table.row_unique (k := ManagedSegment.toSegment) hw.segmentIds hstored hmem hid
    exact ⟨_, rfl, segmentUpdates_apply hname htype, rfl, rfl, hw'⟩

/-- The reconciliation of a segment that is there, from `w` to `w'`. -/
structure SegmentReached (spec : SegmentSpec) (segment segment' : ManagedSegment)
    (w w' : Masakari) : Prop where
  sound : w'.Sound
  settings : SegmentSettings spec segment'
  same : segment'.toSegment = segment.toSegment
  segments : w'.segments = Table.put ManagedSegment.toSegment segment' w.segments
  elsewhere : ∀ other, other ≠ segment.toSegment → w'.hosts other = w.hosts other
  placed : Table.Placed ManagedHost.name DesiredHost.name HasAttributes
    (w.hosts segment.toSegment) (w'.hosts segment.toSegment) spec.hosts
  names : (w.names segment.toSegment).Nodup

theorem reconcileExisting_keeps {spec : SegmentSpec} {created : Bool} {report : SegmentReport}
    (hw : w.Sound) (hmem : segment ∈ w.segments) (hname : segment.name = some spec.name)
    (htype : segment.serviceType = some "COMPUTE")
    (hnodup : (spec.hosts.map DesiredHost.name).Nodup)
    (h : Runs KeepStep w
      (MasakariSegment.reconcileExisting spec false created segment) tr (.ok report) w') :
    (∃ segment', SegmentReached spec segment segment' w w') ∧
      report.extraHosts = extraHosts spec (w.hosts segment.toSegment) := by
  simp only [MasakariSegment.reconcileExisting, MasakariSegment.checked, Prog.bind_def,
    Prog.bind_request, Prog.pure_def] at h
  rcases runs_bind.mp h with ⟨updated, tr₁, tr₂, w₁, _, hupdate, hrest⟩ | ⟨e, _, herr⟩
  · obtain ⟨segment', hok, hsettings, hid, hput, hw₁⟩ :=
      updateSegment_keeps hw hmem hname htype hupdate
    cases hok
    have hhosts : w₁.hosts = w.hosts := by
      rw [hput]
      rfl
    obtain ⟨existing, w₂, tr₃, _, hev, hcheck⟩ :=
      (runs_call keepStep_serves.answering).mp hrest
    obtain ⟨rfl, rfl⟩ := keepStep_serves.hosts hev
    cases hdup : checkExisting (w₂.hosts updated.toSegment) [] with
    | error e =>
      rw [hdup] at hcheck
      cases (runs_done.mp hcheck).2.1
    | ok u =>
      have hnames := (checkExisting_ok.mp hdup).1
      rw [hdup, Prog.bind_ok] at hcheck
      rcases runs_bind.mp hcheck with ⟨n, tr₄, tr₅, w₃, _, hloop, hend⟩ | ⟨e, _, herr⟩
      · obtain ⟨_, hreport, rfl⟩ := runs_done.mp hend
        have hplaced := changeHosts_keeps hw₁ hnames hnodup (fun _ _ => rfl) hloop
        have helse := hplaced.elsewhere
        have hrows := hplaced.placed
        rw [hid, hhosts] at helse hrows hnames
        refine ⟨⟨updated, hplaced.sound, hsettings, hid, ?_, helse, hrows, hnames⟩, ?_⟩
        · rw [hplaced.segments, hput]
          rfl
        · cases hreport
          rw [hid, hhosts]
          rfl
      · cases herr
  · cases herr

/-! ## Whole runs -/

/-- The hosts that the specification does not declare. -/
def undeclaredHosts (spec : SegmentSpec) (hosts : List ManagedHost) : List ManagedHost :=
  hosts.filter fun host => decide (host.name ∉ spec.hosts.map DesiredHost.name)

theorem extraHosts_names (spec : SegmentSpec) (existing : List ManagedHost) :
    extraHosts spec existing =
      ((undeclaredHosts spec existing).map ManagedHost.name).mergeSort := by
  rw [extraHosts, undeclaredHosts, List.filter_map]
  rfl

/-- The segment of the name: it is the only one, and has what is declared, with its hosts. -/
structure SettledSegment (spec : SegmentSpec) (w : Masakari) (segment : ManagedSegment) :
    Prop where
  sole : w.segments.filter (fun s => s.name = some spec.name) = [segment]
  settings : SegmentSettings spec segment
  hosts : ∀ host ∈ spec.hosts, HostHeld w segment.toSegment host
  names : (w.names segment.toSegment).Nodup

/-- Everything that is not declared is as before, and the segment is the one that was there. -/
structure UntouchedSegments (spec : SegmentSpec) (w w' : Masakari) (segment : ManagedSegment) :
    Prop where
  same : ∀ before ∈ w.segments, before.name = some spec.name →
    before.toSegment = segment.toSegment
  segments : w'.segments.filter (fun s => s.name ≠ some spec.name) =
    w.segments.filter fun s => s.name ≠ some spec.name
  elsewhere : ∀ other, other ≠ segment.toSegment → w'.hosts other = w.hosts other
  undeclared : undeclaredHosts spec (w'.hosts segment.toSegment) =
    undeclaredHosts spec (w.hosts segment.toSegment)

variable {spec : SegmentSpec}

theorem SegmentReached.settledIn {segment' : ManagedSegment}
    (h : SegmentReached spec segment segment' w w') (hw : w.Sound)
    (hsole : w.segments.filter (fun s => s.name = some spec.name) = [segment]) :
    SettledSegment spec w' segment' := by
  refine ⟨?_, h.settings, ?_, ?_⟩
  · rw [h.segments]
    exact Table.filter_put_single hw.segmentIds hsole h.same.symm (decide_eq_true h.settings.name)
  · rw [h.same]
    exact h.placed.held
  · rw [h.same]
    exact h.placed.nodup h.names

theorem SegmentReached.others {segment' : ManagedSegment}
    (h : SegmentReached spec segment segment' w w') (hw : w.Sound) (hmem : segment ∈ w.segments)
    (hname : segment.name = some spec.name) :
    w'.segments.filter (fun s => s.name ≠ some spec.name) =
      w.segments.filter fun s => s.name ≠ some spec.name := by
  rw [h.segments]
  refine Table.filter_put_of_not (fun r hr hkey => ?_) ?_
  · obtain rfl := Table.row_unique (k := ManagedSegment.toSegment) hw.segmentIds hr hmem
      (hkey.trans h.same)
    simp [hname]
  · simp [h.settings.name]

theorem SegmentReached.undeclared {segment' : ManagedSegment}
    (h : SegmentReached spec segment segment' w w') :
    undeclaredHosts spec (w'.hosts segment.toSegment) =
      undeclaredHosts spec (w.hosts segment.toSegment) := by
  refine h.placed.frame (fun name => decide (name ∉ spec.hosts.map DesiredHost.name)) ?_
  intro host hhost
  exact decide_eq_false (not_not_intro (List.mem_map_of_mem hhost))

theorem normalizeSegmentSpec_names {rt : PyRuntime} {raw : Value}
    (h : normalizeSegmentSpec rt raw = .ok spec) : (spec.hosts.map DesiredHost.name).Nodup := by
  cases raw with
  | dict kvs =>
    simp only [normalizeSegmentSpec, pyBind_ok, pyPure_ok] at h
    obtain ⟨_, _, _, _, _, _, _, _, hosts, hhosts, _, _, rfl⟩ := h
    exact (normalizeHosts_sound hhosts).2.1
  | _ => cases h

/-- A successful run settles the segment, leaves the rest untouched, and reports the undeclared
hosts. -/
theorem reconcileSegment_settles {rt : PyRuntime} {raw : Value} {report : SegmentReport}
    (hw : w.Sound)
    (h : Runs KeepStep w (reconcileSegment rt raw false) tr (.ok report) w') :
    ∃ spec segment, normalizeSegmentSpec rt raw = .ok spec ∧ SettledSegment spec w' segment ∧
      UntouchedSegments spec w w' segment ∧
      report.extraHosts =
        ((undeclaredHosts spec (w'.hosts segment.toSegment)).map ManagedHost.name).mergeSort := by
  rcases reconcileSegment_runs keepStep_serves h with ⟨_, _, _, herr⟩ | ⟨spec, tr', hspec, _, hrest⟩
  · cases herr
  have hnodup := normalizeSegmentSpec_names hspec
  rcases hmatch : w.segments.filter (fun segment => segment.name = some spec.name) with
    _ | ⟨segment, _ | ⟨second, more⟩⟩
  · simp only [hmatch, Bool.false_eq_true, if_false] at hrest
    obtain ⟨segment, w₁, tr₁, _, hev, hexisting⟩ :=
      (runs_call keepStep_serves.answering).mp hrest
    have hw₁ := keepStep_sound hw hev
    obtain ⟨⟨hname, htype, _, _⟩, hfresh, rfl⟩ := keepStep_call hev
    have hmem : segment ∈ w.segments ++ [segment] :=
      List.mem_append_right _ (List.mem_singleton.mpr rfl)
    have hsole : (w.segments ++ [segment]).filter (fun s => s.name = some spec.name) =
        [segment] := by
      rw [List.filter_append, hmatch, List.filter_singleton]
      simp [hname]
    obtain ⟨⟨segment', hreach⟩, hextra⟩ :=
      reconcileExisting_keeps hw₁ hmem hname htype hnodup hexisting
    have hothers := hreach.others hw₁ hmem hname
    have hnone : Function.update w.hosts segment.toSegment [] segment.toSegment =
        w.hosts segment.toSegment := by
      rw [Function.update_self, hw.owned _ hfresh]
    have hundeclared := hreach.undeclared
    refine ⟨spec, segment', hspec, hreach.settledIn hw₁ hsole, ⟨?_, ?_, ?_, ?_⟩, ?_⟩
    · intro before hbefore hsame
      have hmem : before ∈ w.segments.filter fun s => s.name = some spec.name :=
        List.mem_filter.mpr ⟨hbefore, decide_eq_true hsame⟩
      rw [hmatch] at hmem
      cases hmem
    · rw [hothers, List.filter_append, List.filter_singleton]
      simp [hname]
    · intro other hother
      rw [hreach.same] at hother
      rw [hreach.elsewhere other hother]
      exact Function.update_of_ne hother _ _
    · rw [hreach.same, hundeclared]
      exact congrArg (undeclaredHosts spec) hnone
    · rw [hextra, extraHosts_names, hreach.same, hundeclared]
  · simp only [hmatch, MasakariSegment.checked, refuseIf] at hrest
    obtain ⟨hmem, hname, hsole⟩ := Table.sole_of_filter hmatch
    split at hrest
    · cases (runs_done.mp hrest).2.1
    · rename_i htype
      have htype : segment.serviceType = some "COMPUTE" := by simpa using htype
      obtain ⟨⟨segment', hreach⟩, hextra⟩ :=
        reconcileExisting_keeps hw hmem hname htype hnodup hrest
      have hundeclared := hreach.undeclared
      refine ⟨spec, segment', hspec, hreach.settledIn hw hmatch,
        ⟨?_, hreach.others hw hmem hname, ?_, ?_⟩, ?_⟩
      · intro before hbefore hsame
        rw [hsole before hbefore hsame, hreach.same]
      · rw [hreach.same]
        exact hreach.elsewhere
      · rw [hreach.same, hundeclared]
      · rw [hextra, extraHosts_names, hreach.same, hundeclared]
  · simp only [hmatch] at hrest
    cases (runs_raise.mp hrest).2.1

/-- Where all hosts are held, the loop over them makes no change. -/
theorem changeHosts_held {desired : List DesiredHost} {checkMode : Bool}
    (h : ∀ host ∈ desired, HostHeld w segment.toSegment host) :
    changeHosts segment (w.hosts segment.toSegment) checkMode desired = .done (.ok 0) := by
  induction desired with
  | nil => rfl
  | cons host desired ih =>
    obtain ⟨⟨found, hrow, hattributes⟩, hrest⟩ := List.forall_mem_cons.mp h
    have hfind : (w.hosts segment.toSegment).find? (fun h => h.name = host.name) = some found := by
      rw [← List.head?_filter, hrow]
      rfl
    simp [changeHosts, hfind, hostUpdates_none.mpr hattributes, ih hrest]

/-- On a settled segment a run reports no change, and makes none. -/
theorem reconcileSegment_settled {rt : PyRuntime} {raw : Value} {checkMode : Bool}
    {r : Except ReconcileExn SegmentReport} (hspec : normalizeSegmentSpec rt raw = .ok spec)
    (hs : SettledSegment spec w segment)
    (h : Runs KeepStep w (reconcileSegment rt raw checkMode) tr r w') :
    (∃ report, r = .ok report ∧ report.changed = false) ∧
      (∀ ev ∈ tr, writes ev.op = false) ∧ w' = w := by
  rcases reconcileSegment_runs keepStep_serves h with ⟨_, hspec', _⟩ | ⟨spec', tr', hspec', rfl, hrest⟩
  · rw [hspec] at hspec'
    cases hspec'
  · rw [hspec] at hspec'
    cases hspec'
    have hupdates : segmentUpdates segment spec = {} :=
      segmentUpdates_none.mpr ⟨hs.settings.recoveryMethod, hs.settings.description⟩
    simp only [hs.sole, MasakariSegment.checked, refuseIf, hs.settings.serviceType,
      MasakariSegment.reconcileExisting, updateSegment, hupdates, if_true, bne_self_eq_false,
      Bool.false_eq_true, if_false, Prog.bind_def, Prog.pure_def, Prog.bind_ok,
      Prog.bind_request] at hrest
    obtain ⟨existing, w₁, tr₁, rfl, hev, hcheck⟩ :=
      (runs_call keepStep_serves.answering).mp hrest
    obtain ⟨rfl, rfl⟩ := keepStep_serves.hosts hev
    have hnames : checkExisting (w₁.hosts segment.toSegment) [] = .ok () :=
      checkExisting_ok.mpr ⟨hs.names, by simp⟩
    have hloop : changeHosts segment (w₁.hosts segment.toSegment) checkMode spec.hosts =
        .done (.ok 0) := changeHosts_held hs.hosts
    simp only [hnames, hloop, Prog.bind_ok] at hcheck
    obtain ⟨rfl, rfl, rfl⟩ := runs_done.mp hcheck
    exact ⟨⟨_, rfl, by simp⟩, by simp [writes], rfl⟩

/-! ### Check mode -/

/-- A part of a reconciliation that changes nothing. -/
abbrev ReadsOnly {α : Type} (p : SegmentOp α) : Prop := p.Uses fun op => writes op = false

theorem checkedSegment_reads {α : Type} (r : Except ReconcileExn α) :
    ReadsOnly (MasakariSegment.checked r) := by
  cases r <;> trivial

theorem changeHosts_reads (existing : List ManagedHost) (desired : List DesiredHost) :
    ReadsOnly (changeHosts segment existing true desired) := by
  induction desired with
  | nil => trivial
  | cons host desired ih =>
    unfold changeHosts
    split
    · exact ih.bind fun _ => trivial
    · split
      · exact ih
      · exact ih.bind fun _ => trivial

theorem existingSegment_reads (created : Bool) :
    ReadsOnly (MasakariSegment.reconcileExisting spec true created segment) := by
  have hupdate : updateSegment segment spec true = pure segment := by
    unfold updateSegment
    split <;> rfl
  simp only [MasakariSegment.reconcileExisting, hupdate, Prog.bind_def, Prog.pure_def,
    Prog.bind_ok, Prog.bind_request]
  refine ⟨rfl, fun existing => ?_⟩
  exact (checkedSegment_reads _).bind fun _ => (changeHosts_reads _ _).bind fun _ => trivial

theorem reconcileSegment_reads (rt : PyRuntime) (raw : Value) :
    ReadsOnly (reconcileSegment rt raw true) := by
  refine (checkedSegment_reads _).bind fun spec => ⟨rfl, fun segments => ?_⟩
  simp only [Prog.bind_ok]
  split
  · trivial
  · exact (checkedSegment_reads _).bind fun _ => existingSegment_reads _
  · trivial

theorem keepStep_unchanged {ev : SegmentEvent} (hs : KeepStep w ev w') (h : writes ev.op = false) :
    w' = w := by
  obtain ⟨op, answer⟩ := ev
  cases hs with
  | answered ha =>
    cases op with
    | segments => exact ha.2
    | hosts segment => exact ha.2
    | createSegment name serviceType recoveryMethod description => cases h
    | updateSegment segment updates => cases h
    | createHost segment attrs => cases h
    | updateHost host segmentId updates => cases h

end Run

/-! ## A store that runs -/

/-- The answer of a call about what is there. -/
def Masakari.answer (w : Masakari) : {τ : Type} → InstanceHaCall τ → Option (τ × Masakari)
  | _, .segments => some (w.segments, w)
  | _, .hosts segment => some (w.hosts segment.toSegment, w)
  | _, .createSegment name serviceType recoveryMethod description =>
    let segment : ManagedSegment := {
      id := freshId (w.segmentIds.map Segment.id)
      name := name
      serviceType := serviceType
      recoveryMethod := recoveryMethod
      description := description }
    some (segment, {
      segments := w.segments ++ [segment]
      hosts := Function.update w.hosts segment.toSegment [] })
  | _, .updateSegment segment updates =>
    (w.segments.find? fun s => s.toSegment = segment.toSegment).map fun stored =>
      (updates.apply stored, w.put (updates.apply stored))
  | _, .createHost segment attrs =>
    if segment.toSegment ∈ w.segmentIds then
      some ((), w.setHosts segment.toSegment (w.hosts segment.toSegment ++
        [attrs.create (freshId ((w.hosts segment.toSegment).map ManagedHost.id))]))
    else none
  | _, .updateHost host segmentId updates =>
    ((w.hosts ⟨segmentId⟩).find? fun h => h.id = host.id).map fun stored =>
      ((), w.setHosts ⟨segmentId⟩
        (Table.put ManagedHost.id (updates.apply stored) (w.hosts ⟨segmentId⟩)))

/-- A store that refuses what it does not have. -/
def keepSim : Simulator InstanceHaCall ReconcileExn Masakari := fun w _ op =>
  match w.answer op with
  | some (a, w') => (.ok a, w')
  | none => (.error (.raised "not found"), w)

theorem answer_keeps {w w' : Masakari} {τ : Type} {op : InstanceHaCall τ} {a : τ}
    (h : w.answer op = some (a, w')) : w.Keeps op a w' := by
  cases op with
  | segments => cases h; exact ⟨rfl, rfl⟩
  | hosts segment => cases h; exact ⟨rfl, rfl⟩
  | createSegment name serviceType recoveryMethod description =>
    cases h
    refine ⟨⟨rfl, rfl, rfl, rfl⟩, fun hmem => ?_, rfl⟩
    exact freshId_not_mem _ (List.mem_map_of_mem (f := Segment.id) hmem)
  | updateSegment segment updates =>
    obtain ⟨stored, hrow, hstored⟩ := Option.map_eq_some_iff.mp h
    cases hstored
    exact ⟨stored, List.mem_of_find?_eq_some hrow, by simpa using List.find?_some hrow, rfl, rfl⟩
  | createHost segment attrs =>
    obtain ⟨hmem, hstored⟩ := Option.ite_none_right_eq_some.mp h
    cases hstored
    refine ⟨hmem, _, fun host hhost hsame => ?_, rfl⟩
    have hused : host.id ∈ (w.hosts segment.toSegment).map ManagedHost.id :=
      List.mem_map_of_mem hhost
    rw [hsame] at hused
    exact freshId_not_mem _ hused
  | updateHost host segmentId updates =>
    obtain ⟨stored, hrow, hstored⟩ := Option.map_eq_some_iff.mp h
    cases hstored
    exact ⟨stored, List.mem_of_find?_eq_some hrow, by simpa using List.find?_some hrow, rfl⟩

theorem keepSim_step (w : Masakari) {τ : Type} (op : InstanceHaCall τ) (a : τ) (w' : Masakari)
    (hw : w.Sound) (h : keepSim w op = (.ok a, w')) : KeepStep w ⟨op, .ok a⟩ w' ∧ w'.Sound := by
  unfold keepSim at h
  cases hanswer : w.answer op with
  | none =>
    rw [hanswer] at h
    cases h
  | some answer =>
    obtain ⟨b, w₁⟩ := answer
    simp only [hanswer] at h
    cases h
    have hstep : KeepStep w ⟨op, .ok a⟩ w' := .answered (answer_keeps hanswer)
    exact ⟨hstep, keepStep_sound hw hstep⟩

/-! ## Convergence -/

/-- After a successful run the segment is settled and everything undeclared is as before, the
undeclared hosts being the extra ones of the report. The next run reports no change, and makes
none. A check run from the first state makes no change, and foretold the report. -/
theorem segment_converges {rt : PyRuntime} {raw : Value} {w w' w'' wc : Masakari}
    {tr tr' trc : List SegmentEvent} {report : SegmentReport}
    {r rc : Except ReconcileExn SegmentReport} (hw : w.Sound)
    (h : Runs KeepStep w (reconcileSegment rt raw false) tr (.ok report) w')
    (h' : Runs KeepStep w' (reconcileSegment rt raw false) tr' r w'')
    (hcheck : Runs KeepStep w (reconcileSegment rt raw true) trc rc wc) :
    (∃ spec segment, normalizeSegmentSpec rt raw = .ok spec ∧ SettledSegment spec w' segment ∧
      UntouchedSegments spec w w' segment ∧
      report.extraHosts =
        ((undeclaredHosts spec (w'.hosts segment.toSegment)).map ManagedHost.name).mergeSort) ∧
      ((∃ report', r = .ok report' ∧ report'.changed = false) ∧
        (∀ ev ∈ tr', writes ev.op = false) ∧ w'' = w') ∧
      (∀ ev ∈ trc, writes ev.op = false) ∧ wc = w ∧
        ∃ foretold, rc = .ok foretold ∧ foretold.forecast = report.forecast := by
  obtain ⟨spec, segment, hspec, hsettled, huntouched, hextra⟩ := reconcileSegment_settles hw h
  have hreads : ∀ ev ∈ trc, writes ev.op = false := hcheck.uses (reconcileSegment_reads rt raw)
  have hsame : wc = w := hcheck.2.keeps (I := fun u => u = w)
    (fun ev hev _ _ hs hu => (keepStep_unchanged hs (hreads ev hev)).trans hu) rfl
  refine ⟨⟨spec, segment, hspec, hsettled, huntouched, hextra⟩,
    reconcileSegment_settled hspec hsettled h', hreads, hsame, ?_⟩
  have hforetold := reconcileSegment_foretold keepStep_serves hcheck h
  cases rc with
  | error e => cases hforetold
  | ok foretold => exact ⟨foretold, rfl, Except.ok.inj hforetold⟩

/-- A segment with another description, an undeclared host, and the declared one with other
attributes. -/
def outdated : Masakari where
  segments := [{
    id := "1"
    name := "powerops-compute"
    serviceType := "COMPUTE"
    recoveryMethod := "auto"
    description := "old" }]
  hosts segment :=
    if segment = ⟨"1"⟩ then [{ id := "10", name := "compute-07" }, { id := "11", name := "compute-01" }]
    else []

theorem outdated_sound : outdated.Sound := by
  refine ⟨by decide, fun segment => ?_, fun segment hnot => if_neg fun hsame => hnot ?_⟩
  · unfold outdated
    dsimp only
    split
    · decide
    · exact List.nodup_nil
  · rw [hsame]
    decide

/-- A run of the role's segment. -/
def roleRun (checkMode : Bool) (w : Masakari) :
    List SegmentEvent × Except ReconcileExn SegmentReport × Masakari :=
  (reconcileSegment PyRuntime.ascii (soleSegment "node-01") checkMode).simulate keepSim w

theorem roleRun_runs {checkMode : Bool} {w : Masakari} {report : SegmentReport} (hw : w.Sound)
    (h : (roleRun checkMode w).2.1 = .ok report) :
    Runs KeepStep w (reconcileSegment PyRuntime.ascii (soleSegment "node-01") checkMode)
      (roleRun checkMode w).1 (.ok report) (roleRun checkMode w).2.2 ∧
        (roleRun checkMode w).2.2.Sound :=
  runs_of_simulate keepSim_step hw h

theorem segment_converges_outdated :
    ∃ spec segment report, SettledSegment spec (roleRun false outdated).2.2 segment ∧
      (roleRun false (roleRun false outdated).2.2).2.1 = .ok report ∧ report.changed = false := by
  obtain ⟨report, hreport⟩ := ok_of_isOk (by decide +kernel : (roleRun false outdated).2.1.isOk = true)
  obtain ⟨repeated, hrepeated⟩ := ok_of_isOk
    (by decide +kernel : (roleRun false (roleRun false outdated).2.2).2.1.isOk = true)
  obtain ⟨foretold, hforetold⟩ := ok_of_isOk (by decide +kernel : (roleRun true outdated).2.1.isOk = true)
  obtain ⟨hrun, hw⟩ := roleRun_runs outdated_sound hreport
  obtain ⟨⟨spec, segment, _, hsettled, _⟩, ⟨⟨report', hsame, hunchanged⟩, _⟩, _⟩ :=
    segment_converges outdated_sound hrun (roleRun_runs hw hrepeated).1
      (roleRun_runs outdated_sound hforetold).1
  cases hsame
  exact ⟨spec, segment, repeated, hsettled, hrepeated, hunchanged⟩

end Declared
end KollaPowerOps
