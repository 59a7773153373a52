import KollaPowerOps.Lib.Runs
import KollaPowerOps.Lib.Table
import KollaPowerOps.Declared.Identity

/-!
# Declared.SegmentPlan

What a reconciliation of a segment does to Masakari, and when it is refused.

* `Serves`                  : an environment that answers, lists what is there, and keeps the hosts
  where a segment is updated.
* `reconcileSegment_foretold` : a check run reports what a real run reports.
* `HalfApplied`             : the segment differs and two of its hosts share a name.
* `refused_unwritten_iff`   : a refused run has written nothing, but for this case.
-/

namespace KollaPowerOps
namespace Declared

open Effect MasakariSegment

/-- The calls that change Masakari. -/
def writes {τ : Type} : InstanceHaCall τ → Bool
  | .segments => false
  | .hosts _ => false
  | _ => true

/-- An environment that answers every call: the listings with what is there, an update of a segment
with the same segment, whose hosts stay, and a creation with a segment without hosts. -/
structure Serves (env : Env InstanceHaCall ReconcileExn Masakari) : Prop where
  answering : Answering env
  segments : ∀ {w w' segments}, env w ⟨.segments, .ok segments⟩ w' →
    segments = w.segments ∧ w' = w
  hosts : ∀ {w w' segment hosts}, env w ⟨.hosts segment, .ok hosts⟩ w' →
    hosts = w.hosts segment.toSegment ∧ w' = w
  updated : ∀ {w w' segment updates segment'},
    env w ⟨.updateSegment segment updates, .ok segment'⟩ w' →
      segment'.toSegment = segment.toSegment ∧ w'.hosts = w.hosts
  created : ∀ {w w' name serviceType recoveryMethod description segment},
    env w ⟨.createSegment name serviceType recoveryMethod description, .ok segment⟩ w' →
      w'.hosts segment.toSegment = []

theorem masakariStep_serves : Serves MasakariStep where
  answering := by
    intro w ev w' hs
    cases hs
    exact ⟨_, rfl⟩
  segments h := by
    cases h with
    | answered ha => exact ha
  hosts h := by
    cases h with
    | answered ha => exact ha
  updated h := by
    cases h with
    | answered ha => exact ⟨ha.1, ha.2.2⟩
  created h := by
    cases h with
    | answered ha =>
      obtain ⟨_, _, rfl⟩ := ha
      exact Function.update_self _ _ _

theorem checkExisting_ok {hosts : List ManagedHost} {names : List String} :
    checkExisting hosts names = .ok () ↔
      (hosts.map ManagedHost.name).Nodup ∧ ∀ host ∈ hosts, host.name ∉ names := by
  induction hosts generalizing names with
  | nil => simp [checkExisting]
  | cons host hosts ih =>
    simp only [checkExisting, pyBind_ok, refuseIf_ok, ih, List.map_cons, List.nodup_cons,
      List.mem_map, List.mem_cons]
    grind

section Run

variable {env : Env InstanceHaCall ReconcileExn Masakari} {checkMode : Bool} {w w' : Masakari}
  {tr : List SegmentEvent}

/-- The loop over the hosts ends in check mode as it ends for real, whatever the segment. -/
theorem changeHosts_same {segment : ManagedSegment} {existing : List ManagedHost}
    {desired : List DesiredHost} {r : Except ReconcileExn Nat} (segment' : ManagedSegment)
    (henv : Serves env)
    (h : Runs env w (changeHosts segment existing checkMode desired) tr r w') :
    ∃ n, r = .ok n ∧ changeHosts segment' existing true desired = .done (.ok n) := by
  have hchange : ∀ {op : InstanceHaCall Unit} {p : SegmentOp Nat} {w : Masakari}
      {tr : List SegmentEvent} {r : Except ReconcileExn Nat},
      Runs env w ((MasakariSegment.change checkMode () op).bind fun _ =>
        p.bind fun n => .done (.ok (n + 1))) tr r w' →
      ∃ w₁ tr₁ r₁, Runs env w₁ p tr₁ r₁ w' ∧ r = r₁.map (· + 1) := by
    intro op p w tr r h
    have hrest : ∃ w₁ tr₁, Runs env w₁ (p.bind fun n => .done (.ok (n + 1))) tr₁ r w' := by
      cases checkMode with
      | true => exact ⟨w, tr, h⟩
      | false =>
        obtain ⟨_, w₁, tr₁, _, _, hrest⟩ := (runs_call henv.answering).mp h
        exact ⟨w₁, tr₁, hrest⟩
    obtain ⟨w₁, tr₁, hrest⟩ := hrest
    rcases runs_bind.mp hrest with ⟨n, tr₂, tr₃, w₂, _, hp, hend⟩ | ⟨e, hp, rfl⟩
    · obtain ⟨_, rfl, rfl⟩ := runs_done.mp hend
      exact ⟨w₁, tr₂, .ok n, hp, rfl⟩
    · exact ⟨w₁, tr₁, .error e, hp, rfl⟩
  induction desired generalizing w tr r with
  | nil =>
    obtain ⟨_, rfl, _⟩ := runs_done.mp h
    exact ⟨0, rfl, rfl⟩
  | cons host desired ih =>
    simp only [changeHosts, Prog.bind_def, Prog.pure_def] at h ⊢
    cases hfind : existing.find? fun other => other.name = host.name with
    | none =>
      simp only [hfind] at h ⊢
      obtain ⟨w₁, tr₁, r₁, hloop, rfl⟩ := hchange h
      obtain ⟨n, rfl, hn⟩ := ih hloop
      exact ⟨n + 1, rfl, by rw [hn]; rfl⟩
    | some found =>
      simp only [hfind] at h ⊢
      by_cases hsame : hostUpdates found host = {}
      · rw [if_pos hsame] at h ⊢
        exact ih h
      · rw [if_neg hsame] at h ⊢
        obtain ⟨w₁, tr₁, r₁, hloop, rfl⟩ := hchange h
        obtain ⟨n, rfl, hn⟩ := ih hloop
        exact ⟨n + 1, rfl, by rw [hn]; rfl⟩

theorem updateSegment_runs {segment : ManagedSegment} {spec : SegmentSpec}
    {r : Except ReconcileExn ManagedSegment} (henv : Serves env)
    (h : Runs env w (updateSegment segment spec checkMode) tr r w') :
    ∃ segment', r = .ok segment' ∧ segment'.toSegment = segment.toSegment ∧ w'.hosts = w.hosts ∧
      (checkMode = true ∨ segmentUpdates segment spec = {} → tr = []) := by
  unfold updateSegment MasakariSegment.change at h
  by_cases hsame : segmentUpdates segment spec = {}
  · rw [if_pos hsame] at h
    obtain ⟨rfl, rfl, rfl⟩ := runs_done.mp h
    exact ⟨segment, rfl, rfl, rfl, fun _ => rfl⟩
  · rw [if_neg hsame] at h
    cases checkMode with
    | true =>
      obtain ⟨rfl, rfl, rfl⟩ := runs_done.mp h
      exact ⟨segment, rfl, rfl, rfl, fun _ => rfl⟩
    | false =>
      obtain ⟨segment', w₁, tr₁, rfl, hev, hrest⟩ := (runs_call henv.answering).mp h
      obtain ⟨rfl, rfl, rfl⟩ := runs_done.mp hrest
      obtain ⟨hid, hhosts⟩ := henv.updated hev
      exact ⟨segment', rfl, hid, hhosts, fun hnot => by simp [hsame] at hnot⟩

/-- The values of a report that check mode foretells. -/
structure SegmentForecast where
  changed : Bool
  hostsChanged : Nat
  extraHosts : List String
  deriving DecidableEq, Repr

def MasakariSegment.SegmentReport.forecast (report : SegmentReport) : SegmentForecast :=
  ⟨report.changed, report.hostsChanged, report.extraHosts⟩

/-- The names of the hosts that the specification does not declare. -/
def extraHosts (spec : SegmentSpec) (existing : List ManagedHost) : List String :=
  ((existing.map ManagedHost.name).filter fun name =>
    name ∉ spec.hosts.map DesiredHost.name).mergeSort

/-- What a reconciliation of an existing segment reports. -/
def foreseeSegment (spec : SegmentSpec) (created : Bool) (segment : ManagedSegment)
    (existing : List ManagedHost) (n : Nat) : SegmentForecast where
  changed := created || decide (segmentUpdates segment spec ≠ {}) || decide (n > 0)
  hostsChanged := n
  extraHosts := extraHosts spec existing

/-- The reconciliation fails on two hosts of one name, after the segment was updated, and in no
other way. -/
theorem reconcileExisting_segment {spec : SegmentSpec} {segment : ManagedSegment} {created : Bool}
    {r : Except ReconcileExn SegmentReport} (henv : Serves env)
    (h : Runs env w (MasakariSegment.reconcileExisting spec checkMode created segment) tr r w') :
    (∃ e, checkExisting (w.hosts segment.toSegment) [] = .error e ∧ r = .error e ∧
      (checkMode = true ∨ segmentUpdates segment spec = {} → ∀ ev ∈ tr, writes ev.op = false)) ∨
      checkExisting (w.hosts segment.toSegment) [] = .ok () ∧
        ∃ n, changeHosts segment (w.hosts segment.toSegment) true spec.hosts = .done (.ok n) ∧
          r.map SegmentReport.forecast =
            .ok (foreseeSegment spec created segment (w.hosts segment.toSegment) n) := by
  simp only [MasakariSegment.reconcileExisting, MasakariSegment.checked, Prog.bind_def,
    Prog.bind_request, Prog.pure_def] at h
  rcases runs_bind.mp h with ⟨updated, tr₁, tr₂, w₁, rfl, hupdate, hrest⟩ | ⟨e, hupdate, _⟩
  · obtain ⟨_, hok, hid, hhosts, hquiet⟩ := updateSegment_runs henv hupdate
    cases hok
    obtain ⟨existing, w₂, tr₃, rfl, hev, hcheck⟩ := (runs_call henv.answering).mp hrest
    obtain ⟨rfl, rfl⟩ := henv.hosts hev
    rw [hid, hhosts] at hcheck
    cases hdup : checkExisting (w.hosts segment.toSegment) [] with
    | error e =>
      rw [hdup] at hcheck
      obtain ⟨rfl, rfl, _⟩ := runs_done.mp hcheck
      refine .inl ⟨e, rfl, rfl, fun hnot => ?_⟩
      rw [hquiet hnot]
      simp [writes]
    | ok u =>
      refine .inr ⟨rfl, ?_⟩
      rw [hdup, Prog.bind_ok] at hcheck
      rcases runs_bind.mp hcheck with ⟨n, tr₄, tr₅, w₃, _, hloop, hend⟩ | ⟨e, hloop, _⟩
      · obtain ⟨_, rfl, _⟩ := runs_done.mp hend
        obtain ⟨m, hm, hcount⟩ := changeHosts_same segment henv hloop
        cases hm
        exact ⟨n, hcount, rfl⟩
      · obtain ⟨m, hm, _⟩ := changeHosts_same segment henv hloop
        cases hm
  · obtain ⟨_, hok, _⟩ := updateSegment_runs henv hupdate
    cases hok

/-- The segments are read, and the rest follows. -/
theorem runs_segments {α : Type} {k : List ManagedSegment → SegmentOp α}
    {r : Except ReconcileExn α} (henv : Serves env) (h : Runs env w (.call .segments k) tr r w') :
    ∃ tr', tr = ⟨.segments, .ok w.segments⟩ :: tr' ∧ Runs env w (k w.segments) tr' r w' := by
  obtain ⟨segments, w₁, tr', rfl, hev, hrest⟩ := (runs_call henv.answering).mp h
  obtain ⟨rfl, rfl⟩ := henv.segments hev
  exact ⟨tr', rfl, hrest⟩

/-- A run of the module is one past an accepted specification, on the segments of its name. -/
theorem reconcileSegment_runs {rt : PyRuntime} {raw : Value} {r : Except ReconcileExn SegmentReport}
    (henv : Serves env) (h : Runs env w (reconcileSegment rt raw checkMode) tr r w') :
    (∃ e, normalizeSegmentSpec rt raw = .error e ∧ tr = [] ∧ r = .error e) ∨
      ∃ spec tr', normalizeSegmentSpec rt raw = .ok spec ∧
        tr = ⟨.segments, .ok w.segments⟩ :: tr' ∧
        Runs env w (match w.segments.filter fun segment => segment.name = some spec.name with
          | [] =>
            if checkMode then
              .done (.ok {
                changed := true
                segment := spec.name
                segmentUuid := none
                hostsChanged := spec.hosts.length
                extraHosts := [] })
            else
              .call (.createSegment spec.name "COMPUTE" spec.recoveryMethod spec.description)
                (MasakariSegment.reconcileExisting spec checkMode true)
          | [segment] =>
            Prog.bind (MasakariSegment.checked (refuseIf (segment.serviceType != some "COMPUTE")
              "existing segment service_type is not COMPUTE")) fun _ =>
                MasakariSegment.reconcileExisting spec checkMode false segment
          | _ => Prog.raise (.reconciliation
            ("expected exactly one Masakari segment named " ++ spec.name))) tr' r w' := by
  unfold reconcileSegment MasakariSegment.checked at h
  cases hspec : normalizeSegmentSpec rt raw with
  | error e =>
    rw [hspec] at h
    obtain ⟨rfl, rfl, _⟩ := runs_done.mp h
    exact .inl ⟨e, rfl, rfl, rfl⟩
  | ok spec =>
    rw [hspec] at h
    obtain ⟨tr', rfl, hrest⟩ := runs_segments henv h
    exact .inr ⟨spec, tr', rfl, rfl, hrest⟩

/-- A new segment gets all of the desired hosts. -/
theorem changeHosts_new (segment : ManagedSegment) (desired : List DesiredHost) :
    changeHosts segment [] true desired = .done (.ok desired.length) := by
  induction desired with
  | nil => rfl
  | cons host desired ih =>
    simp [changeHosts, MasakariSegment.change, ih]

theorem createdSegment_outcome {spec : SegmentSpec} {r : Except ReconcileExn SegmentReport}
    (henv : Serves env)
    (h : Runs env w
      (.call (.createSegment spec.name "COMPUTE" spec.recoveryMethod spec.description)
        (MasakariSegment.reconcileExisting spec checkMode true)) tr r w') :
    r.map SegmentReport.forecast = .ok ⟨true, spec.hosts.length, []⟩ := by
  obtain ⟨segment, w₁, tr', _, hev, hexisting⟩ := (runs_call henv.answering).mp h
  have hnone := henv.created hev
  rcases reconcileExisting_segment henv hexisting with ⟨e, hdup, _⟩ | ⟨_, n, hcount, hmap⟩
  · rw [hnone] at hdup
    cases hdup
  · rw [hnone, changeHosts_new] at hcount
    cases hcount
    rw [hmap, hnone, foreseeSegment, extraHosts, List.map_nil, List.filter_nil, List.mergeSort_nil]
    rfl

/-- Check mode foretells the real run, from the same state. -/
theorem reconcileSegment_foretold {rt : PyRuntime} {raw : Value} {wc wr : Masakari}
    {trc trr : List SegmentEvent} {rc rr : Except ReconcileExn SegmentReport} (henv : Serves env)
    (hcheck : Runs env w (reconcileSegment rt raw true) trc rc wc)
    (hreal : Runs env w (reconcileSegment rt raw false) trr rr wr) :
    rc.map SegmentReport.forecast = rr.map SegmentReport.forecast := by
  rcases reconcileSegment_runs henv hcheck with ⟨e, hspec, _, rfl⟩ | ⟨spec, trc', hspec, _, hc⟩ <;>
    rcases reconcileSegment_runs henv hreal with
      ⟨e', hspec', _, rfl⟩ | ⟨spec', trr', hspec', _, hr⟩ <;>
    rw [hspec] at hspec' <;> cases hspec'
  · rfl
  · rcases hmatch : w.segments.filter (fun segment => segment.name = some spec.name) with
      _ | ⟨segment, _ | ⟨second, more⟩⟩
    · simp only [hmatch, if_true, Bool.false_eq_true, if_false] at hc hr
      obtain ⟨_, rfl, _⟩ := runs_done.mp hc
      exact (createdSegment_outcome henv hr).symm
    · simp only [hmatch, MasakariSegment.checked, refuseIf] at hc hr
      split at hc
      · rename_i htype
        rw [if_pos htype] at hr
        obtain ⟨_, rfl, _⟩ := runs_done.mp hc
        obtain ⟨_, rfl, _⟩ := runs_done.mp hr
        rfl
      · rename_i htype
        rw [if_neg htype] at hr
        rcases reconcileExisting_segment henv hc with ⟨e, hdup, rfl, _⟩ | ⟨hok, n, hcount, hmap⟩ <;>
          rcases reconcileExisting_segment henv hr with
            ⟨e', hdup', rfl, _⟩ | ⟨hok', n', hcount', hmap'⟩
        · rw [hdup] at hdup'
          cases hdup'
          rfl
        · rw [hdup] at hok'
          cases hok'
        · rw [hok] at hdup'
          cases hdup'
        · rw [hcount] at hcount'
          cases hcount'
          rw [hmap, hmap']
    · simp only [hmatch] at hc hr
      obtain ⟨_, rfl, _⟩ := runs_raise.mp hc
      obtain ⟨_, rfl, _⟩ := runs_raise.mp hr
      rfl

end Run

/-- `update_segment` applies the given attributes and leaves the others. -/
def MasakariSegment.SegmentUpdates.apply (updates : SegmentUpdates) (segment : ManagedSegment) :
    ManagedSegment :=
  { segment with
    recoveryMethod := updates.recoveryMethod.or segment.recoveryMethod
    description := updates.description.or segment.description }

/-- Masakari with one segment replaced. -/
def Masakari.put (w : Masakari) (segment : ManagedSegment) : Masakari :=
  { w with segments := Table.put ManagedSegment.toSegment segment w.segments }

/-! ## Refused specifications -/

/-- The segment exists and would be accepted, its recovery method or description differs, and two of
its hosts share a name. -/
def HalfApplied (rt : PyRuntime) (w : Masakari) (raw : Value) (checkMode : Bool) : Prop :=
  checkMode = false ∧ ∃ spec segment, normalizeSegmentSpec rt raw = .ok spec ∧
    w.segments.filter (fun segment => segment.name = some spec.name) = [segment] ∧
    segment.serviceType = some "COMPUTE" ∧ segmentUpdates segment spec ≠ {} ∧
    ¬ (w.names segment.toSegment).Nodup

theorem duplicate_iff {hosts : List ManagedHost} :
    (∃ e, checkExisting hosts [] = .error e) ↔ ¬ (hosts.map ManagedHost.name).Nodup := by
  cases hcheck : checkExisting hosts [] with
  | ok u => simpa using (checkExisting_ok.mp hcheck).1
  | error e =>
    refine ⟨fun _ hnodup => ?_, fun _ => ⟨e, rfl⟩⟩
    have hok : checkExisting hosts [] = .ok () := checkExisting_ok.mpr ⟨hnodup, by simp⟩
    rw [hcheck] at hok
    cases hok

/-- Outside of this case a refused run has written nothing. -/
theorem refused_unwritten {rt : PyRuntime} {raw : Value} {checkMode : Bool} {w w' : Masakari}
    {tr : List SegmentEvent} {e : ReconcileExn} (hnot : ¬ HalfApplied rt w raw checkMode)
    (h : Runs MasakariStep w (reconcileSegment rt raw checkMode) tr (.error e) w') :
    ∀ ev ∈ tr, writes ev.op = false := by
  have henv := masakariStep_serves
  rcases reconcileSegment_runs henv h with ⟨_, _, rfl, _⟩ | ⟨spec, tr', hspec, rfl, hrest⟩
  · exact List.forall_mem_nil _
  · refine List.forall_mem_cons.mpr ⟨rfl, ?_⟩
    rcases hmatch : w.segments.filter (fun segment => segment.name = some spec.name) with
      _ | ⟨segment, _ | ⟨second, more⟩⟩
    · simp only [hmatch] at hrest
      cases checkMode with
      | true => cases (runs_done.mp hrest).2.1
      | false =>
        rw [if_neg Bool.false_ne_true] at hrest
        cases createdSegment_outcome henv hrest
    · simp only [hmatch, MasakariSegment.checked, refuseIf] at hrest
      split at hrest
      · rw [(runs_done.mp hrest).1]
        exact List.forall_mem_nil _
      · rename_i htype
        rcases reconcileExisting_segment henv hrest with ⟨e', hdup, _, hquiet⟩ | ⟨_, n, _, hmap⟩
        · refine hquiet ?_
          by_contra hdrift
          obtain ⟨hmode, hdrift⟩ := not_or.mp hdrift
          exact hnot ⟨by simpa using hmode, spec, segment, hspec, hmatch, by simpa using htype,
            hdrift, duplicate_iff.mp ⟨e', hdup⟩⟩
        · cases hmap
    · simp only [hmatch] at hrest
      rw [(runs_raise.mp hrest).1]
      exact List.forall_mem_nil _

/-- In this case a run that applies the update is refused after it. -/
theorem halfApplied_writes {rt : PyRuntime} {raw : Value} {checkMode : Bool} {w : Masakari}
    (h : HalfApplied rt w raw checkMode) :
    ∃ tr e w', Runs MasakariStep w (reconcileSegment rt raw checkMode) tr (.error e) w' ∧
      ∃ ev ∈ tr, writes ev.op = true := by
  obtain ⟨rfl, spec, segment, hspec, hmatch, htype, hdrift, hdup⟩ := h
  obtain ⟨e, hdup⟩ := duplicate_iff.mpr hdup
  have henv := masakariStep_serves
  let updated := (segmentUpdates segment spec).apply segment
  let update : SegmentEvent :=
    ⟨.updateSegment segment (segmentUpdates segment spec), .ok updated⟩
  have hupdate : MasakariStep w update (w.put updated) :=
    .answered ⟨rfl, Table.keys_put, rfl⟩
  have hupdates : Runs MasakariStep w (updateSegment segment spec false) [update] (.ok updated)
      (w.put updated) := by
    rw [updateSegment, if_neg hdrift]
    exact (runs_call henv.answering).mpr
      ⟨updated, _, [], rfl, hupdate, runs_done.mpr ⟨rfl, rfl, rfl⟩⟩
  have hexisting : Runs MasakariStep w
      (MasakariSegment.reconcileExisting spec false false segment)
      [update, ⟨.hosts updated, .ok (w.hosts segment.toSegment)⟩] (.error e) (w.put updated) := by
    refine runs_bind.mpr (.inl ⟨updated, [update], _, _, rfl, hupdates, ?_⟩)
    refine (runs_call henv.answering).mpr ⟨_, _, [], rfl, .answered ⟨rfl, rfl⟩, ?_⟩
    simp only [hdup, MasakariSegment.checked, Prog.bind_ok, Prog.bind_def, Prog.bind_error]
    exact runs_done.mpr ⟨rfl, rfl, rfl⟩
  refine ⟨[⟨.segments, .ok w.segments⟩, update, ⟨.hosts updated, .ok (w.hosts segment.toSegment)⟩],
    e, w.put updated, ?_, update, List.mem_cons_of_mem _ List.mem_cons_self, rfl⟩
  unfold reconcileSegment MasakariSegment.checked
  rw [hspec]
  refine (runs_call henv.answering).mpr ⟨_, w, _, rfl, .answered ⟨rfl, rfl⟩, ?_⟩
  have haccepted : refuseIf (segment.serviceType != some "COMPUTE")
      "existing segment service_type is not COMPUTE" = .ok () := by
    simp [refuseIf, htype]
  simp only [hmatch, haccepted, Prog.bind_def, Prog.bind_ok]
  exact hexisting

/-- A refused run has written nothing, unless the segment was updated before two of its hosts were
found to share a name. -/
theorem refused_unwritten_iff {rt : PyRuntime} {w : Masakari} {raw : Value} {checkMode : Bool} :
    (∀ tr e w', Runs MasakariStep w (reconcileSegment rt raw checkMode) tr (.error e) w' →
      ∀ ev ∈ tr, writes ev.op = false) ↔ ¬ HalfApplied rt w raw checkMode := by
  constructor
  · intro hall hhalf
    obtain ⟨tr, e, w', hrun, ev, hev, hwrites⟩ := halfApplied_writes hhalf
    rw [hall tr e w' hrun ev hev] at hwrites
    cases hwrites
  · intro hnot tr e w' hrun
    exact refused_unwritten hnot hrun

/-- A segment with another description than the declared one, and two hosts of one name. -/
def doubled : Masakari where
  segments := [{
    id := "1"
    name := "powerops-compute"
    serviceType := "COMPUTE"
    recoveryMethod := "auto"
    description := "old" }]
  hosts _ := [{ id := "10", name := "compute-01" }, { id := "11", name := "compute-01" }]

/-- The description is updated, and then the hosts are refused. -/
theorem doubled_written :
    ¬ ∀ (rt : PyRuntime) (w w' : Masakari) (raw : Value) (checkMode : Bool)
        (tr : List SegmentEvent) (e : ReconcileExn),
      Runs MasakariStep w (reconcileSegment rt raw checkMode) tr (.error e) w' →
        ∀ ev ∈ tr, writes ev.op = false := by
  intro h
  obtain ⟨spec, hspec⟩ : ∃ spec, normalizeSegmentSpec PyRuntime.ascii (soleSegment "node-01") =
      .ok spec := ⟨_, rfl⟩
  have hhalf : HalfApplied PyRuntime.ascii doubled (soleSegment "node-01") false := by
    cases hspec
    exact ⟨rfl, _, _, rfl, rfl, rfl, by decide, by decide⟩
  obtain ⟨tr, e, w', hrun, ev, hev, hwrites⟩ := halfApplied_writes hhalf
  rw [h _ _ _ _ _ tr e hrun ev hev] at hwrites
  cases hwrites

end Declared
end KollaPowerOps
