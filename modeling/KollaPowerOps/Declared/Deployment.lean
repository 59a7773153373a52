import KollaPowerOps.Declared.Fleet
import KollaPowerOps.Declared.SegmentStore
import KollaPowerOps.Declared.WorkbookStore

/-!
# Declared.Deployment

The role `powerops`: preflight, the declared nodes, the segment of their hosts, the workbook, and
the summary.

* `Deploys`             : a run of the role, up to its end or to the task that fails.
* `Deployed`            : everything that is declared is settled in the three services.
* `deploys_settles`     : a run that gets to its summary leaves everything settled.
* `deployment_converges` : the run after it changes nothing.
-/

namespace KollaPowerOps
namespace Declared

open Effect IronicNode MasakariSegment
open MistralWorkbook (Yaml Mistral MistralEvent MistralStep Normalized reconcileWorkbook
  normalizeWorkbookYaml writtenName)

/-! ## The role -/

/-- What the role is given: the variables, the installation, and the text of the workbook, if there
is a regular file. -/
structure Site where
  rt : PyRuntime
  role : Role
  yaml : Yaml
  data : Mapping
  enableIronic : Bool := true
  enableMasakari : Bool := true
  enableMistral : Bool := true
  enableRedis : Bool := true
  enablePowerops : Bool := true
  workbook : Option String
  requiredActions : List String
  /-- the fencing entry point loads in the container -/
  fencing : Bool := true
  /-- the required actions load in the container -/
  actions : String → Bool := fun _ => true

def mistralContainers : List String := ["mistral_api", "mistral_engine", "mistral_executor"]

/-- `preflight.yml` -/
def Site.preflight (site : Site) : Bool :=
  site.enableIronic && site.enableMasakari && site.enableMistral && site.enableRedis &&
    site.enablePowerops && !(configuredNodes site.data).isEmpty && site.workbook.isSome &&
    site.fencing && mistralContainers.all site.actions

structure Services where
  ironic : Ironic
  masakari : Masakari
  mistral : Mistral

/-- `mistral-db-manage populate` adds actions. -/
def Populated (w w' : Mistral) : Prop := w.actions ⊆ w'.actions ∧ w'.workbooks = w.workbooks

/-- The calls of a run. -/
structure Log where
  ironic : List (List NodeEvent) := []
  masakari : List SegmentEvent := []
  mistral : List MistralEvent := []

/-- The task that has failed. -/
inductive FailedTask where
  | preflight
  | reconcileIronic
  | masakariHosts
  | reconcileMasakari
  | populate
  | reconcileWorkbook
  deriving DecidableEq, Repr

/-- `powerops_deployment_summary` -/
structure Summary where
  ironicNodes : Nat
  ironicChanged : Nat
  masakariSegment : String
  masakariChanged : Bool
  masakariExtraHosts : List String
  mistralWorkbook : String
  mistralChanged : Bool
  workbookSha256 : String

def changedReport : Except ReconcileExn NodeReport → Bool
  | .ok report => report.changed
  | .error _ => false

def summarize (nodes : List (Except ReconcileExn NodeReport)) (segment : SegmentReport)
    (workbook : MistralWorkbook.Report) : Summary where
  ironicNodes := nodes.length
  ironicChanged := nodes.countP changedReport
  masakariSegment := segment.segment
  masakariChanged := segment.changed
  masakariExtraHosts := segment.extraHosts
  mistralWorkbook := workbook.workbook
  mistralChanged := workbook.changed
  workbookSha256 := workbook.definitionSha256

/-- The end of the last task. -/
def conclude (nodes : List (Except ReconcileExn NodeReport)) (segment : SegmentReport) :
    Except ReconcileExn MistralWorkbook.Report → Except FailedTask Summary
  | .ok workbook => .ok (summarize nodes segment workbook)
  | .error _ => .error .reconcileWorkbook

section Deploys

variable (site : Site)

/-- `reconcile_ironic.yml` -/
def IronicRuns (w : Ironic) (trs : List (List NodeEvent))
    (rs : List (Except ReconcileExn NodeReport)) (w' : Ironic) : Prop :=
  LoopRuns StoreStep (reconcileIronic site.rt false) w (configuredNodes site.data) trs rs w'

/-- `powerops_masakari_hosts`, in the segment that is handed to the module. -/
def segmentOf : Except ReconcileExn Value :=
  site.role.segmentSpec site.data (configuredNodes site.data)

/-- The second task of `reconcile_masakari.yml`. -/
def MasakariRuns (raw : Value) (w : Masakari) (tr : List SegmentEvent)
    (r : Except ReconcileExn SegmentReport) (w' : Masakari) : Prop :=
  Runs KeepStep w (reconcileSegment site.rt raw false) tr r w'

/-- The second task of `register_mistral.yml`. -/
def MistralRuns (text : String) (w : Mistral) (tr : List MistralEvent)
    (r : Except ReconcileExn MistralWorkbook.Report) (w' : Mistral) : Prop :=
  Runs (MistralStep site.yaml site.rt) w
    (reconcileWorkbook site.yaml site.rt text false site.requiredActions) tr r w'

/-- A run of the role, which ends with the first task that fails. -/
inductive Deploys : Services → Log → Except FailedTask Summary → Services → Prop where
  | preflight {w : Services} (hpre : site.preflight = false) :
      Deploys w {} (.error .preflight) w
  | ironic {w : Services} {trs : List (List NodeEvent)}
      {rs : List (Except ReconcileExn NodeReport)} {ironic : Ironic}
      (hpre : site.preflight = true) (hironic : IronicRuns site w.ironic trs rs ironic)
      (hfail : ¬ AllReturn rs) :
      Deploys w { ironic := trs } (.error .reconcileIronic) { w with ironic := ironic }
  | hosts {w : Services} {trs : List (List NodeEvent)}
      {rs : List (Except ReconcileExn NodeReport)} {ironic : Ironic} {e : ReconcileExn}
      (hpre : site.preflight = true) (hironic : IronicRuns site w.ironic trs rs ironic)
      (hall : AllReturn rs) (hhosts : segmentOf site = .error e) :
      Deploys w { ironic := trs } (.error .masakariHosts) { w with ironic := ironic }
  | masakari {w : Services} {trs : List (List NodeEvent)}
      {rs : List (Except ReconcileExn NodeReport)} {ironic : Ironic} {raw : Value}
      {tr : List SegmentEvent} {e : ReconcileExn} {masakari : Masakari}
      (hpre : site.preflight = true) (hironic : IronicRuns site w.ironic trs rs ironic)
      (hall : AllReturn rs) (hhosts : segmentOf site = .ok raw)
      (hmasakari : MasakariRuns site raw w.masakari tr (.error e) masakari) :
      Deploys w { ironic := trs, masakari := tr } (.error .reconcileMasakari)
        { w with ironic := ironic, masakari := masakari }
  | populate {w : Services} {trs : List (List NodeEvent)}
      {rs : List (Except ReconcileExn NodeReport)} {ironic : Ironic} {raw : Value}
      {tr : List SegmentEvent} {segment : SegmentReport} {masakari : Masakari}
      (hpre : site.preflight = true) (hironic : IronicRuns site w.ironic trs rs ironic)
      (hall : AllReturn rs) (hhosts : segmentOf site = .ok raw)
      (hmasakari : MasakariRuns site raw w.masakari tr (.ok segment) masakari) :
      Deploys w { ironic := trs, masakari := tr } (.error .populate)
        { w with ironic := ironic, masakari := masakari }
  | mistral {w : Services} {trs : List (List NodeEvent)}
      {rs : List (Except ReconcileExn NodeReport)} {ironic : Ironic} {raw : Value}
      {tr : List SegmentEvent} {segment : SegmentReport} {masakari : Masakari} {text : String}
      {populated mistral : Mistral} {tr' : List MistralEvent}
      {r : Except ReconcileExn MistralWorkbook.Report}
      (hpre : site.preflight = true) (hironic : IronicRuns site w.ironic trs rs ironic)
      (hall : AllReturn rs) (hhosts : segmentOf site = .ok raw)
      (hmasakari : MasakariRuns site raw w.masakari tr (.ok segment) masakari)
      (hpopulate : Populated w.mistral populated) (htext : site.workbook = some text)
      (hmistral : MistralRuns site text populated tr' r mistral) :
      Deploys w { ironic := trs, masakari := tr, mistral := tr' }
        (conclude rs segment r) ⟨ironic, masakari, mistral⟩

end Deploys

/-! ## What a deployment is for -/

/-- Everything that is declared is settled. -/
structure Deployed (site : Site) (w : Services) : Prop where
  fleet : Fleet site.rt (configuredNodes site.data) w.ironic
  segment : ∃ raw spec segment, segmentOf site = .ok raw ∧
    normalizeSegmentSpec site.rt raw = .ok spec ∧ SettledSegment spec w.masakari segment
  workbook : ∃ text desired, site.workbook = some text ∧
    normalizeWorkbookYaml site.yaml site.rt text = .ok desired ∧
    MistralWorkbook.Settled site.yaml site.rt desired site.requiredActions w.mistral

/-- What is not declared is as before: the other nodes and ports, the other segments, the other hosts of
the segment and their attributes, and the other workbooks. -/
structure Undeclared (site : Site) (w w' : Services) : Prop where
  ironic : Beside site.rt (configuredNodes site.data) w.ironic w'.ironic
  masakari : ∃ raw spec segment, segmentOf site = .ok raw ∧
    normalizeSegmentSpec site.rt raw = .ok spec ∧
    UntouchedSegments spec w.masakari w'.masakari segment
  mistral : ∀ text name, site.workbook = some text → writtenName site.yaml site.rt text ≠ some name →
    w'.mistral.named name = w.mistral.named name

/-- No service is written to. -/
structure Log.ReadOnly (log : Log) : Prop where
  ironic : ∀ tr ∈ log.ironic, ∀ ev ∈ tr, mutates ev.op = false
  masakari : ∀ ev ∈ log.masakari, writes ev.op = false
  mistral : MistralWorkbook.ReadOnly log.mistral

/-- No task has changed anything. -/
structure Summary.Unchanged (summary : Summary) : Prop where
  ironic : summary.ironicChanged = 0
  masakari : summary.masakariChanged = false
  mistral : summary.mistralChanged = false

section Convergence

variable {site : Site} {w w' w'' : Services} {log log' : Log} {summary : Summary}
  {r : Except FailedTask Summary}

theorem populated_settled {desired : Normalized} {v v' : Mistral} (hpopulate : Populated v v')
    (h : MistralWorkbook.Settled site.yaml site.rt desired site.requiredActions v) :
    MistralWorkbook.Settled site.yaml site.rt desired site.requiredActions v' := by
  obtain ⟨hrequired, stored, current, hnamed, hrest⟩ := h
  refine ⟨List.Subset.trans hrequired hpopulate.1, stored, current, ?_, hrest⟩
  rw [MistralWorkbook.Mistral.named, hpopulate.2]
  exact hnamed

/-- The workbooks of other names are as they were. -/
theorem mistralRuns_named {text name : String} {v v' : Mistral} {tr : List MistralEvent}
    {report : MistralWorkbook.Report} (hyaml : site.yaml.Inverse)
    (hname : writtenName site.yaml site.rt text ≠ some name)
    (h : MistralRuns site text v tr (.ok report) v') : v'.named name = v.named name := by
  cases hdesired : normalizeWorkbookYaml site.yaml site.rt text with
  | error e =>
    rw [MistralRuns, reconcileWorkbook, hdesired] at h
    cases (runs_done.mp h).2.1
  | ok desired =>
    rcases MistralWorkbook.reconcileWorkbook_runs hdesired h with ⟨plan, -, hcompared, hend⟩ |
      ⟨-, -, e, he, -⟩
    · have hwritten := (MistralWorkbook.normalize_definition hyaml hdesired).2.2
      have hput : ∀ written, writtenName site.yaml site.rt desired.definition = some written →
          (v.put ⟨written, desired.definition⟩).named name = v.named name := by
        intro written hdefinition
        rw [hdefinition] at hwritten
        have hother : written ≠ name := fun hsame => hname (hwritten ▸ congrArg some hsame)
        rw [MistralWorkbook.Mistral.named, MistralWorkbook.Mistral.put, List.filter_append,
          List.filter_filter, List.filter_singleton, MistralWorkbook.Mistral.named]
        simp only [hother, decide_false, cond_false, List.append_nil]
        refine List.filter_congr fun stored _ => ?_
        by_cases hstored : stored.name = name
        · simp [hstored, hother.symm]
        · simp [hstored]
      cases hend with
      | same => rfl
      | written hstores =>
        cases hcompared with
        | absent =>
          obtain ⟨written, hdefinition, rfl⟩ := hstores
          exact hput written hdefinition
        | differs =>
          obtain ⟨written, hdefinition, rfl⟩ := hstores
          exact hput written hdefinition
    · cases he

/-- What a run that gets to its summary has found accepted. -/
theorem Deploys.ended (h : Deploys site w log (.ok summary) w') :
    site.preflight = true ∧ ∃ trs rs raw tr segment text populated tr' workbook,
      IronicRuns site w.ironic trs rs w'.ironic ∧ AllReturn rs ∧ segmentOf site = .ok raw ∧
      MasakariRuns site raw w.masakari tr (.ok segment) w'.masakari ∧
      Populated w.mistral populated ∧ site.workbook = some text ∧
      MistralRuns site text populated tr' (.ok workbook) w'.mistral := by
  generalize hr : (Except.ok summary : Except FailedTask Summary) = r at h
  cases h with
  | mistral hpre hironic hall hhosts hmasakari hpopulate htext hmistral =>
    rename_i r'
    cases r' with
    | ok report =>
      exact ⟨hpre, _, _, _, _, _, _, _, _, report, hironic, hall, hhosts, hmasakari, hpopulate,
        htext, hmistral⟩
    | error e => cases hr
  | _ => cases hr

variable (hlower : ∀ s, site.rt.lower (site.rt.lower s) = site.rt.lower s)
  (hyaml : site.yaml.Inverse) (hraws : ∀ raw ∈ configuredNodes site.data, raw.WellFormed)
  (hnames : ((configuredNodes site.data).map (nodeText site.rt "name")).Nodup)
  (hworkbook : ∀ text name, site.workbook = some text →
    writtenName site.yaml site.rt text = some name → pyStrip name = name)
include hlower hyaml hraws hnames hworkbook

/-- A run that gets to its summary leaves everything settled, and what is not declared alone. -/
theorem deploys_settles (hironic : w.ironic.Sound) (hmasakari : w.masakari.Sound)
    (h : Deploys site w log (.ok summary) w') : Deployed site w' ∧ Undeclared site w w' := by
  obtain ⟨-, trs, rs, raw, tr, segment, text, populated, tr', workbook, hloop, hall, hhosts, hsegment,
    hpopulate, htext, hrun⟩ := h.ended
  obtain ⟨hfleet, hbeside, -⟩ := fleet_settles hlower hraws hnames hironic hloop hall
  obtain ⟨spec, stored, hspec, hsettled, huntouched, -⟩ :=
    reconcileSegment_settles hmasakari hsegment
  refine ⟨⟨hfleet, ⟨raw, spec, stored, hhosts, hspec, hsettled⟩, ?_⟩, hbeside,
    ⟨raw, spec, stored, hhosts, hspec, huntouched⟩, ?_⟩
  · cases hdesired : normalizeWorkbookYaml site.yaml site.rt text with
    | error e =>
      rw [MistralRuns, reconcileWorkbook, hdesired] at hrun
      cases (runs_done.mp hrun).2.1
    | ok desired =>
      obtain ⟨name, hwritten, hstrip⟩ := MistralWorkbook.written_of_normalize hdesired
      refine ⟨text, desired, htext, hdesired, MistralWorkbook.settles hyaml hdesired ?_ hrun⟩
      rw [hwritten, hstrip, hworkbook text name htext hwritten]
  · intro text' name htext' hother
    rw [htext] at htext'
    cases htext'
    rw [mistralRuns_named hyaml hother hrun, MistralWorkbook.Mistral.named, hpopulate.2]
    rfl

omit hlower hyaml hraws hnames hworkbook in
/-- **A run where everything is settled** writes to no service. It reports no change, unless a command
or a call of Mistral fails. -/
theorem deployed_runs (hpre : site.preflight = true) (hw : Deployed site w)
    (h : Deploys site w log r w') :
    log.ReadOnly ∧ (w'.ironic = w.ironic ∧ w'.masakari = w.masakari ∧
      w'.mistral.workbooks = w.mistral.workbooks) ∧
      (r = .error .populate ∨ (r = .error .reconcileWorkbook ∧ ¬ MistralWorkbook.Answered log.mistral) ∨
        ∃ summary, r = .ok summary ∧ summary.Unchanged) := by
  obtain ⟨hfleet, ⟨raw, spec, segment, hhosts, hspec, hsegment⟩, text, desired, htext, hdesired,
    hworkbook⟩ := hw
  cases h with
  | preflight hpre' =>
    rw [hpre] at hpre'
    cases hpre'
  | ironic _ hironic hfail =>
    obtain ⟨hreports, -, -⟩ := fleet_settled hfleet hironic
    refine absurd (fun r hr => ?_) hfail
    obtain ⟨report, rfl, -⟩ := hreports r hr
    exact ⟨report, rfl⟩
  | hosts _ _ _ hhosts' =>
    rw [hhosts] at hhosts'
    cases hhosts'
  | masakari _ _ _ hhosts' hmasakari =>
    rw [hhosts] at hhosts'
    cases hhosts'
    obtain ⟨⟨report, herr, -⟩, -⟩ := reconcileSegment_settled hspec hsegment hmasakari
    cases herr
  | populate _ hironic _ hhosts' hmasakari =>
    rw [hhosts] at hhosts'
    cases hhosts'
    obtain ⟨-, hreads, rfl⟩ := fleet_settled hfleet hironic
    obtain ⟨-, hwrites, rfl⟩ := reconcileSegment_settled hspec hsegment hmasakari
    exact ⟨⟨hreads, hwrites, List.forall_mem_nil _⟩, ⟨rfl, rfl, rfl⟩, .inl rfl⟩
  | @mistral _ rs _ _ _ _ _ _ _ _ _ workbook _ hironic hall hhosts' hmasakari hpopulate htext'
      hmistral =>
    rw [hhosts] at hhosts'
    cases hhosts'
    rw [htext] at htext'
    cases htext'
    obtain ⟨hreports, hreads, rfl⟩ := fleet_settled hfleet hironic
    obtain ⟨⟨report, hok, hsame⟩, hwrites, rfl⟩ :=
      reconcileSegment_settled hspec hsegment hmasakari
    cases hok
    have hpopulated := populated_settled hpopulate hworkbook
    obtain ⟨hquiet, hend⟩ := hpopulated.runs hdesired hmistral
    have hkept := hmistral.2.keeps (I := fun u => u.workbooks = w.mistral.workbooks)
      (fun ev hev u u' hstep hu => by rw [MistralWorkbook.step_read hstep (hquiet ev hev), hu])
      hpopulate.2
    refine ⟨⟨hreads, hwrites, hquiet⟩, ⟨rfl, rfl, hkept⟩, .inr ?_⟩
    cases workbook with
    | error e =>
      refine .inl ⟨rfl, fun hanswered => ?_⟩
      obtain ⟨report', herr, -⟩ := hend hanswered
      cases herr
    | ok report' =>
      refine .inr ⟨_, rfl, ⟨?_, hsame, ?_⟩⟩
      · refine List.countP_eq_zero.mpr fun r hr => ?_
        obtain ⟨node, rfl, hunchanged⟩ := hreports r hr
        simp [changedReport, hunchanged]
      · obtain ⟨_, hok, hunchanged⟩ := hend (Returns.answered hmistral.1)
        cases hok
        exact hunchanged

end Convergence

/-! ### One host -/

/-- The declaration of `node-01`, and the workbook `power-ops`. -/
def oneHost : Site where
  rt := PyRuntime.ascii
  role := plainRole
  yaml := MistralWorkbook.exampleYaml "power-ops"
  data := globals [soleNode "node-01"]
  workbook := some (MistralWorkbook.exampleText "power-ops")
  requiredActions := []

/-- The services that the node and the segment have drifted in, with no workbook. -/
def driftedServices : Services := ⟨drifted "enroll" "52:54:00:AA:00:01", outdated, ⟨[], []⟩⟩

/-- The workbook that the module stores. -/
def storedWorkbook : Mistral := Mistral.put ⟨[], []⟩ ⟨"power-ops", MistralWorkbook.exampleText "power-ops"⟩

theorem plain_text : MistralWorkbook.normalizeWorkbookYaml oneHost.yaml oneHost.rt
    (MistralWorkbook.exampleText "power-ops") = .ok (MistralWorkbook.exampleWorkbook "power-ops") :=
  MistralWorkbook.example_normalized "power-ops" (by decide) (by decide)

theorem storedWorkbook_runs : MistralRuns oneHost (MistralWorkbook.exampleText "power-ops")
    storedWorkbook [⟨.listWorkbooks, .ok [⟨"power-ops", MistralWorkbook.exampleText "power-ops"⟩]⟩]
    (.ok ⟨false, "power-ops", MistralWorkbook.exampleText "power-ops"⟩) storedWorkbook := by
  have htext : MistralWorkbook.exampleText "power-ops" ≠ "" := by decide
  refine ⟨?_, .cons (.answered ⟨.cons ⟨rfl, .inr rfl⟩ .nil, rfl⟩) .nil⟩
  rw [reconcileWorkbook, plain_text]
  refine .ret ?_
  have hname : (MistralWorkbook.exampleWorkbook "power-ops").name = "power-ops" := by decide
  have hsha : (MistralWorkbook.exampleWorkbook "power-ops").sha256 =
      MistralWorkbook.exampleText "power-ops" := rfl
  simp [MistralWorkbook.checked, refuseIf, MistralWorkbook.definitionOf, htext, hname, hsha, plain_text,
    Prog.bind_ok]
  exact .nil

theorem oneHost_nodes : configuredNodes oneHost.data = [soleNode "node-01"] := rfl

theorem oneHost_segment : segmentOf oneHost = .ok (soleSegment "node-01") := rfl

/-- The loop over the one node. -/
theorem oneHost_loop {w w' : Ironic} {tr : List NodeEvent} {report : NodeReport}
    (h : Runs StoreStep w (reconcileNode PyRuntime.ascii (soleNode "node-01")) tr (.ok report) w') :
    IronicRuns oneHost w [tr] [.ok report] w' ∧
      AllReturn [(.ok report : Except ReconcileExn NodeReport)] := by
  refine ⟨?_, List.forall_mem_singleton.mpr ⟨report, rfl⟩⟩
  rw [IronicRuns, oneHost_nodes]
  exact .cons h .nil

theorem storedWorkbook_created : ∃ tr report, MistralRuns oneHost
    (MistralWorkbook.exampleText "power-ops") ⟨[], []⟩ tr (.ok report) storedWorkbook := by
  obtain ⟨tr, report, -, hrun⟩ := MistralWorkbook.creates (w := ⟨[], []⟩)
    (MistralWorkbook.exampleYaml_inverse "power-ops") plain_text
    (MistralWorkbook.example_written "power-ops") rfl
  exact ⟨tr, report, hrun⟩

/-- Two deployments of the one host. -/
theorem oneHost_deploys : ∃ log summary w' log' summary' w'',
    Deploys oneHost driftedServices log (.ok summary) w' ∧
      Deploys oneHost w' log' (.ok summary') w'' := by
  obtain ⟨node, hnode⟩ := ok_of_isOk (by decide +kernel : driftedRun.2.1.isOk = true)
  obtain ⟨node', hnode'⟩ := ok_of_isOk (by decide +kernel : repeatedRun.2.1.isOk = true)
  obtain ⟨hrun, hw⟩ := driftedRun_runs hnode
  obtain ⟨hloop, hall⟩ := oneHost_loop hrun
  obtain ⟨hloop', hall'⟩ := oneHost_loop (repeatedRun_runs hw hnode').1
  obtain ⟨segment, hsegment⟩ := ok_of_isOk
    (by decide +kernel : (roleRun false outdated).2.1.isOk = true)
  obtain ⟨segment', hsegment'⟩ := ok_of_isOk
    (by decide +kernel : (roleRun false (roleRun false outdated).2.2).2.1.isOk = true)
  obtain ⟨hmasakari, hw'⟩ := roleRun_runs outdated_sound hsegment
  obtain ⟨tr, report, hmistral⟩ := storedWorkbook_created
  have hpopulated : ∀ v : Mistral, Populated v v := fun v => ⟨List.Subset.refl _, rfl⟩
  have hfirst := Deploys.mistral (w := driftedServices) (by decide) hloop hall oneHost_segment hmasakari
    (hpopulated _) rfl hmistral
  have hsecond := Deploys.mistral
    (w := ⟨driftedRun.2.2, (roleRun false outdated).2.2, storedWorkbook⟩) (by decide) hloop' hall'
    oneHost_segment (roleRun_runs hw' hsegment').1 (hpopulated _) rfl storedWorkbook_runs
  exact ⟨_, _, _, _, _, _, hfirst, hsecond⟩

theorem oneHost_name {text name : String} (htext : oneHost.workbook = some text)
    (hname : writtenName oneHost.yaml oneHost.rt text = some name) : pyStrip name = name := by
  obtain rfl := Option.some.inj htext
  have hwritten : writtenName oneHost.yaml oneHost.rt (MistralWorkbook.exampleText "power-ops") =
      some "power-ops" := MistralWorkbook.example_written "power-ops"
  rw [hwritten] at hname
  obtain rfl := Option.some.inj hname
  decide

end Declared
end KollaPowerOps
