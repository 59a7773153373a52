import KollaPowerOps.Declared.MistralWorkbook

/-!
# Declared.WorkbookStore

Where reconciliations of a workbook lead in a Mistral.

* `reconcileWorkbook_runs` : a run, by what the comparison finds.
* `Settled`                : one workbook of the name, with the data; a run writes nothing then.
* `reconciles_iff`         : the texts that are reconciled.
-/

namespace KollaPowerOps
namespace Declared
namespace MistralWorkbook

open Effect PyText

/-! ## Normalized workbooks -/

section Normalize

variable {yaml : Yaml} {rt : PyRuntime} {text : String}

theorem stripped_written {v : Value} (h : stripped rt v ≠ "") :
    stripped rt v = pyStrip (v.toStr rt) := by
  rw [stripped, textOr, Value.or] at h ⊢
  split
  · rfl
  · rename_i hfalsy
    rw [if_neg hfalsy] at h
    exact absurd rfl h

theorem normalize_ok {n : Normalized} (h : normalizeWorkbookYaml yaml rt text = .ok n) :
    ∃ data, yaml.safeLoad text = .ok (.dict data) ∧ n.name = strippedText rt data "name" ∧
      n.name ≠ "" ∧ n.definition = yaml.safeDump (.dict data) := by
  rw [normalizeWorkbookYaml] at h
  split at h
  · cases h
  · rename_i data hload
    obtain ⟨_, _, h⟩ := pyBind_ok.mp h
    obtain ⟨_, hrefuse, h⟩ := pyBind_ok.mp h
    rw [refuseIf_ok, Bool.or_eq_false_iff, beq_eq_false_iff_ne] at hrefuse
    cases h
    exact ⟨data, hload, rfl, hrefuse.1, rfl⟩
  · cases h

/-- The same data, the same workbook. -/
theorem normalize_congr {other : String} (h : yaml.safeLoad other = yaml.safeLoad text) :
    normalizeWorkbookYaml yaml rt other = normalizeWorkbookYaml yaml rt text := by
  rw [normalizeWorkbookYaml, h, normalizeWorkbookYaml]

/-- What is written is read back. -/
theorem normalize_definition (hyaml : yaml.Inverse) {n : Normalized}
    (h : normalizeWorkbookYaml yaml rt text = .ok n) :
    normalizeWorkbookYaml yaml rt n.definition = .ok n ∧ n.definition ≠ "" ∧
      writtenName yaml rt n.definition = writtenName yaml rt text := by
  obtain ⟨data, hload, -, -, hdefinition⟩ := normalize_ok h
  have hsame : yaml.safeLoad n.definition = yaml.safeLoad text := by
    rw [hdefinition, hload]
    exact hyaml.load_dump text _ hload
  refine ⟨(normalize_congr hsame).trans h, fun hempty => ?_, ?_⟩
  · rw [hempty, hyaml.load_empty, hload] at hsame
    cases hsame
  · rw [writtenName, hsame, writtenName]

theorem written_of_normalize {n : Normalized} (h : normalizeWorkbookYaml yaml rt text = .ok n) :
    ∃ name, writtenName yaml rt text = some name ∧ n.name = pyStrip name := by
  obtain ⟨data, hload, hname, hne, -⟩ := normalize_ok h
  refine ⟨(Value.entry data "name").toStr rt, by rw [writtenName, hload], ?_⟩
  rw [hname] at hne ⊢
  exact stripped_written hne

end Normalize

/-! ## Runs -/

section Runs

variable {yaml : Yaml} {rt : PyRuntime} {w w' : Mistral} {tr : List MistralEvent}

theorem step_stores {τ : Type} {op : MistralCall τ} {a : τ}
    (h : MistralStep yaml rt w ⟨op, .ok a⟩ w') : w.Stores yaml rt op a w' := by
  cases h with
  | answered hs => exact hs

theorem step_fails {τ : Type} {op : MistralCall τ} {e : ReconcileExn}
    (h : MistralStep yaml rt w ⟨op, .error e⟩ w') : w' = w := by
  cases h
  rfl

theorem step_read {ev : MistralEvent} (h : MistralStep yaml rt w ev w')
    (hread : writes ev.op = false) : w' = w := by
  cases h with
  | fails => rfl
  | @answered _ _ op _ hs =>
    cases op with
    | listActionNames => exact hs.2
    | listWorkbooks => exact hs.2
    | getWorkbook name => exact hs.2
    | createWorkbook definition => cases hread
    | updateWorkbook definition => cases hread

/-- A program that only reads leaves Mistral as it is. -/
theorem runs_read {α : Type} {p : WorkbookOp α} {r : Except ReconcileExn α}
    (hp : p.Uses fun op => writes op = false) (h : Runs (MistralStep yaml rt) w p tr r w') :
    ReadOnly tr ∧ w' = w := by
  have hread : ReadOnly tr := h.uses hp
  exact ⟨hread, h.2.keeps (I := fun u => u = w)
    (fun ev hev _ _ hs hu => (step_read hs (hread ev hev)).trans hu) rfl⟩

theorem checked_reads {α : Type} (r : Except ReconcileExn α) :
    (checked r).Uses fun op => writes op = false := by
  cases r <;> trivial

theorem request_reads {τ : Type} {op : MistralCall τ} (h : writes op = false) :
    (Prog.request op : WorkbookOp τ).Uses fun op => writes op = false := ⟨h, fun _ => trivial⟩

theorem requireActions_reads (required : List String) :
    (requireActions required).Uses fun op => writes op = false := by
  rw [requireActions]
  split
  · trivial
  · exact ⟨rfl, fun available => checked_reads _⟩

theorem findWorkbook_reads (name : String) :
    (findWorkbook name).Uses fun op => writes op = false := by
  refine (request_reads rfl).bind fun workbooks => ?_
  exact (checked_reads _).bind fun _ => trivial

theorem definitionOf_reads (name : String) (current : Workbook) :
    (definitionOf name current).Uses fun op => writes op = false := by
  rw [definitionOf]
  split
  · trivial
  · refine (request_reads rfl).bind fun current => ?_
    exact (checked_reads _).bind fun _ => trivial

/-! ### The comparison -/

/-- What the module does before it writes, with what it is to write. -/
def comparison (yaml : Yaml) (rt : PyRuntime) (desired : Normalized) (required : List String) :
    WorkbookOp (Option (MistralCall Unit)) := do
  requireActions required
  let found ← findWorkbook desired.name
  match found with
  | some current => do
    let definition ← definitionOf desired.name current
    let normalized ← checked (normalizeWorkbookYaml yaml rt definition)
    pure (if normalized.sha256 ≠ desired.sha256 then some (.updateWorkbook desired.definition)
      else none)
  | none => pure (some (.createWorkbook desired.definition))

def conclude (desired : Normalized) (checkMode : Bool) :
    Option (MistralCall Unit) → WorkbookOp Report
  | none => pure ⟨false, desired.name, desired.sha256⟩
  | some op => do
    change checkMode op
    pure ⟨true, desired.name, desired.sha256⟩

theorem reconcileWorkbook_eq (yaml : Yaml) (rt : PyRuntime) (text : String) (checkMode : Bool)
    (required : List String) : reconcileWorkbook yaml rt text checkMode required =
      (checked (normalizeWorkbookYaml yaml rt text)).bind fun desired =>
        (comparison yaml rt desired required).bind (conclude desired checkMode) := by
  refine congrArg _ (funext fun desired => ?_)
  simp only [comparison, Prog.bind_def, Prog.bind_assoc]
  refine congrArg _ (funext fun _ => congrArg _ (funext fun found => ?_))
  cases found with
  | none =>
    simp only [Prog.pure_def, Prog.bind_ok, conclude, Prog.bind_def]
  | some current =>
    simp only [Prog.bind_assoc]
    refine congrArg _ (funext fun _ => congrArg _ (funext fun normalized => ?_))
    by_cases hsha : normalized.sha256 ≠ desired.sha256
    · simp only [if_pos hsha, Prog.pure_def, Prog.bind_ok, conclude, Prog.bind_def]
    · simp only [if_neg hsha, Prog.pure_def, Prog.bind_ok, conclude]

theorem comparison_reads (desired : Normalized) (required : List String) :
    (comparison yaml rt desired required).Uses fun op => writes op = false := by
  refine (requireActions_reads required).bind fun _ => ?_
  refine (findWorkbook_reads desired.name).bind fun found => ?_
  cases found with
  | none => trivial
  | some current =>
    refine (definitionOf_reads desired.name current).bind fun _ => ?_
    exact (checked_reads _).bind fun _ => trivial

theorem answered_append {tr' : List MistralEvent} :
    Answered (tr ++ tr') ↔ Answered tr ∧ Answered tr' := List.forall_mem_append

theorem not_answered {τ : Type} {op : MistralCall τ} {e : ReconcileExn} :
    ¬ Answered [⟨op, .error e⟩] := by
  intro h
  obtain ⟨a, ha⟩ := h _ (List.mem_singleton_self _)
  cases ha

theorem missingActions_nil {required available : List String} :
    (missingActions required available).isEmpty = true ↔ required ⊆ available := by
  rw [missingActions, List.isEmpty_iff, ← List.length_eq_zero_iff, List.length_mergeSort,
    List.length_eq_zero_iff, List.filter_eq_nil_iff]
  simp only [OrderedDict.mem_firsts, decide_eq_true_eq, not_not]
  rfl

theorem requireActions_runs {required : List String} {r : Except ReconcileExn Unit}
    (h : Runs (MistralStep yaml rt) w (requireActions required) tr r w') :
    w' = w ∧ ((r = .ok () ∧ required ⊆ w.actions) ∨
      ∃ e, r = .error e ∧ (Answered tr → ¬ required ⊆ w.actions)) := by
  refine ⟨(runs_read (requireActions_reads required) h).2, ?_⟩
  rw [requireActions] at h
  split at h
  · rename_i hempty
    obtain ⟨-, rfl, -⟩ := runs_done.mp h
    rw [List.isEmpty_iff.mp hempty]
    exact .inl ⟨rfl, List.nil_subset _⟩
  · rcases runs_call_cases h with ⟨available, w₁, tr', rfl, hstep, hrest⟩ | ⟨e, rfl, rfl, -⟩
    · obtain ⟨hnames, -⟩ := step_stores hstep
      obtain ⟨-, rfl, -⟩ := runs_done.mp hrest
      rw [← hnames]
      by_cases hmissing : required ⊆ available
      · rw [missingActions_nil.mpr hmissing]
        exact .inl ⟨rfl, hmissing⟩
      · rw [Bool.eq_false_iff.mpr (missingActions_nil.not.mpr hmissing)]
        exact .inr ⟨_, rfl, fun _ => hmissing⟩
    · exact .inr ⟨e, rfl, fun hall => absurd hall not_answered⟩

/-- The workbooks of a name in a listing are those that are stored. -/
theorem shows_filter {stored : List Stored} {workbooks : List Workbook} (name : String)
    (h : List.Forall₂ Shows stored workbooks) :
    List.Forall₂ Shows (stored.filter fun stored => stored.name = name)
      (workbooks.filter fun workbook => workbook.name = some name) := by
  induction h with
  | nil => exact .nil
  | @cons stored workbook rest rest' hshows _ ih =>
    rw [List.filter_cons, List.filter_cons, hshows.1]
    by_cases hname : stored.name = name
    · rw [if_pos (by simpa using hname), if_pos (by simpa using hname)]
      exact .cons hshows ih
    · rw [if_neg (by simpa using hname), if_neg (by simpa using hname)]
      exact ih

theorem findWorkbook_runs {name : String} {r : Except ReconcileExn (Option Workbook)}
    (h : Runs (MistralStep yaml rt) w (findWorkbook name) tr r w') :
    (r = .ok none ∧ w.named name = []) ∨
      (∃ current stored, r = .ok (some current) ∧ w.named name = [stored] ∧
        Shows stored current) ∨
      ∃ e, r = .error e ∧ (Answered tr → 1 < (w.named name).length) := by
  rcases runs_call_cases h with ⟨workbooks, w₁, tr', rfl, hstep, hrest⟩ | ⟨e, rfl, rfl, -⟩
  · have hshows := shows_filter name (step_stores hstep).1
    change List.Forall₂ Shows (w.named name) _ at hshows
    simp only [Prog.bind_ok, Prog.bind_def] at hrest
    generalize (workbooks.filter fun workbook => workbook.name = some name) = found at hshows hrest
    cases hnamed : w.named name with
    | nil =>
      rw [hnamed] at hshows
      cases hshows
      obtain ⟨-, rfl, -⟩ := runs_done.mp hrest
      exact .inl ⟨rfl, rfl⟩
    | cons stored rest =>
      rw [hnamed] at hshows
      obtain ⟨current, found, hcurrent, hfound, rfl⟩ := List.forall₂_cons_left_iff.mp hshows
      cases rest with
      | nil =>
        cases hfound
        obtain ⟨-, rfl, -⟩ := runs_done.mp hrest
        exact .inr (.inl ⟨current, stored, rfl, rfl, hcurrent⟩)
      | cons second rest =>
        obtain ⟨other, found, -, -, rfl⟩ := List.forall₂_cons_left_iff.mp hfound
        rw [refuseIf, decide_eq_true (by simp)] at hrest
        obtain ⟨-, rfl, -⟩ := runs_done.mp hrest
        exact .inr (.inr ⟨_, rfl, fun _ => by simp⟩)
  · exact .inr (.inr ⟨e, rfl, fun hall => absurd hall not_answered⟩)

theorem definitionOf_runs {name : String} {current : Workbook} {stored : Stored}
    {r : Except ReconcileExn String} (hnamed : w.named name = [stored])
    (hshows : Shows stored current)
    (h : Runs (MistralStep yaml rt) w (definitionOf name current) tr r w') :
    r = .ok stored.definition ∨
      ∃ e, r = .error e ∧ (Answered tr → stored.definition = "") := by
  rw [definitionOf] at h
  split at h
  · rename_i hgiven
    obtain ⟨-, rfl, -⟩ := runs_done.mp h
    rcases hshows.2 with hnone | hsome
    · rw [hnone] at hgiven
      cases hgiven
    · exact .inl (by rw [hsome]; rfl)
  · rcases runs_call_cases h with ⟨workbook, w₁, tr', rfl, hstep, hrest⟩ | ⟨e, rfl, rfl, -⟩
    · obtain ⟨⟨stored', hmem, rfl⟩, -⟩ := step_stores hstep
      rw [hnamed, List.mem_singleton] at hmem
      rw [hmem] at hrest
      simp only [Prog.bind_ok, Prog.bind_def, Option.getD_some] at hrest
      by_cases hempty : stored.definition = ""
      · rw [refuseIf, if_pos (beq_iff_eq.mpr hempty)] at hrest
        obtain ⟨-, rfl, -⟩ := runs_done.mp hrest
        exact .inr ⟨_, rfl, fun _ => hempty⟩
      · rw [refuseIf, if_neg (by simpa using hempty)] at hrest
        obtain ⟨-, rfl, -⟩ := runs_done.mp hrest
        exact .inl rfl
    · exact .inr ⟨e, rfl, fun hall => absurd hall not_answered⟩

/-- What the comparison finds, where it finds something. -/
inductive Compared (yaml : Yaml) (rt : PyRuntime) (w : Mistral) (desired : Normalized) :
    Option (MistralCall Unit) → Prop where
  | absent (h : w.named desired.name = []) :
      Compared yaml rt w desired (some (.createWorkbook desired.definition))
  | same {stored : Stored} {current : Normalized} (h : w.named desired.name = [stored])
      (hcurrent : normalizeWorkbookYaml yaml rt stored.definition = .ok current)
      (hsha : current.sha256 = desired.sha256) : Compared yaml rt w desired none
  | differs {stored : Stored} {current : Normalized} (h : w.named desired.name = [stored])
      (hcurrent : normalizeWorkbookYaml yaml rt stored.definition = .ok current)
      (hsha : current.sha256 ≠ desired.sha256) :
      Compared yaml rt w desired (some (.updateWorkbook desired.definition))

/-- The comparison raises something of its own. -/
inductive Refused (yaml : Yaml) (rt : PyRuntime) (w : Mistral) (desired : Normalized)
    (required : List String) : Prop where
  | missing (h : ¬ required ⊆ w.actions)
  | ambiguous (h : 1 < (w.named desired.name).length)
  | empty {stored : Stored} (h : w.named desired.name = [stored]) (hempty : stored.definition = "")
  | invalid {stored : Stored} {e : ReconcileExn} (h : w.named desired.name = [stored])
      (he : normalizeWorkbookYaml yaml rt stored.definition = .error e)

theorem comparison_runs {desired : Normalized} {required : List String}
    {r : Except ReconcileExn (Option (MistralCall Unit))}
    (h : Runs (MistralStep yaml rt) w (comparison yaml rt desired required) tr r w') :
    (∃ plan, r = .ok plan ∧ required ⊆ w.actions ∧ Compared yaml rt w desired plan) ∨
      ∃ e, r = .error e ∧ (Answered tr → Refused yaml rt w desired required) := by
  rcases runs_bind.mp h with ⟨_, tr₁, tr', w₁, rfl, hactions, hrest⟩ | ⟨e, hactions, rfl⟩
  swap
  · obtain ⟨-, ⟨hok, -⟩ | ⟨e', -, hwhy⟩⟩ := requireActions_runs hactions
    · cases hok
    · exact .inr ⟨e, rfl, fun hall => .missing (hwhy hall)⟩
  obtain ⟨rfl, ⟨-, hrequired⟩ | ⟨e', he, -⟩⟩ := requireActions_runs hactions
  swap
  · cases he
  rcases runs_bind.mp hrest with ⟨found, tr₂, tr₃, w₂, rfl, hfind, hmatch⟩ | ⟨e, hfind, rfl⟩
  swap
  · rcases findWorkbook_runs hfind with ⟨hok, -⟩ | ⟨_, _, hok, -⟩ | ⟨e', -, hwhy⟩
    · cases hok
    · cases hok
    · exact .inr ⟨e, rfl, fun hall => .ambiguous (hwhy (answered_append.mp hall).2)⟩
  obtain ⟨-, rfl⟩ := runs_read (findWorkbook_reads desired.name) hfind
  rcases findWorkbook_runs hfind with ⟨hnone, hnamed⟩ | ⟨current, stored, hsome, hnamed, hshows⟩ |
    ⟨e', he, -⟩
  · cases hnone
    obtain ⟨-, rfl, -⟩ := runs_done.mp hmatch
    exact .inl ⟨_, rfl, hrequired, .absent hnamed⟩
  · cases hsome
    rcases runs_bind.mp hmatch with ⟨definition, tr₄, tr₅, w₃, rfl, hdefinition, hend⟩ |
      ⟨e, hdefinition, rfl⟩
    · rcases definitionOf_runs hnamed hshows hdefinition with hok | ⟨e', he, -⟩
      · cases hok
        cases hnormalize : normalizeWorkbookYaml yaml rt stored.definition with
        | error e =>
          rw [hnormalize] at hend
          obtain ⟨-, rfl, -⟩ := runs_done.mp hend
          exact .inr ⟨e, rfl, fun _ => .invalid hnamed hnormalize⟩
        | ok normalized =>
          rw [hnormalize] at hend
          obtain ⟨-, rfl, -⟩ := runs_done.mp hend
          refine .inl ⟨_, rfl, hrequired, ?_⟩
          split
          · exact .differs hnamed hnormalize ‹_›
          · exact .same hnamed hnormalize (not_not.mp ‹_›)
      · cases he
    · rcases definitionOf_runs hnamed hshows hdefinition with hok | ⟨e', -, hwhy⟩
      · cases hok
      · refine .inr ⟨e, rfl, fun hall => .empty hnamed (hwhy ?_)⟩
        exact (answered_append.mp (answered_append.mp hall).2).2
  · cases he

/-- How a run ends once it is known what to write. -/
inductive Concluded (yaml : Yaml) (rt : PyRuntime) (w : Mistral) (desired : Normalized) :
    Bool → Option (MistralCall Unit) → List MistralEvent → Except ReconcileExn Report → Mistral →
      Prop where
  | same {checkMode : Bool} {tr : List MistralEvent} (htr : ReadOnly tr) :
      Concluded yaml rt w desired checkMode none tr (.ok ⟨false, desired.name, desired.sha256⟩) w
  | foretold {op : MistralCall Unit} {tr : List MistralEvent} (htr : ReadOnly tr) :
      Concluded yaml rt w desired true (some op) tr (.ok ⟨true, desired.name, desired.sha256⟩) w
  | written {op : MistralCall Unit} {tr : List MistralEvent} {w' : Mistral}
      (h : w.Stores yaml rt op () w') :
      Concluded yaml rt w desired false (some op) tr (.ok ⟨true, desired.name, desired.sha256⟩) w'
  | failed {op : MistralCall Unit} {tr : List MistralEvent} {e : ReconcileExn} :
      Concluded yaml rt w desired false (some op) tr (.error e) w

theorem conclude_runs {desired : Normalized} {checkMode : Bool} {plan : Option (MistralCall Unit)}
    {tr' : List MistralEvent} {r : Except ReconcileExn Report} (htr : ReadOnly tr)
    (h : Runs (MistralStep yaml rt) w (conclude desired checkMode plan) tr' r w') :
    Concluded yaml rt w desired checkMode plan (tr ++ tr') r w' := by
  cases plan with
  | none =>
    obtain ⟨rfl, rfl, rfl⟩ := runs_done.mp h
    rw [List.append_nil]
    exact .same htr
  | some op =>
    cases checkMode with
    | true =>
      obtain ⟨rfl, rfl, rfl⟩ := runs_done.mp h
      rw [List.append_nil]
      exact .foretold htr
    | false =>
      rcases runs_call_cases h with ⟨_, w₁, tr'', rfl, hstep, hrest⟩ | ⟨e, rfl, rfl, hstep⟩
      · obtain ⟨rfl, rfl, rfl⟩ := runs_done.mp hrest
        exact .written (step_stores hstep)
      · rw [step_fails hstep]
        exact .failed

/-- **A run of the module**: it concludes what the comparison finds, or it raises before a write,
and then for a reason of its own unless a call failed. -/
theorem reconcileWorkbook_runs {text : String} {desired : Normalized} {checkMode : Bool}
    {required : List String} {r : Except ReconcileExn Report}
    (hdesired : normalizeWorkbookYaml yaml rt text = .ok desired)
    (h : Runs (MistralStep yaml rt) w (reconcileWorkbook yaml rt text checkMode required) tr r w') :
    (∃ plan, required ⊆ w.actions ∧ Compared yaml rt w desired plan ∧
      Concluded yaml rt w desired checkMode plan tr r w') ∨
      (ReadOnly tr ∧ w' = w ∧ ∃ e, r = .error e ∧
        (Answered tr → Refused yaml rt w desired required)) := by
  rw [reconcileWorkbook_eq, hdesired] at h
  change Runs _ _ ((comparison yaml rt desired required).bind (conclude desired checkMode)) _ _ _
    at h
  rcases runs_bind.mp h with ⟨plan, tr₁, tr₂, w₁, rfl, hplan, hend⟩ | ⟨e, hplan, rfl⟩
  · obtain ⟨htr, rfl⟩ := runs_read (comparison_reads desired required) hplan
    rcases comparison_runs hplan with ⟨plan', hok, hrequired, hcompared⟩ | ⟨e, he, -⟩
    · cases hok
      exact .inl ⟨plan, hrequired, hcompared, conclude_runs htr hend⟩
    · cases he
  · obtain ⟨htr, rfl⟩ := runs_read (comparison_reads desired required) hplan
    rcases comparison_runs hplan with ⟨plan', hok, -⟩ | ⟨e', -, hwhy⟩
    · cases hok
    · exact .inr ⟨htr, rfl, e, rfl, hwhy⟩

/-! ## A stored workbook -/

/-- One workbook has the name, and it has the data. -/
def Settled (yaml : Yaml) (rt : PyRuntime) (desired : Normalized) (required : List String)
    (w : Mistral) : Prop :=
  required ⊆ w.actions ∧ ∃ stored current, w.named desired.name = [stored] ∧
    stored.definition ≠ "" ∧ normalizeWorkbookYaml yaml rt stored.definition = .ok current ∧
    current.sha256 = desired.sha256

theorem Settled.compared {desired : Normalized} {required : List String}
    (hw : Settled yaml rt desired required w) {plan : Option (MistralCall Unit)}
    (h : Compared yaml rt w desired plan) : plan = none := by
  obtain ⟨-, stored, current, hnamed, -, hcurrent, hsha⟩ := hw
  cases h with
  | absent h =>
    rw [h] at hnamed
    cases hnamed
  | same => rfl
  | differs h hcurrent' hsha' =>
    rw [h, List.singleton_inj] at hnamed
    rw [hnamed, hcurrent] at hcurrent'
    cases hcurrent'
    exact absurd hsha hsha'

theorem Settled.not_refused {desired : Normalized} {required : List String}
    (hw : Settled yaml rt desired required w) : ¬ Refused yaml rt w desired required := by
  obtain ⟨hrequired, stored, current, hnamed, hne, hcurrent, -⟩ := hw
  intro h
  cases h with
  | missing h => exact h hrequired
  | ambiguous h =>
    rw [hnamed] at h
    exact absurd h (by simp)
  | empty h hempty =>
    rw [h, List.singleton_inj] at hnamed
    exact hne (hnamed ▸ hempty)
  | invalid h he =>
    rw [h, List.singleton_inj] at hnamed
    rw [hnamed, hcurrent] at he
    cases he

theorem named_put (w : Mistral) (stored : Stored) : (w.put stored).named stored.name = [stored] := by
  rw [Mistral.named, Mistral.put, List.filter_append, List.filter_filter, List.filter_singleton]
  have hnone : (w.workbooks.filter fun other =>
      decide (other.name = stored.name) && decide (other.name ≠ stored.name)) = [] := by
    rw [List.filter_eq_nil_iff]
    intro other _
    simp
  rw [hnone, decide_eq_true rfl]
  rfl

/-- A workbook is settled where it was written under its normalized name. -/
theorem settled_put {text : String} {desired : Normalized} {required : List String}
    (hyaml : yaml.Inverse) (hdesired : normalizeWorkbookYaml yaml rt text = .ok desired)
    (hrequired : required ⊆ w.actions) :
    Settled yaml rt desired required (w.put ⟨desired.name, desired.definition⟩) := by
  obtain ⟨hread, hne, -⟩ := normalize_definition hyaml hdesired
  exact ⟨hrequired, _, desired, named_put w _, hne, hread, rfl⟩

theorem Settled.runs {text : String} {desired : Normalized} {checkMode : Bool}
    {required : List String} {r : Except ReconcileExn Report}
    (hdesired : normalizeWorkbookYaml yaml rt text = .ok desired)
    (hw : Settled yaml rt desired required w)
    (h : Runs (MistralStep yaml rt) w (reconcileWorkbook yaml rt text checkMode required) tr r w') :
    ReadOnly tr ∧ (Answered tr → ∃ report, r = .ok report ∧ report.changed = false) := by
  rcases reconcileWorkbook_runs hdesired h with ⟨plan, -, hcompared, hend⟩ | ⟨htr, -, e, -, hwhy⟩
  · obtain rfl := hw.compared hcompared
    cases hend with
    | same htr => exact ⟨htr, fun _ => ⟨_, rfl, rfl⟩⟩
  · exact ⟨htr, fun hall => absurd (hwhy hall) hw.not_refused⟩

/-- A successful run settles a workbook whose name is written as it is normalized. -/
theorem settles {text : String} {desired : Normalized} {required : List String} {report : Report}
    (hyaml : yaml.Inverse) (hdesired : normalizeWorkbookYaml yaml rt text = .ok desired)
    (hname : writtenName yaml rt text = some desired.name)
    (h : Runs (MistralStep yaml rt) w (reconcileWorkbook yaml rt text false required) tr
      (.ok report) w') : Settled yaml rt desired required w' := by
  rcases reconcileWorkbook_runs hdesired h with ⟨plan, hrequired, hcompared, hend⟩ |
    ⟨-, -, e, he, -⟩
  · have hwritten := (normalize_definition hyaml hdesired).2.2.trans hname
    cases hend with
    | same =>
      cases hcompared with
      | same hnamed hcurrent hsha =>
        refine ⟨hrequired, _, _, hnamed, fun hempty => ?_, hcurrent, hsha⟩
        obtain ⟨data, hload, -⟩ := normalize_ok hcurrent
        rw [hempty, hyaml.load_empty] at hload
        cases hload
    | written hstores =>
      have hput : w' = w.put ⟨desired.name, desired.definition⟩ := by
        cases hcompared with
        | absent =>
          obtain ⟨name, hname', hw'⟩ := hstores
          rw [hwritten] at hname'
          cases hname'
          exact hw'
        | differs =>
          obtain ⟨name, hname', hw'⟩ := hstores
          rw [hwritten] at hname'
          cases hname'
          exact hw'
      rw [hput]
      exact settled_put hyaml hdesired hrequired
  · cases he

theorem Compared.unique {desired : Normalized} {plan plan' : Option (MistralCall Unit)}
    (h : Compared yaml rt w desired plan) (h' : Compared yaml rt w desired plan') :
    plan = plan' := by
  cases h with
  | absent h =>
    cases h' with
    | absent => rfl
    | same h' => rw [h] at h'; cases h'
    | differs h' => rw [h] at h'; cases h'
  | same h hcurrent hsha =>
    cases h' with
    | absent h' => rw [h] at h'; cases h'
    | same => rfl
    | differs h' hcurrent' hsha' =>
      rw [h, List.singleton_inj] at h'
      rw [← h', hcurrent] at hcurrent'
      cases hcurrent'
      exact absurd hsha hsha'
  | differs h hcurrent hsha =>
    cases h' with
    | absent h' => rw [h] at h'; cases h'
    | same h' hcurrent' hsha' =>
      rw [h, List.singleton_inj] at h'
      rw [← h', hcurrent] at hcurrent'
      cases hcurrent'
      exact absurd hsha' hsha
    | differs => rfl

/-- A stored text with the same data is found, and is no change. -/
theorem same_data {text : String} {desired : Normalized} {required : List String} {report : Report}
    {checkMode : Bool} {stored : Stored}
    (hdesired : normalizeWorkbookYaml yaml rt text = .ok desired)
    (hname : writtenName yaml rt text = some desired.name) (hstored : stored ∈ w.workbooks)
    (hwritten : writtenName yaml rt stored.definition = some stored.name)
    (hload : yaml.safeLoad stored.definition = yaml.safeLoad text)
    (h : Runs (MistralStep yaml rt) w (reconcileWorkbook yaml rt text checkMode required) tr
      (.ok report) w') : report.changed = false := by
  have hsame : stored.name = desired.name := by
    rw [writtenName, hload, ← writtenName, hname] at hwritten
    exact (Option.some.inj hwritten).symm
  have hmem : stored ∈ w.named desired.name :=
    List.mem_filter.mpr ⟨hstored, decide_eq_true hsame⟩
  have hnormalize := (normalize_congr hload).trans hdesired
  rcases reconcileWorkbook_runs hdesired h with ⟨plan, -, hcompared, hend⟩ | ⟨-, -, e, he, -⟩
  · have hplan : plan = none := by
      cases hcompared with
      | absent hnamed =>
        rw [hnamed] at hmem
        cases hmem
      | same => rfl
      | differs hnamed hcurrent hsha =>
        rw [hnamed, List.mem_singleton] at hmem
        rw [← hmem, hnormalize] at hcurrent
        cases hcurrent
        exact absurd rfl hsha
    rw [hplan] at hend
    cases hend
    rfl
  · cases he

end Runs

/-! ## The texts that are reconciled -/

section Reconciles

variable {yaml : Yaml} {rt : PyRuntime} {text : String} {desired : Normalized}

theorem reconciles_of_written (hyaml : yaml.Inverse)
    (hdesired : normalizeWorkbookYaml yaml rt text = .ok desired)
    (hname : writtenName yaml rt text = some desired.name) : Reconciles yaml rt text where
  idempotent required w tr report w₁ h tr' r w₂ h' :=
    (settles hyaml hdesired hname h).runs hdesired h'
  checkMode required w tr r w' h := by
    rcases reconcileWorkbook_runs hdesired h with ⟨plan, -, -, hend⟩ | ⟨htr, -⟩
    · cases hend with
      | same htr => exact htr
      | foretold htr => exact htr
    · exact htr
  predicted required w tr report w₁ tr' report' w₂ h h' := by
    rcases reconcileWorkbook_runs hdesired h with ⟨plan, -, hcompared, hend⟩ | ⟨-, -, e, he, -⟩
    · rcases reconcileWorkbook_runs hdesired h' with ⟨plan', -, hcompared', hend'⟩ |
        ⟨-, -, e, he, -⟩
      · rw [hcompared.unique hcompared'] at hend
        cases hend with
        | same =>
          cases hend'
          rfl
        | foretold =>
          cases hend'
          rfl
      · cases he
    · cases he
  same required checkMode w stored tr report w' hstored hwritten hload h :=
    same_data hdesired hname hstored hwritten hload h
  missing required checkMode w tr r w' hmissing h := by
    rcases reconcileWorkbook_runs hdesired h with ⟨plan, hrequired, -, -⟩ | ⟨htr, -, e, he, -⟩
    · obtain ⟨name, hin, hout⟩ := hmissing
      exact absurd (hrequired hin) hout
    · exact ⟨⟨e, he⟩, htr⟩
  failed required checkMode w tr e w' h := by
    rcases reconcileWorkbook_runs hdesired h with ⟨plan, -, -, hend⟩ | ⟨-, hw, -⟩
    · cases hend
      rfl
    · exact hw

/-! ### Under another name -/

/-- A Mistral without the normalized name: the module creates the workbook. -/
theorem creates {w : Mistral} {name : String}
    (hyaml : yaml.Inverse) (hdesired : normalizeWorkbookYaml yaml rt text = .ok desired)
    (hname : writtenName yaml rt text = some name) (habsent : w.named desired.name = []) :
    ∃ tr report, ¬ ReadOnly tr ∧
      Runs (MistralStep yaml rt) w (reconcileWorkbook yaml rt text false []) tr (.ok report)
        (w.put ⟨name, desired.definition⟩) := by
  let shown : Stored → Workbook := fun stored => ⟨some stored.name, some stored.definition⟩
  have hshows : List.Forall₂ Shows w.workbooks (w.workbooks.map shown) := by
    rw [List.forall₂_map_right_iff]
    exact List.forall₂_same.mpr fun stored _ => ⟨rfl, .inr rfl⟩
  have hnone : ((w.workbooks.map shown).filter fun workbook =>
      workbook.name = some desired.name) = [] := by
    have hfiltered := shows_filter desired.name hshows
    rw [show (w.workbooks.filter fun stored => stored.name = desired.name) = [] from habsent]
      at hfiltered
    exact List.forall₂_nil_left_iff.mp hfiltered
  have hfind : Runs (MistralStep yaml rt) w (findWorkbook desired.name)
      [⟨.listWorkbooks, .ok (w.workbooks.map shown)⟩] (.ok none) w := by
    refine ⟨.ret ?_, .cons (.answered ⟨hshows, rfl⟩) .nil⟩
    simp only [Prog.bind_ok, hnone]
    exact .nil
  have hcomparison : Runs (MistralStep yaml rt) w (comparison yaml rt desired [])
      [⟨.listWorkbooks, .ok (w.workbooks.map shown)⟩]
      (.ok (some (.createWorkbook desired.definition))) w :=
    runs_bind.mpr (.inl ⟨(), [], _, w, rfl, runs_done.mpr ⟨rfl, rfl, rfl⟩,
      runs_bind.mpr (.inl ⟨none, _, [], w, rfl, hfind, runs_done.mpr ⟨rfl, rfl, rfl⟩⟩)⟩)
  have hwritten := (normalize_definition hyaml hdesired).2.2.trans hname
  have hconclude : Runs (MistralStep yaml rt) w
      (conclude desired false (some (.createWorkbook desired.definition)))
      [⟨.createWorkbook desired.definition, .ok ()⟩]
      (.ok ⟨true, desired.name, desired.sha256⟩) (w.put ⟨name, desired.definition⟩) :=
    ⟨.ret .nil, .cons (.answered ⟨name, hwritten, rfl⟩) .nil⟩
  refine ⟨[⟨.listWorkbooks, .ok (w.workbooks.map shown)⟩] ++
    [⟨.createWorkbook desired.definition, .ok ()⟩], ⟨true, desired.name, desired.sha256⟩,
    fun hread => ?_, ?_⟩
  · cases hread _ (List.mem_append_right _ (List.mem_singleton_self _))
  · rw [reconcileWorkbook_eq, hdesired]
    change Runs _ _ ((comparison yaml rt desired []).bind (conclude desired false)) _ _ _
    exact runs_bind.mpr (.inl ⟨_, _, _, w, rfl, hcomparison, hconclude⟩)

/-- A workbook that is written under another name is created again and again. -/
theorem written_of_idempotent (hyaml : yaml.Inverse)
    (hdesired : normalizeWorkbookYaml yaml rt text = .ok desired)
    (h : Reconciles yaml rt text) : writtenName yaml rt text = some desired.name := by
  obtain ⟨name, hname, -⟩ := written_of_normalize hdesired
  by_contra hother
  have hne : name ≠ desired.name := by
    rintro rfl
    exact hother hname
  obtain ⟨tr, report, -, hfirst⟩ := creates (w := ⟨[], []⟩) hyaml hdesired hname rfl
  obtain ⟨tr', report', hwrites, hsecond⟩ :=
    creates (w := Mistral.put ⟨[], []⟩ ⟨name, desired.definition⟩) hyaml hdesired hname (by
      rw [Mistral.named, Mistral.put]
      simpa using hne)
  exact hwrites (h.idempotent _ _ _ _ _ hfirst _ _ _ hsecond).1

end Reconciles

/-! ### One workbook -/

/-- A workbook, by the text of its name. -/
def exampleData (name : String) : Mapping :=
  [(.str "name", .str name), (.str "version", .str "2.0"),
    (.str "workflows", .dict [(.str "host_power_status", .dict [])])]

def exampleText (name : String) : String :=
  "name: '" ++ name ++ "'\nversion: '2.0'\nworkflows:\n  host_power_status: \x7b\x7d\n"

/-- What the readers and writers do on the text of this workbook. -/
def exampleYaml (name : String) : Yaml where
  safeLoad text :=
    if text = exampleText name then .ok (.dict (exampleData name))
    else if text = "" ∨ text = "null\n...\n" then .ok .none
    else .error "could not determine a constructor"
  safeDump
    | .none => "null\n...\n"
    | _ => exampleText name
  sha256 := id

def exampleWorkbook (name : String) : Normalized where
  name := pyStrip name
  definition := exampleText name
  sha256 := exampleText name

theorem example_load (name : String) :
    (exampleYaml name).safeLoad (exampleText name) = .ok (.dict (exampleData name)) := if_pos rfl

theorem exampleYaml_inverse (name : String) : (exampleYaml name).Inverse := by
  have hblank : ∀ other, other = "" ∨ other = "null\n...\n" →
      (exampleYaml name).safeLoad other = .ok .none := by
    intro other hother
    have hne : other ≠ exampleText name := by
      intro h
      have hlist := congrArg String.toList h
      rcases hother with rfl | rfl
      · simp [exampleText] at hlist
      · simp [exampleText] at hlist
    exact (if_neg hne).trans (if_pos hother)
  refine ⟨fun text data h => ?_, hblank "" (.inl rfl)⟩
  change (if _ then _ else _) = _ at h
  split at h
  · cases h
    exact example_load name
  · split at h
    · cases h
      exact hblank _ (.inr rfl)
    · cases h

theorem example_normalized (name : String) (hname : name ≠ "") (hstrip : pyStrip name ≠ "") :
    normalizeWorkbookYaml (exampleYaml name) .ascii (exampleText name) =
      .ok (exampleWorkbook name) := by
  have hstripped : strippedText .ascii (exampleData name) "name" = pyStrip name := by
    change pyStrip (((Value.str name).or (.str "")).toStr .ascii) = pyStrip name
    rw [Value.or_of_truthy (by simpa using hname)]
    rfl
  rw [normalizeWorkbookYaml, example_load]
  dsimp only
  rw [hstripped]
  have hrefuse : (pyStrip name == "" ||
      !isWorkflows (Value.entry (exampleData name) "workflows")) = false := by
    rw [Bool.or_eq_false_iff, beq_eq_false_iff_ne]
    exact ⟨hstrip, rfl⟩
  rw [hrefuse]
  rfl

theorem example_written (name : String) :
    writtenName (exampleYaml name) .ascii (exampleText name) = some name := by
  rw [writtenName, example_load]
  rfl

end MistralWorkbook
end Declared
end KollaPowerOps
