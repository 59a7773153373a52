import KollaPowerOps.Declared.IronicNode
import KollaPowerOps.Lib.OrderedDict
import KollaPowerOps.Lib.Runs

/-!
# Declared.MistralWorkbook

The Ansible module `powerops_mistral_workbook`: `normalize_workbook_yaml`, and the reconciliation
of one workbook with Mistral, as a program over the calls of `MistralRestClient`.

* `reconcileWorkbook` : the module.
* `MistralStep`       : a Mistral that stores a definition under the name written in it.
* `Reconciles`        : what the module is for.

The readers and writers of YAML and the hash are parameters.
-/

namespace KollaPowerOps
namespace Declared
namespace MistralWorkbook

open Effect PyText

/-! ## The definition -/

/-- `yaml.safe_load`, which raises a `YAMLError` with a text, `yaml.safe_dump` with sorted keys,
and the hexadecimal SHA-256 of a text. -/
structure Yaml where
  safeLoad : String → Except String Value
  safeDump : Value → String
  sha256 : String → String

/-- What is dumped is loaded again. -/
structure Yaml.Inverse (yaml : Yaml) : Prop where
  load_dump : ∀ text data, yaml.safeLoad text = .ok data →
    yaml.safeLoad (yaml.safeDump data) = .ok data
  load_empty : yaml.safeLoad "" = .ok .none

structure Normalized where
  name : String
  definition : String
  sha256 : String

/-- `isinstance(workflows, dict)`, and not empty. -/
def isWorkflows : Value → Bool
  | .dict kvs => !kvs.isEmpty
  | _ => false

def normalizeWorkbookYaml (yaml : Yaml) (rt : PyRuntime) (definition : String) :
    Except ReconcileExn Normalized :=
  match yaml.safeLoad definition with
  | .error exc => .error (.reconciliation ("invalid workbook YAML: " ++ exc))
  | .ok (.dict data) => do
    refuseIf ((Value.entry data "version").toStr rt != "2.0") "workbook must use Mistral DSL v2"
    let name := strippedText rt data "name"
    refuseIf (name == "" || !isWorkflows (Value.entry data "workflows"))
      "workbook name and non-empty workflows mapping are required"
    let canonical := yaml.safeDump (.dict data)
    pure ⟨name, canonical, yaml.sha256 canonical⟩
  | .ok _ => .error (.reconciliation "workbook document must be a mapping")

/-! ## The module -/

/-- A workbook as the API shows it. -/
structure Workbook where
  name : Option String := none
  definition : Option String := none

inductive MistralCall : Type → Type where
  | listActionNames : MistralCall (List String)
  | listWorkbooks : MistralCall (List Workbook)
  | getWorkbook (name : String) : MistralCall Workbook
  | createWorkbook (definition : String) : MistralCall Unit
  | updateWorkbook (definition : String) : MistralCall Unit

def writes {τ : Type} : MistralCall τ → Bool
  | .createWorkbook _ => true
  | .updateWorkbook _ => true
  | _ => false

abbrev WorkbookOp (α : Type) : Type 1 := Prog MistralCall ReconcileExn α

abbrev MistralEvent : Type 1 := Event MistralCall ReconcileExn

def checked {α : Type} (r : Except ReconcileExn α) : WorkbookOp α := .done r

def change (checkMode : Bool) (op : MistralCall Unit) : WorkbookOp Unit :=
  if checkMode then pure () else Prog.request op

structure Report where
  changed : Bool
  workbook : String
  definitionSha256 : String

/-- `sorted(set(required_actions) - available)` -/
def missingActions (required available : List String) : List String :=
  ((OrderedDict.firsts required).filter fun name => name ∉ available).mergeSort fun a b => a ≤ b

def requireActions (required : List String) : WorkbookOp Unit :=
  if required.isEmpty then pure ()
  else do
    let available ← Prog.request .listActionNames
    let missing := missingActions required available
    checked (refuseIf (!missing.isEmpty)
      ("required Mistral actions are missing: " ++ ", ".intercalate missing))

/-- The workbook of this name, if there is one. -/
def findWorkbook (name : String) : WorkbookOp (Option Workbook) := do
  let workbooks ← Prog.request .listWorkbooks
  let found := workbooks.filter fun workbook => workbook.name = some name
  checked (refuseIf (found.length > 1) ("expected exactly one Mistral workbook named " ++ name))
  pure found.head?

/-- The definition, which the listing may leave out. -/
def definitionOf (name : String) (current : Workbook) : WorkbookOp String :=
  if current.definition.getD "" != "" then pure (current.definition.getD "")
  else do
    let current ← Prog.request (.getWorkbook name)
    checked (refuseIf (current.definition.getD "" == "")
      "Mistral API did not return the existing workbook definition")
    pure (current.definition.getD "")

def reconcileWorkbook (yaml : Yaml) (rt : PyRuntime) (text : String) (checkMode : Bool)
    (required : List String) : WorkbookOp Report := do
  let desired ← checked (normalizeWorkbookYaml yaml rt text)
  requireActions required
  let found ← findWorkbook desired.name
  let changed ← match found with
    | some current => do
      let definition ← definitionOf desired.name current
      let normalized ← checked (normalizeWorkbookYaml yaml rt definition)
      if normalized.sha256 ≠ desired.sha256 then do
        change checkMode (.updateWorkbook desired.definition)
        pure true
      else pure false
    | none => do
      change checkMode (.createWorkbook desired.definition)
      pure true
  pure ⟨changed, desired.name, desired.sha256⟩

/-! ## Mistral -/

structure Stored where
  name : String
  definition : String

structure Mistral where
  actions : List String
  workbooks : List Stored

/-- The name that is written in a definition. -/
def writtenName (yaml : Yaml) (rt : PyRuntime) (definition : String) : Option String :=
  match yaml.safeLoad definition with
  | .ok (.dict data) => some ((Value.entry data "name").toStr rt)
  | _ => none

def Mistral.named (w : Mistral) (name : String) : List Stored :=
  w.workbooks.filter fun stored => stored.name = name

/-- The definition is stored in the place of those of the same name. -/
def Mistral.put (w : Mistral) (stored : Stored) : Mistral :=
  { w with workbooks := w.workbooks.filter (fun other => other.name ≠ stored.name) ++ [stored] }

/-- A listing shows the name, and may leave the definition out. -/
def Shows (stored : Stored) (workbook : Workbook) : Prop :=
  workbook.name = some stored.name ∧
    (workbook.definition = none ∨ workbook.definition = some stored.definition)

/-- The answer of a call, and the state after it. -/
def Mistral.Stores (yaml : Yaml) (rt : PyRuntime) (w : Mistral) :
    {τ : Type} → MistralCall τ → τ → Mistral → Prop
  | _, .listActionNames, names, w' => names = w.actions ∧ w' = w
  | _, .listWorkbooks, workbooks, w' => List.Forall₂ Shows w.workbooks workbooks ∧ w' = w
  | _, .getWorkbook name, workbook, w' =>
    (∃ stored ∈ w.named name, workbook = ⟨some name, some stored.definition⟩) ∧ w' = w
  | _, .createWorkbook definition, _, w' =>
    ∃ name, writtenName yaml rt definition = some name ∧ w' = w.put ⟨name, definition⟩
  | _, .updateWorkbook definition, _, w' =>
    ∃ name, writtenName yaml rt definition = some name ∧ w' = w.put ⟨name, definition⟩

/-- A call fails, which changes nothing, or it is answered. -/
inductive MistralStep (yaml : Yaml) (rt : PyRuntime) : Mistral → MistralEvent → Mistral → Prop where
  | fails {w : Mistral} {τ : Type} {op : MistralCall τ} {e : ReconcileExn} :
      MistralStep yaml rt w ⟨op, .error e⟩ w
  | answered {w w' : Mistral} {τ : Type} {op : MistralCall τ} {a : τ} :
      w.Stores yaml rt op a w' → MistralStep yaml rt w ⟨op, .ok a⟩ w'

/-! ## What the module is for -/

def ReadOnly (tr : List MistralEvent) : Prop := ∀ ev ∈ tr, writes ev.op = false

def Answered (tr : List MistralEvent) : Prop := ∀ ev ∈ tr, ∃ a, ev.answer = .ok a

/-- What is to hold of a text, for all required actions and in every Mistral. -/
structure Reconciles (yaml : Yaml) (rt : PyRuntime) (text : String) : Prop where
  /-- A second run writes nothing, and reports so unless a call fails. -/
  idempotent : ∀ required w tr report w₁,
    Runs (MistralStep yaml rt) w (reconcileWorkbook yaml rt text false required) tr (.ok report) w₁ →
    ∀ tr' r w₂,
      Runs (MistralStep yaml rt) w₁ (reconcileWorkbook yaml rt text false required) tr' r w₂ →
      ReadOnly tr' ∧ (Answered tr' → ∃ report', r = .ok report' ∧ report'.changed = false)
  checkMode : ∀ required w tr r w',
    Runs (MistralStep yaml rt) w (reconcileWorkbook yaml rt text true required) tr r w' →
    ReadOnly tr
  predicted : ∀ required w tr report w₁ tr' report' w₂,
    Runs (MistralStep yaml rt) w (reconcileWorkbook yaml rt text true required) tr (.ok report) w₁ →
    Runs (MistralStep yaml rt) w (reconcileWorkbook yaml rt text false required) tr'
      (.ok report') w₂ →
    report.changed = report'.changed
  /-- A stored text with the same data is no change. -/
  same : ∀ required checkMode w stored tr report w', stored ∈ w.workbooks →
    writtenName yaml rt stored.definition = some stored.name →
    yaml.safeLoad stored.definition = yaml.safeLoad text →
    Runs (MistralStep yaml rt) w (reconcileWorkbook yaml rt text checkMode required) tr
      (.ok report) w' →
    report.changed = false
  missing : ∀ required checkMode w tr r w', (∃ name ∈ required, name ∉ w.actions) →
    Runs (MistralStep yaml rt) w (reconcileWorkbook yaml rt text checkMode required) tr r w' →
    (∃ e, r = .error e) ∧ ReadOnly tr
  failed : ∀ required checkMode w tr e w',
    Runs (MistralStep yaml rt) w (reconcileWorkbook yaml rt text checkMode required) tr
      (.error e) w' →
    w' = w

end MistralWorkbook
end Declared
end KollaPowerOps
