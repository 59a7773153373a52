import KollaPowerOps.Lib.PyText

/-!
# MergeConfigs.BaseParser

The line grammar of `iniparser.BaseParser` of oslo_config, which `OverrideConfigParser` derives
from: which calls of `assignment` and `new_section` a text makes. The parser itself is a parameter.
-/

namespace KollaPowerOps
namespace MergeConfigs

open PyText

abbrev Text := List Char

/-- A value is the lines it stands on. -/
abbrev Value := List Text

inductive Callback where
  | assignment (key : Text) (value : Value)
  | newSection (name : Text)
  deriving Repr, DecidableEq

def lines (text : Text) : List Text := text.splitOn '\n'

inductive Kind where
  | blank
  | continuation
  | header
  | comment
  | assignment
  deriving Repr, DecidableEq

def kind (line : Text) : Kind :=
  match rstrip line with
  | [] => .blank
  | c :: _ =>
    if c = ' ' ∨ c = '\t' then .continuation
    else if c = '[' then .header
    else if c = '#' ∨ c = ';' then .comment
    else .assignment

/-- What stands in the brackets of a header. -/
def getSection (line : Text) : Option Text :=
  if line.getLast? = some ']' ∧ 2 < line.length then some line.tail.dropLast else none

def isSeparator (c : Char) : Bool := c == '=' || c == ':'

/-- The key, and the value with its quotes. -/
def splitKeyValue (line : Text) : Option (Text × Text) :=
  match line.dropWhile fun c => !isSeparator c with
  | [] => none
  | _ :: value => some (strip (line.takeWhile fun c => !isSeparator c), strip value)

def isQuote (c : Char) : Bool := c == '"' || c == '\''

def unquote (value : Text) : Text :=
  if value.head?.any isQuote ∧ value.getLast? = value.head? then value.tail.dropLast else value

/-- The calls that some lines make. A line that is indented continues the value of the assignment
above it; there is none above it after a blank line, a comment or a header. -/
inductive Reads : List Text → List Callback → Prop where
  | nil : Reads [] []
  | blank {l : Text} {ls : List Text} {cbs : List Callback} :
      kind l = .blank → Reads ls cbs → Reads (l :: ls) cbs
  | comment {l : Text} {ls : List Text} {cbs : List Callback} :
      kind l = .comment → Reads ls cbs → Reads (l :: ls) cbs
  | header {l name : Text} {ls : List Text} {cbs : List Callback} :
      kind l = .header → getSection (rstrip l) = some name → Reads ls cbs →
      Reads (l :: ls) (.newSection name :: cbs)
  | assignment {l key value : Text} {conts ls : List Text} {cbs : List Callback} :
      kind l = .assignment → splitKeyValue (rstrip l) = some (key, value) → key ≠ [] →
      (∀ c ∈ conts, kind c = .continuation) → Reads ls cbs →
      Reads (l :: (conts ++ ls))
        (.assignment key (unquote value :: conts.map fun c => lstrip (rstrip c)) :: cbs)

structure BaseParser where
  /-- the calls that a text makes, if no `ParseError` is raised -/
  callbacks : Text → Option (List Callback)
  grammar : ∀ text cbs, callbacks text = some cbs ↔ Reads (lines text) cbs

/-! ## A parser of the grammar -/

/-- The lines from the last to the first: the lines that continue an assignment further up, and
the calls below them. -/
def scan : List Text → Option (Value × List Callback)
  | [] => some ([], [])
  | l :: ls =>
    match scan ls, kind l with
    | some (conts, cbs), .continuation => some (lstrip (rstrip l) :: conts, cbs)
    | some (conts, cbs), .assignment =>
      match splitKeyValue (rstrip l) with
      | some (key, value) =>
        if key = [] then none else some ([], .assignment key (unquote value :: conts) :: cbs)
      | none => none
    | some ([], cbs), .header => (getSection (rstrip l)).map fun s => ([], .newSection s :: cbs)
    | some ([], cbs), _ => some ([], cbs)
    | _, _ => none

theorem scan_append {conts ls : List Text} {cbs : List Callback}
    (hconts : ∀ c ∈ conts, kind c = .continuation) (h : scan ls = some ([], cbs)) :
    scan (conts ++ ls) = some (conts.map fun c => lstrip (rstrip c), cbs) := by
  induction conts with
  | nil => exact h
  | cons c conts ih =>
    rw [List.forall_mem_cons] at hconts
    rw [List.cons_append, scan, ih hconts.2, hconts.1]
    rfl

theorem scan_of_reads {ls : List Text} {cbs : List Callback} (h : Reads ls cbs) :
    scan ls = some ([], cbs) := by
  induction h with
  | nil => rfl
  | blank hkind _ ih => rw [scan, ih, hkind]
  | comment hkind _ ih => rw [scan, ih, hkind]
  | header hkind hsection _ ih =>
    rw [scan, ih, hkind, hsection]
    rfl
  | assignment hkind hsplit hkey hconts _ ih =>
    rw [scan, scan_append hconts ih, hkind, hsplit]
    exact if_neg hkey

theorem reads_of_scan {ls : List Text} {vs : Value} {cbs : List Callback}
    (h : scan ls = some (vs, cbs)) : ∃ conts rest, ls = conts ++ rest ∧
      (∀ c ∈ conts, kind c = .continuation) ∧ vs = conts.map (fun c => lstrip (rstrip c)) ∧
      Reads rest cbs := by
  induction ls generalizing vs cbs with
  | nil =>
    cases h
    exact ⟨[], [], rfl, by simp, rfl, .nil⟩
  | cons l ls ih =>
    rw [scan] at h
    cases hscan : scan ls with
    | none => simp [hscan] at h
    | some r =>
      obtain ⟨vs', cbs'⟩ := r
      obtain ⟨conts, rest, rfl, hconts, rfl, hreads⟩ := ih hscan
      rw [hscan] at h
      cases hkind : kind l with
      | continuation =>
        simp only [hkind, Option.some.injEq, Prod.mk.injEq] at h
        obtain ⟨rfl, rfl⟩ := h
        exact ⟨l :: conts, rest, rfl, List.forall_mem_cons.mpr ⟨hkind, hconts⟩, rfl, hreads⟩
      | assignment =>
        simp only [hkind] at h
        cases hsplit : splitKeyValue (rstrip l) with
        | none => simp [hsplit] at h
        | some kv =>
          simp only [hsplit, Option.ite_none_left_eq_some, Option.some.injEq, Prod.mk.injEq] at h
          obtain ⟨hkey, rfl, rfl⟩ := h
          exact ⟨[], _, rfl, by simp, rfl, .assignment hkind hsplit hkey hconts hreads⟩
      | header =>
        simp only [hkind] at h
        cases conts with
        | nil =>
          obtain ⟨s, hs, h⟩ := Option.map_eq_some_iff.mp h
          cases h
          exact ⟨[], _, rfl, by simp, rfl, .header hkind hs hreads⟩
        | cons c conts => cases h
      | blank =>
        simp only [hkind] at h
        cases conts with
        | nil =>
          cases h
          exact ⟨[], _, rfl, by simp, rfl, .blank hkind hreads⟩
        | cons c conts => cases h
      | comment =>
        simp only [hkind] at h
        cases conts with
        | nil =>
          cases h
          exact ⟨[], _, rfl, by simp, rfl, .comment hkind hreads⟩
        | cons c conts => cases h

def scanner : BaseParser where
  callbacks text :=
    match scan (lines text) with
    | some ([], cbs) => some cbs
    | _ => none
  grammar text cbs := by
    constructor
    · intro h
      cases hscan : scan (lines text) with
      | none => simp [hscan] at h
      | some r =>
        obtain ⟨vs, cbs'⟩ := r
        cases vs with
        | nil =>
          simp only [hscan, Option.some.injEq] at h
          subst h
          obtain ⟨conts, rest, heq, -, hnil, hreads⟩ := reads_of_scan hscan
          rw [List.map_eq_nil_iff.mp hnil.symm] at heq
          rwa [heq]
        | cons v vs => simp [hscan] at h
    · intro h
      rw [scan_of_reads h]

end MergeConfigs
end KollaPowerOps
