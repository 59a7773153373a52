import KollaPowerOps.Lib.OrderedDict
import KollaPowerOps.MergeConfigs.BaseParser

/-!
# MergeConfigs.Parser

`OverrideConfigParser`: sources are parsed one after another, and what a source assigns overrides
what the sources before it assign.
-/

namespace KollaPowerOps
namespace MergeConfigs

open PyText

/-- The values of every key, one for each time it was assigned. -/
abbrev Section := OrderedDict Text (List Value)

/-- `_ORPHAN_SECTION` -/
def orphanSection : Text :=
  ['T', 'E', 'M', 'P', 'O', 'R', 'A', 'R', 'Y', '_', 'O', 'R', 'P', 'H', 'A', 'N', '_', 'V', 'A', 'R',
    'I', 'A', 'B', 'L', 'E', '_', 'S', 'E', 'C', 'T', 'I', 'O', 'N']

structure Parser where
  /-- the sections of the source that is being parsed -/
  curSections : OrderedDict Text Section := .empty
  sections : OrderedDict Text Section := .empty
  /-- which of `curSections` is assigned to -/
  curSection : Option Text := none
  whitespace : Bool := true

namespace Parser

def newSection (p : Parser) (name : Text) : Parser :=
  match p.curSections.get? name with
  | some ⟨_ :: _, _⟩ => { p with curSection := some name }
  -- an empty dictionary is replaced by a new one, too
  | _ => { p with curSections := p.curSections.set name .empty, curSection := some name }

/-- A value that is one empty line is written as no line. -/
def trim (value : Value) : Value := if value = [[]] then [] else value

/-- The assignment in a section that is there. -/
def assignIn (p : Parser) (name key : Text) (value : Value) : Parser :=
  let cur := (p.curSections.get? name).getD .empty
  let values := match cur.get? key with
    | none => [trim value]
    | some [] => [trim value]
    | some (v :: vs) => v :: vs ++ [trim value]
  { p with curSections := p.curSections.set name (cur.set key values) }

def assignment (p : Parser) (key : Text) (value : Value) : Parser :=
  match p.curSection with
  | none => (p.newSection orphanSection).assignIn orphanSection key value
  | some name => p.assignIn name key value

def call (p : Parser) : Callback → Parser
  | .assignment key value => p.assignment key value
  | .newSection name => p.newSection name

/-- A section of the source overrides the keys it has. -/
def override (name : Option Section) (values : Section) : Section :=
  (name.getD .empty).update values

/-- `_cur_sections` is merged into `_sections`. -/
def merge (p : Parser) : Parser :=
  { p with sections := p.sections.mergeWith override p.curSections }

def parse (base : BaseParser) (p : Parser) (text : Text) : Option Parser :=
  (base.callbacks text).map fun cbs =>
    (cbs.foldl call { p with curSections := .empty, curSection := none }).merge

/-- The sources are parsed in order. -/
def parseAll (base : BaseParser) (p : Parser) (sources : List Text) : Option Parser :=
  sources.foldlM (parse base) p

/-! ## `write` -/

def ws (whitespace : Bool) : Text := if whitespace then [' '] else []

def writeValue (whitespace : Bool) (key : Text) : Value → Text
  | [] => key ++ ws whitespace ++ ['=', '\n']
  | first :: rest =>
    key ++ ws whitespace ++ ['='] ++ ws whitespace ++ first ++ ['\n'] ++ rest.flatMap fun value =>
      List.replicate (key.length + (ws whitespace).length * 2 + 1) ' ' ++ value ++ ['\n']

def writeKeyValue (whitespace : Bool) (key : Text) (values : List Value) : Text :=
  values.flatMap (writeValue whitespace key)

def writeSection (whitespace : Bool) (values : Section) : Text :=
  values.entries.flatMap fun e => writeKeyValue whitespace e.1 e.2

def write (p : Parser) : Text :=
  p.sections.entries.flatMap fun e =>
    (if e.1 = orphanSection then [] else '[' :: (e.1 ++ [']', '\n'])) ++
      writeSection p.whitespace e.2 ++ ['\n']

end Parser

end MergeConfigs
end KollaPowerOps
