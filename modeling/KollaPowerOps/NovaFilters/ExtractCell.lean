import KollaPowerOps.Lib.Regex

/-!
# NovaFilters.ExtractCell

The filter `extract_cell`, over the table of `nova-manage cell_v2 list_cells --verbose`.

* `extractCell`       : the filter, with its regular expression.
* `Table.lines`       : the table, in whatever widths.
* `cellPattern_match` : the pieces between the blanks settle what the expression captures.
* `extracts_row`      : the filter finds the row that has the name.
-/

namespace KollaPowerOps
namespace ExtractCell

open Regex

abbrev Text := List Char

/-! ## The filter -/

def blanks : Pattern := .many fun c => c = ' '

def notBlank (c : Char) : Bool := c ≠ ' '

def isUuidChar (c : Char) : Bool := c.isDigit || ('a' ≤ c && c ≤ 'f') || c = '-'

/-- `\| +(?P<name>p+) +` -/
def column (name : Text) (p : Char → Bool) : List Pattern :=
  [lit '|', blanks, .group name (.many p), blanks]

def cellName : Text := "cell_name".toList
def cellUuid : Text := "cell_uuid".toList
def cellMessageQueue : Text := "cell_message_queue".toList
def cellDatabase : Text := "cell_database".toList
def cellDisabled : Text := "cell_disabled".toList

def cellPattern : Pattern := seqs <|
  [lit '|', blanks, .opt (.group cellName (.many notBlank)), blanks] ++
  column cellUuid isUuidChar ++
  column cellMessageQueue notBlank ++
  column cellDatabase notBlank ++
  column cellDisabled notBlank ++
  [lit '|', .stop]

abbrev Groupdict := List (Text × Option Text)

structure TemplateRuntimeError where
  message : Text
  deriving DecidableEq

/-- The body of the loop over the lines. -/
def extractLine (name : Text) (line : Text) : Option Groupdict :=
  (match? cellPattern line).bind fun m =>
    if (m.group cellName).getD [] = name then some (m.groupdict cellPattern) else none

def extractCell (stdoutLines : List Text) (name : Text) :
    Except TemplateRuntimeError (Option Groupdict) :=
  let cells := stdoutLines.filterMap (extractLine name)
  if 1 < cells.length then
    .error ⟨"Cell: ".toList ++ name ++ " has duplicates. Manual cleanup required.".toList⟩
  else
    .ok cells.head?

/-! ## The table -/

def Solid (s : Text) : Prop := ' ' ∉ s ∧ '\n' ∉ s

structure Cell where
  name : Text
  uuid : Text
  messageQueue : Text
  database : Text
  disabled : Text
  name_solid : Solid name
  uuid_hex : uuid ≠ [] ∧ ∀ c ∈ uuid, isUuidChar c = true
  messageQueue_solid : messageQueue ≠ [] ∧ Solid messageQueue
  database_solid : database ≠ [] ∧ Solid database
  disabled_solid : disabled ≠ [] ∧ Solid disabled

/-- The cell as the filter returns it: no name is `None`. -/
def Cell.groups (c : Cell) : Groupdict :=
  [(cellName, if c.name = [] then none else some c.name), (cellUuid, some c.uuid),
    (cellMessageQueue, some c.messageQueue), (cellDatabase, some c.database),
    (cellDisabled, some c.disabled)]

def Cell.fields (c : Cell) : List Text :=
  [c.name, c.uuid, c.messageQueue, c.database, c.disabled]

/-- The blanks to the left and the right of the fields of a line, beyond the one that is always
there. -/
abbrev Padding := Nat → Nat × Nat

def renderField (pad : Nat × Nat) (field : Text) : Text :=
  '|' :: (List.replicate (pad.1 + 1) ' ' ++ (field ++ (List.replicate (pad.2 + 1) ' ')))

def renderLine (pad : Padding) (fields : List Text) : Text :=
  (fields.zipIdx.flatMap fun (field, i) => renderField (pad i) field) ++ ['|']

def border (widths : List Nat) : Text :=
  '+' :: widths.flatMap fun w => List.replicate w '-' ++ ['+']

def headings : List Text :=
  ["Name".toList, "UUID".toList, "Transport URL".toList, "Database Connection".toList,
    "Disabled".toList]

structure Table where
  rows : List (Cell × Padding)
  header : Padding
  widths : List Nat

namespace Table

variable (t : Table)

/-- The lines that are no rows. -/
def frame : List Text := [border t.widths, renderLine t.header headings]

def lines : List Text :=
  [border t.widths, renderLine t.header headings, border t.widths] ++
    t.rows.map (fun row => renderLine row.2 row.1.fields) ++ [border t.widths]

def cells : List Cell := t.rows.map Prod.fst

end Table

/-! ## Pieces -/

/-- What stands between the blanks of a line. -/
def pieces (s : Text) : List Text := (s.splitOnP fun c => c = ' ').filter fun w => !w.isEmpty

theorem pieces_append (s t : Text) : pieces (s ++ ' ' :: t) = pieces s ++ pieces t := by
  rw [pieces, List.splitOnP_append_cons s t (by simp), List.filter_append]
  rfl

theorem pieces_solid {w : Text} (hne : w ≠ []) (hw : ' ' ∉ w) : pieces w = [w] := by
  have hsolid : ∀ c ∈ w, (decide (c = ' ')) = false := fun c hc =>
    decide_eq_false fun heq => hw (heq ▸ hc)
  rw [pieces, List.splitOnP_eq_singleton hsolid]
  simp [hne]

theorem pieces_blanks {b : Text} (hb : ∀ c ∈ b, c = ' ') (s : Text) : pieces (b ++ s) = pieces s := by
  induction b with
  | nil => rfl
  | cons c b ih =>
    obtain ⟨rfl, hrest⟩ := List.forall_mem_cons.mp hb
    have happend := pieces_append [] (b ++ s)
    rw [List.nil_append] at happend
    rw [List.cons_append, happend, ih hrest]
    rfl

theorem pieces_append_blanks {b : Text} (hne : b ≠ []) (hb : ∀ c ∈ b, c = ' ') (s t : Text) :
    pieces (s ++ (b ++ t)) = pieces s ++ pieces t := by
  cases b with
  | nil => exact absurd rfl hne
  | cons c b =>
    obtain ⟨rfl, hrest⟩ := List.forall_mem_cons.mp hb
    rw [List.cons_append, pieces_append, pieces_blanks hrest]

theorem pieces_renderField (pad : Nat × Nat) (field s : Text) :
    pieces (renderField pad field ++ s) = ['|'] :: (pieces field ++ pieces s) := by
  have hblank : ∀ n, List.replicate (n + 1) ' ' ≠ [] ∧ ∀ c ∈ List.replicate (n + 1) ' ', c = ' ' :=
    fun n => ⟨by simp, fun c hc => List.eq_of_mem_replicate hc⟩
  have hline : renderField pad field ++ s = ['|'] ++ (List.replicate (pad.1 + 1) ' ' ++
      (field ++ (List.replicate (pad.2 + 1) ' ' ++ s))) := by
    simp [renderField]
  rw [hline, pieces_append_blanks (hblank _).1 (hblank _).2,
    pieces_append_blanks (hblank _).1 (hblank _).2, pieces_solid (by simp) (by simp)]
  rfl

theorem pieces_renderLine (pad : Padding) (fields : List Text) :
    pieces (renderLine pad fields) = fields.flatMap (fun field => ['|'] :: pieces field) ++ [['|']] := by
  have hfrom : ∀ i, pieces ((fields.zipIdx i).flatMap (fun (field, i) => renderField (pad i) field) ++
      ['|']) = fields.flatMap (fun field => ['|'] :: pieces field) ++ [['|']] := by
    induction fields with
    | nil => exact fun _ => pieces_solid (by simp) (by simp)
    | cons field fields ih =>
      intro i
      rw [List.zipIdx_cons, List.flatMap_cons, List.append_assoc, pieces_renderField, ih,
        List.flatMap_cons]
      simp
  exact hfrom 0

/-! ## What the expression captures -/

theorem mem_run_blanks {b : Option Char} {s : Text} {m : Match} :
    m ∈ run blanks b s ↔
      m.read ≠ [] ∧ (∀ c ∈ m.read, c = ' ') ∧ m.captures = [] ∧ s = m.read ++ m.rest := by
  rw [blanks, run_many, mem_runMany]
  simp only [decide_eq_true_eq]

theorem mem_run_group {name : Text} {p : Char → Bool} {b : Option Char} {s : Text} {m : Match} :
    m ∈ run (.group name (.many p)) b s ↔
      m.read ≠ [] ∧ (∀ c ∈ m.read, p c = true) ∧ m.captures = [(name, m.read)] ∧
        s = m.read ++ m.rest := by
  simp only [run_group, run_many, List.mem_map, mem_runMany]
  constructor
  · rintro ⟨m', ⟨hne, hread, hcaptures, hs⟩, rfl⟩
    exact ⟨hne, hread, by rw [hcaptures, List.nil_append], hs⟩
  · rintro ⟨hne, hread, hcaptures, hs⟩
    refine ⟨{ m with captures := [] }, ⟨hne, hread, rfl, hs⟩, ?_⟩
    rw [List.nil_append, ← hcaptures]

theorem column_match {name : Text} {p : Char → Bool} (hp : p ' ' = false) {rs : List Pattern}
    {b : Option Char} {s : Text} {m : Match} (h : m ∈ run (seqs (column name p ++ rs)) b s) :
    ∃ text m', (∃ b' s', m' ∈ run (seqs rs) b' s') ∧
      pieces m.read = ['|'] :: text :: pieces m'.read ∧
      m.captures = (name, text) :: m'.captures ∧ m.rest = m'.rest := by
  obtain ⟨m₁, h₁, _, k₁, rfl⟩ := mem_run_seq.mp h
  obtain ⟨m₂, h₂, _, k₂, rfl⟩ := mem_run_seq.mp k₁
  obtain ⟨m₃, h₃, _, k₃, rfl⟩ := mem_run_seq.mp k₂
  obtain ⟨m₄, h₄, m', h', rfl⟩ := mem_run_seq.mp k₃
  obtain ⟨c, hc, -, hm₁⟩ := mem_run_char.mp h₁
  obtain ⟨hne₂, hread₂, hcaptures₂, -⟩ := mem_run_blanks.mp h₂
  obtain ⟨hne₃, hread₃, hcaptures₃, -⟩ := mem_run_group.mp h₃
  obtain ⟨hne₄, hread₄, hcaptures₄, -⟩ := mem_run_blanks.mp h₄
  have hsolid : ' ' ∉ m₃.read := fun hmem => by
    have hblank := hread₃ _ hmem
    rw [hp] at hblank
    cases hblank
  refine ⟨m₃.read, m', ⟨_, _, h'⟩, ?_, ?_, rfl⟩
  · rw [hm₁, of_decide_eq_true hc, pieces_append_blanks hne₂ hread₂,
      pieces_append_blanks hne₄ hread₄, pieces_solid hne₃ hsolid, pieces_solid (by simp) (by simp)]
    rfl
  · rw [hm₁, hcaptures₂, hcaptures₃, hcaptures₄]
    rfl

theorem end_match {b : Option Char} {s : Text} {m : Match}
    (h : m ∈ run (seqs [lit '|', .stop]) b s) :
    m.read = ['|'] ∧ m.captures = [] ∧ (m.rest = [] ∨ m.rest = ['\n']) := by
  obtain ⟨m₁, h₁, _, k₁, rfl⟩ := mem_run_seq.mp h
  obtain ⟨m₂, h₂, m', h', rfl⟩ := mem_run_seq.mp k₁
  obtain ⟨c, hc, -, hm₁⟩ := mem_run_char.mp h₁
  rw [run_stop] at h₂
  split at h₂
  · rename_i hrest
    obtain rfl := List.mem_singleton.mp h₂
    obtain rfl := List.mem_singleton.mp h'
    rw [hm₁, of_decide_eq_true hc]
    exact ⟨rfl, rfl, hrest⟩
  · cases h₂

/-- What follows the name. -/
def columns : List Pattern :=
  column cellUuid isUuidChar ++ (column cellMessageQueue notBlank ++
    (column cellDatabase notBlank ++ (column cellDisabled notBlank ++ [lit '|', .stop])))

theorem cellPattern_eq : cellPattern = .seq (lit '|') (.seq blanks
    (.seq (.opt (.group cellName (.many notBlank))) (.seq blanks (seqs columns)))) := rfl

/-- The pieces of a line with these captures; a name may be missing. -/
def capturedPieces (name : Option Text) (uuid messageQueue database disabled : Text) : List Text :=
  ['|'] :: (name.toList ++
    [['|'], uuid, ['|'], messageQueue, ['|'], database, ['|'], disabled, ['|']])

def captured (name : Option Text) (uuid messageQueue database disabled : Text) :
    List (Text × Text) :=
  name.toList.map (fun name => (cellName, name)) ++ [(cellUuid, uuid),
    (cellMessageQueue, messageQueue), (cellDatabase, database), (cellDisabled, disabled)]

theorem columns_match {b : Option Char} {s : Text} {m : Match} (h : m ∈ run (seqs columns) b s) :
    ∃ uuid messageQueue database disabled,
      ['|'] :: pieces m.read = capturedPieces none uuid messageQueue database disabled ∧
      m.captures = captured none uuid messageQueue database disabled ∧
      (m.rest = [] ∨ m.rest = ['\n']) := by
  obtain ⟨uuid, m₁, ⟨_, _, h₁⟩, hp₁, hc₁, hr₁⟩ := column_match rfl h
  obtain ⟨messageQueue, m₂, ⟨_, _, h₂⟩, hp₂, hc₂, hr₂⟩ := column_match rfl h₁
  obtain ⟨database, m₃, ⟨_, _, h₃⟩, hp₃, hc₃, hr₃⟩ := column_match rfl h₂
  obtain ⟨disabled, m₄, ⟨_, _, h₄⟩, hp₄, hc₄, hr₄⟩ := column_match rfl h₃
  obtain ⟨hread, hcaptures, hrest⟩ := end_match h₄
  refine ⟨uuid, messageQueue, database, disabled, ?_, ?_, ?_⟩
  · rw [hp₁, hp₂, hp₃, hp₄, hread, pieces_solid (by simp) (by simp)]
    rfl
  · rw [hc₁, hc₂, hc₃, hc₄, hcaptures]
    rfl
  · rwa [hr₁, hr₂, hr₃, hr₄]

theorem cellPattern_match {b : Option Char} {s : Text} {m : Match} (h : m ∈ run cellPattern b s) :
    ∃ name uuid messageQueue database disabled,
      pieces m.read = capturedPieces name uuid messageQueue database disabled ∧
      m.captures = captured name uuid messageQueue database disabled ∧
      (m.rest = [] ∨ m.rest = ['\n']) := by
  rw [cellPattern_eq] at h
  obtain ⟨m₁, h₁, _, k₁, rfl⟩ := mem_run_seq.mp h
  obtain ⟨m₂, h₂, _, k₂, rfl⟩ := mem_run_seq.mp k₁
  obtain ⟨m₃, h₃, _, k₃, rfl⟩ := mem_run_seq.mp k₂
  obtain ⟨m₄, h₄, m', h', rfl⟩ := mem_run_seq.mp k₃
  obtain ⟨c, hc, -, hm₁⟩ := mem_run_char.mp h₁
  obtain ⟨hne₂, hread₂, hcaptures₂, -⟩ := mem_run_blanks.mp h₂
  obtain ⟨hne₄, hread₄, hcaptures₄, -⟩ := mem_run_blanks.mp h₄
  obtain ⟨uuid, messageQueue, database, disabled, hpieces, hcaptures, hrest⟩ := columns_match h'
  have hname : ∃ name : Option Text, pieces m₃.read = name.toList ∧
      m₃.captures = name.toList.map fun name => (cellName, name) := by
    rw [run_opt, List.mem_append, List.mem_singleton] at h₃
    rcases h₃ with h₃ | rfl
    · obtain ⟨hne₃, hread₃, hcaptures₃, -⟩ := mem_run_group.mp h₃
      have hsolid : ' ' ∉ m₃.read := fun hmem => absurd (hread₃ _ hmem) (by decide)
      exact ⟨some m₃.read, pieces_solid hne₃ hsolid, hcaptures₃⟩
    · exact ⟨none, rfl, rfl⟩
  obtain ⟨name, hname, hnameCaptures⟩ := hname
  refine ⟨name, uuid, messageQueue, database, disabled, ?_, ?_, hrest⟩
  · have hline := (List.cons.inj hpieces).2
    rw [hm₁, of_decide_eq_true hc, pieces_append_blanks hne₂ hread₂,
      pieces_append_blanks hne₄ hread₄, hname, hline, pieces_solid (by simp) (by simp)]
    rfl
  · rw [hm₁, hcaptures₂, hnameCaptures, hcaptures₄, hcaptures]
    rfl

theorem capturedPieces_inj {name name' : Option Text}
    {uuid messageQueue database disabled uuid' messageQueue' database' disabled' : Text}
    (h : capturedPieces name uuid messageQueue database disabled =
      capturedPieces name' uuid' messageQueue' database' disabled') :
    captured name uuid messageQueue database disabled =
      captured name' uuid' messageQueue' database' disabled' := by
  cases name <;> cases name' <;> simp_all [capturedPieces, captured]

/-! ## The lines of the table -/

theorem reads_blanks (n : Nat) (rest : Text) :
    Reads blanks (List.replicate (n + 1) ' ') [] rest :=
  .many (by simp) (fun c hc => decide_eq_true (List.eq_of_mem_replicate hc)) rest

theorem reads_column {name field w rest : Text} {p : Char → Bool} {rs : List Pattern}
    {c : List (Text × Text)} (pad : Nat × Nat) (hne : field ≠ []) (hp : ∀ c ∈ field, p c = true)
    (h : Reads (seqs rs) w c rest) :
    Reads (seqs (column name p ++ rs)) (renderField pad field ++ w) ((name, field) :: c) rest := by
  have hline : renderField pad field ++ w = ['|'] ++ (List.replicate (pad.1 + 1) ' ' ++
      (field ++ (List.replicate (pad.2 + 1) ' ' ++ w))) := by
    simp [renderField]
  rw [hline]
  exact (Reads.lit '|' _).seq ((reads_blanks _ _).seq
    (((Reads.many hne hp _).group name).seq ((reads_blanks _ _).seq h)))

namespace Cell

variable (c : Cell)

def name? : Option Text := if c.name = [] then none else some c.name

theorem renderLine_fields (pad : Padding) : renderLine pad c.fields =
    renderField (pad 0) c.name ++ (renderField (pad 1) c.uuid ++
      (renderField (pad 2) c.messageQueue ++ (renderField (pad 3) c.database ++
        (renderField (pad 4) c.disabled ++ ['|'])))) := by
  simp [renderLine, fields]

theorem notBlank_of_solid {s : Text} (hs : Solid s) : ∀ a ∈ s, notBlank a = true := fun _ ha =>
  decide_eq_true fun heq => hs.1 (heq ▸ ha)

theorem uuid_solid : Solid c.uuid :=
  ⟨fun hmem => absurd (c.uuid_hex.2 _ hmem) (by decide),
    fun hmem => absurd (c.uuid_hex.2 _ hmem) (by decide)⟩

theorem reads_columns (pad : Padding) : Reads (seqs columns)
    (renderField (pad 1) c.uuid ++ (renderField (pad 2) c.messageQueue ++
      (renderField (pad 3) c.database ++ (renderField (pad 4) c.disabled ++ ['|']))))
    (captured none c.uuid c.messageQueue c.database c.disabled) [] := by
  refine reads_column _ c.uuid_hex.1 c.uuid_hex.2 ?_
  refine reads_column _ c.messageQueue_solid.1 (notBlank_of_solid c.messageQueue_solid.2) ?_
  refine reads_column _ c.database_solid.1 (notBlank_of_solid c.database_solid.2) ?_
  refine reads_column _ c.disabled_solid.1 (notBlank_of_solid c.disabled_solid.2) ?_
  have hstop : Reads (seqs [.stop]) ([] ++ []) ([] ++ []) [] := Reads.stop.seq (.empty [])
  exact (Reads.lit '|' _).seq hstop

/-- A row can be read. -/
theorem reads_row (pad : Padding) : Reads cellPattern (renderLine pad c.fields)
    (captured c.name? c.uuid c.messageQueue c.database c.disabled) [] := by
  rw [renderLine_fields, cellPattern_eq]
  have hline : ∀ w, renderField (pad 0) c.name ++ w = ['|'] ++ (List.replicate ((pad 0).1 + 1) ' ' ++
      (c.name ++ (List.replicate ((pad 0).2 + 1) ' ' ++ w))) := by
    simp [renderField]
  rw [hline]
  have hrest := (reads_blanks (pad 0).2 _).seq (c.reads_columns pad)
  refine (Reads.lit '|' _).seq ((reads_blanks _ _).seq ?_)
  by_cases hname : c.name = []
  · rw [name?, if_pos hname, hname]
    exact (Reads.skip _ _).seq hrest
  · rw [name?, if_neg hname]
    exact ((Reads.many hname (notBlank_of_solid c.name_solid) _).group cellName).opt.seq hrest

theorem pieces_row (pad : Padding) : pieces (renderLine pad c.fields) =
    capturedPieces c.name? c.uuid c.messageQueue c.database c.disabled := by
  have hname : pieces c.name = c.name?.toList := by
    rw [name?]
    split
    · rename_i hnil
      rw [hnil]
      rfl
    · exact pieces_solid ‹_› c.name_solid.1
  rw [pieces_renderLine, fields]
  simp only [List.flatMap_cons, List.flatMap_nil, hname, pieces_solid c.uuid_hex.1 c.uuid_solid.1,
    pieces_solid c.messageQueue_solid.1 c.messageQueue_solid.2.1,
    pieces_solid c.database_solid.1 c.database_solid.2.1,
    pieces_solid c.disabled_solid.1 c.disabled_solid.2.1]
  simp [capturedPieces]

theorem newline_not_mem (pad : Padding) : '\n' ∉ renderLine pad c.fields := by
  rw [renderLine_fields]
  simp [renderField, List.mem_replicate, c.name_solid.2, c.uuid_solid.2, c.messageQueue_solid.2.2,
    c.database_solid.2.2, c.disabled_solid.2.2]

end Cell

/-- A line without a newline is read as a whole. -/
theorem match_pieces {line : Text} (hline : '\n' ∉ line) {m : Match}
    (h : match? cellPattern line = some m) :
    ∃ name uuid messageQueue database disabled,
      pieces line = capturedPieces name uuid messageQueue database disabled ∧
      m.captures = captured name uuid messageQueue database disabled := by
  have hmem := List.mem_of_mem_head? (Option.mem_def.mpr h)
  have hsplit := run_split hmem
  obtain ⟨name, uuid, messageQueue, database, disabled, hpieces, hcaptures, hrest⟩ :=
    cellPattern_match hmem
  refine ⟨name, uuid, messageQueue, database, disabled, ?_, hcaptures⟩
  rcases hrest with hrest | hrest
  · rw [hsplit, hrest, List.append_nil, hpieces]
  · rw [hsplit, hrest] at hline
    simp at hline

theorem match_row (c : Cell) (pad : Padding) :
    ∃ m, match? cellPattern (renderLine pad c.fields) = some m ∧
      m.captures = captured c.name? c.uuid c.messageQueue c.database c.disabled := by
  have hread := c.reads_row pad none
  rw [List.append_nil] at hread
  obtain ⟨m, hm⟩ : ∃ m, match? cellPattern (renderLine pad c.fields) = some m := by
    rw [match?]
    cases h : run cellPattern none (renderLine pad c.fields) with
    | nil => simp [h] at hread
    | cons m _ => exact ⟨m, rfl⟩
  obtain ⟨name, uuid, messageQueue, database, disabled, hpieces, hcaptures⟩ :=
    match_pieces (c.newline_not_mem pad) hm
  rw [c.pieces_row pad] at hpieces
  exact ⟨m, hm, hcaptures.trans (capturedPieces_inj hpieces.symm)⟩

theorem length_capturedPieces (name : Option Text) (uuid messageQueue database disabled : Text) :
    (capturedPieces name uuid messageQueue database disabled).length = 10 ∨
      (capturedPieces name uuid messageQueue database disabled).length = 11 := by
  cases name with
  | none => exact .inl rfl
  | some name => exact .inr rfl

/-- Neither the borders nor the header are taken for a row. -/
theorem match_frame (t : Table) {line : Text} (hline : line ∈ t.frame) :
    match? cellPattern line = none := by
  have hout : '\n' ∉ line ∧ (pieces line).length ∉ [10, 11] := by
    rw [Table.frame, List.mem_pair] at hline
    rcases hline with rfl | rfl
    · have hborder : ∀ c, c ≠ '+' → c ≠ '-' → c ∉ border t.widths := by
        intro c hplus hminus
        simp [border, hplus, List.mem_replicate, hminus]
      have hpieces := pieces_solid (by simp [border]) (hborder ' ' (by decide) (by decide))
      exact ⟨hborder '\n' (by decide) (by decide), by simp [hpieces]⟩
    · constructor
      · simp [renderLine, headings, renderField, List.mem_replicate]
      · rw [pieces_renderLine]
        decide
  cases h : match? cellPattern line with
  | none => rfl
  | some m =>
    obtain ⟨name, uuid, messageQueue, database, disabled, hpieces, -⟩ := match_pieces hout.1 h
    have hlength := length_capturedPieces name uuid messageQueue database disabled
    rw [hpieces] at hout
    simp [hlength] at hout

/-! ## The filter on the table -/

theorem groupdict_captured {m : Match} {name : Option Text}
    {uuid messageQueue database disabled : Text}
    (h : m.captures = captured name uuid messageQueue database disabled) :
    m.group cellName = name ∧
      m.groupdict cellPattern = [(cellName, name), (cellUuid, some uuid),
        (cellMessageQueue, some messageQueue), (cellDatabase, some database),
        (cellDisabled, some disabled)] := by
  have hnames : cellPattern.names =
      [cellName, cellUuid, cellMessageQueue, cellDatabase, cellDisabled] := rfl
  have hgroup : m.group cellName = name ∧ m.group cellUuid = some uuid ∧
      m.group cellMessageQueue = some messageQueue ∧ m.group cellDatabase = some database ∧
      m.group cellDisabled = some disabled := by
    simp only [Match.group, h]
    cases name <;> exact ⟨rfl, rfl, rfl, rfl, rfl⟩
  obtain ⟨hname, huuid, hmessageQueue, hdatabase, hdisabled⟩ := hgroup
  refine ⟨hname, ?_⟩
  rw [Match.groupdict, hnames]
  simp only [List.map_cons, List.map_nil, hname, huuid, hmessageQueue, hdatabase, hdisabled]

theorem extractLine_row (name : Text) (c : Cell) (pad : Padding) :
    extractLine name (renderLine pad c.fields) = if c.name = name then some c.groups else none := by
  obtain ⟨m, hm, hcaptures⟩ := match_row c pad
  obtain ⟨hgroup, hgroupdict⟩ := groupdict_captured hcaptures
  have hname : c.name?.getD [] = c.name := by
    rw [Cell.name?]
    split
    · rename_i hnil
      exact hnil.symm
    · rfl
  rw [extractLine, hm, Option.bind_some, hgroup, hname, hgroupdict]
  rfl

theorem extractLine_frame (name : Text) (t : Table) {line : Text} (hline : line ∈ t.frame) :
    extractLine name line = none := by
  rw [extractLine, match_frame t hline]
  rfl

theorem filterMap_lines (t : Table) (name : Text) :
    t.lines.filterMap (extractLine name) =
      (t.cells.filter fun c => c.name = name).map Cell.groups := by
  have hborder := extractLine_frame name t (List.mem_pair.mpr (.inl rfl))
  have hheader := extractLine_frame name t (List.mem_pair.mpr (.inr rfl))
  have hrows : (t.rows.map fun row => renderLine row.2 row.1.fields).filterMap (extractLine name) =
      (t.cells.filter fun c => c.name = name).map Cell.groups := by
    rw [Table.cells]
    induction t.rows with
    | nil => rfl
    | cons row rows ih =>
      rw [List.map_cons, List.map_cons, List.filterMap_cons, extractLine_row, ih, List.filter_cons]
      by_cases hname : row.1.name = name
      · simp [hname]
      · simp [hname]
  simp only [Table.lines, List.filterMap_append, hrows, List.filterMap_cons, List.filterMap_nil,
    hborder, hheader, List.nil_append, List.append_nil]

/-- `extract_cell` returns the row that has the name, nothing where there is none, and raises where
there are several; what is no row is never taken for one. -/
theorem extracts_row (t : Table) (name : Text) :
    (∀ c, (t.cells.filter fun c => c.name = name) = [c] →
      extractCell t.lines name = .ok (some c.groups)) ∧
    ((∀ c ∈ t.cells, c.name ≠ name) → extractCell t.lines name = .ok none) ∧
    (1 < (t.cells.filter fun c => c.name = name).length →
      ∃ e, extractCell t.lines name = .error e) ∧
    ∀ line ∈ t.frame, match? cellPattern line = none := by
  have hcells := filterMap_lines t name
  refine ⟨fun c hc => ?_, fun hnone => ?_, fun hseveral => ?_, fun line => match_frame t⟩
  · rw [extractCell, hcells, hc]
    rfl
  · have hempty : (t.cells.filter fun c => c.name = name) = [] :=
      List.filter_eq_nil_iff.mpr fun c hc => by simpa using hnone c hc
    rw [extractCell, hcells, hempty]
    rfl
  · simp only [extractCell, hcells, List.length_map, if_pos hseveral]
    exact ⟨_, rfl⟩

end ExtractCell
end KollaPowerOps
