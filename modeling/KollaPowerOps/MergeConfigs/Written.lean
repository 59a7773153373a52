import KollaPowerOps.MergeConfigs.Accepted

/-!
# MergeConfigs.Written

The lines that `write` writes, and what they read back as.
-/

namespace KollaPowerOps
namespace MergeConfigs

open PyText

/-! ## Lines -/

theorem lines_unlines {ls : List Text} (hls : ∀ l ∈ ls, '\n' ∉ l) :
    lines (ls.flatMap fun l => l ++ ['\n']) = ls ++ [[]] := by
  induction ls with
  | nil => rfl
  | cons l ls ih =>
    rw [List.forall_mem_cons] at hls
    rw [List.flatMap_cons, lines, List.append_assoc, List.singleton_append,
      List.splitOn_append_cons_self_of_not_mem hls.1]
    exact congrArg _ (ih hls.2)

def writtenValue (whitespace : Bool) (key : Text) : Value → List Text
  | [] => [key ++ (Parser.ws whitespace ++ ['='])]
  | first :: rest =>
    (key ++ (Parser.ws whitespace ++ '=' :: (Parser.ws whitespace ++ first))) :: rest.map fun value =>
      List.replicate (key.length + (Parser.ws whitespace).length * 2 + 1) ' ' ++ value

def writtenSection (whitespace : Bool) (s : Section) : List Text :=
  s.entries.flatMap fun a => a.2.flatMap (writtenValue whitespace a.1)

def writtenEntry (whitespace : Bool) (e : Text × Section) : List Text :=
  (if e.1 = orphanSection then [] else ['[' :: (e.1 ++ [']'])]) ++
    (writtenSection whitespace e.2 ++ [[]])

def written (p : Parser) : List Text := p.sections.entries.flatMap (writtenEntry p.whitespace)

theorem writeValue_eq (whitespace : Bool) (key : Text) (value : Value) :
    Parser.writeValue whitespace key value =
      (writtenValue whitespace key value).flatMap fun l => l ++ ['\n'] := by
  cases value with
  | nil => simp [Parser.writeValue, writtenValue]
  | cons first rest => simp [Parser.writeValue, writtenValue, List.flatMap_map]

theorem writeSection_eq (whitespace : Bool) (s : Section) : Parser.writeSection whitespace s =
    (writtenSection whitespace s).flatMap fun l => l ++ ['\n'] := by
  simp only [Parser.writeSection, Parser.writeKeyValue, writtenSection, List.flatMap_assoc,
    ← writeValue_eq]

theorem write_eq (p : Parser) : p.write = (written p).flatMap fun l => l ++ ['\n'] := by
  rw [Parser.write, written, List.flatMap_assoc]
  refine List.flatMap_congr fun e _ => ?_
  rw [writtenEntry, List.flatMap_append, List.flatMap_append, writeSection_eq, List.append_assoc]
  split
  · rfl
  · simp

/-! ## Reading -/

def isSpecial (c : Char) : Bool := c == '[' || c == '#' || c == ';'

/-- The line of the key is not taken for a header or a comment. -/
def ReadableKey (key : Text) : Prop := key.head?.any isSpecial = false

/-- The lines of a value before they were trimmed. -/
def untrim (value : Value) : Value := if value = [] then [[]] else value

theorem untrim_trim {value : Value} (h : PlainValue value) :
    untrim (Parser.trim value) = value := by
  cases value with
  | nil => exact h.elim
  | cons first rest =>
    rw [Parser.trim]
    split
    · rename_i heq
      rw [heq]
      rfl
    · rfl

def render (sections : List (Text × Section)) : List Callback := sections.flatMap fun e =>
  (if e.1 = orphanSection then [] else [.newSection e.1]) ++ e.2.entries.flatMap fun a =>
    a.2.map fun value => .assignment a.1 (untrim value)

theorem ws_spaces (whitespace : Bool) : ∀ c ∈ Parser.ws whitespace, isSpace c = true := by
  cases whitespace
  · simp [Parser.ws]
  · simp [Parser.ws, isSpace]

theorem ws_not_separator (whitespace : Bool) :
    ∀ c ∈ Parser.ws whitespace, (!isSeparator c) = true := by
  cases whitespace
  · simp [Parser.ws]
  · simp [Parser.ws, isSeparator]

theorem kind_of_head {l : Text} {c : Char} (hc : l.head? = some c) (hspace : isSpace c = false)
    (hspecial : isSpecial c = false) : kind l = .assignment := by
  cases l with
  | nil => cases hc
  | cons c' l =>
    cases hc
    rw [kind, rstrip_cons hspace]
    have hblank : ¬(c = ' ' ∨ c = '\t') := by
      rintro (rfl | rfl)
      all_goals exact absurd hspace (by decide)
    simp only [isSpecial, Bool.or_eq_false_iff, beq_eq_false_iff_ne] at hspecial
    simp only [if_neg hblank, if_neg hspecial.1.1, if_neg (not_or.mpr ⟨hspecial.1.2, hspecial.2⟩)]

theorem kind_key {key rest : Text} (hkey : PlainKey key) (hreadable : ReadableKey key) :
    kind (key ++ rest) = .assignment := by
  obtain ⟨c, key, rfl⟩ := List.exists_cons_of_ne_nil hkey.ne
  exact kind_of_head rfl (hkey.stripped.head c rfl) hreadable

theorem split_key {whitespace : Bool} {key gap first : Text} (hkey : PlainKey key)
    (hgap : ∀ c ∈ gap, isSpace c = true) (hfirst : Stripped first) :
    splitKeyValue (rstrip (key ++ (Parser.ws whitespace ++ '=' :: (gap ++ first)))) =
      some (key, first) := by
  have hleft : ∀ c ∈ key ++ Parser.ws whitespace, (!isSeparator c) = true := by
    intro c hc
    rcases List.mem_append.mp hc with hc | hc
    · rw [(hkey.inline c hc).1]
      rfl
    · exact ws_not_separator whitespace c hc
  rw [← List.append_assoc, rstrip_append_cons (by decide), splitKeyValue,
    List.dropWhile_append_of_pos hleft, List.takeWhile_append_of_pos hleft]
  have heq : (!isSeparator '=') = false := by decide
  rw [List.dropWhile_cons, heq, List.takeWhile_cons, heq]
  simp only [Bool.false_eq_true, if_false, List.append_nil]
  rw [strip_append_spaces hkey.stripped (ws_spaces whitespace) hkey.ne, strip_eq,
    lstrip_rstrip_append hgap hfirst, hfirst.rstrip]

theorem kind_rest {line : Text} (hline : PlainRest line) (n : Nat) :
    kind (List.replicate (n + 1) ' ' ++ line) = .continuation ∧
      lstrip (rstrip (List.replicate (n + 1) ' ' ++ line)) = line := by
  have hspaces : ∀ c ∈ List.replicate (n + 1) ' ', isSpace c = true := by
    intro c hc
    rw [List.eq_of_mem_replicate hc]
    rfl
  refine ⟨?_, lstrip_rstrip_append hspaces hline.stripped⟩
  obtain ⟨l, c, rfl⟩ := (List.eq_nil_or_concat' line).resolve_left hline.ne
  rw [kind, ← List.append_assoc, rstrip_append_cons (hline.stripped.last c (by simp)),
    List.replicate_succ]
  simp

theorem kind_header {name : Text} (hsection : PlainSection name) :
    kind ('[' :: (name ++ [']'])) = .header ∧
      getSection (rstrip ('[' :: (name ++ [']']))) = some name := by
  have hrstrip : rstrip ('[' :: (name ++ [']'])) = '[' :: (name ++ [']']) :=
    rstrip_append_cons (c := ']') (by decide) ('[' :: name) []
  have hlength := List.length_pos_iff.mpr hsection.ne
  have hlong : 2 < ('[' :: (name ++ [']'])).length := by
    rw [List.length_cons, List.length_append, List.length_singleton]
    omega
  have hlast : ('[' :: (name ++ [']'])).getLast? = some ']' := by
    rw [← List.cons_append, List.getLast?_concat]
  rw [kind, hrstrip, getSection, if_pos ⟨hlast, hlong⟩]
  simp

theorem reads_lines {whitespace : Bool} {key gap first : Text} {rest : Value} {n : Nat}
    {ls : List Text} {cbs : List Callback} (hkey : PlainKey key) (hreadable : ReadableKey key)
    (hgap : ∀ c ∈ gap, isSpace c = true) (hvalue : PlainValue (first :: rest)) (h : Reads ls cbs) :
    Reads ((key ++ (Parser.ws whitespace ++ '=' :: (gap ++ first))) ::
        (rest.map (fun value => List.replicate (n + 1) ' ' ++ value) ++ ls))
      (.assignment key (first :: rest) :: cbs) := by
  obtain ⟨hfirst, hrest⟩ := hvalue
  have hconts : (rest.map fun value => List.replicate (n + 1) ' ' ++ value).map
      (fun c => lstrip (rstrip c)) = rest := by
    rw [List.map_map]
    exact (List.map_congr_left fun line hline => (kind_rest (hrest line hline) n).2).trans
      (List.map_id rest)
  have hcontinued : ∀ c ∈ rest.map (fun value => List.replicate (n + 1) ' ' ++ value),
      kind c = .continuation := by
    intro c hc
    obtain ⟨line, hline, rfl⟩ := List.mem_map.mp hc
    exact (kind_rest (hrest line hline) n).1
  have hsplit : splitKeyValue (rstrip (key ++ (Parser.ws whitespace ++ '=' :: (gap ++ first)))) =
      some (key, first) := split_key hkey hgap hfirst.stripped
  have hassign := Reads.assignment (kind_key hkey hreadable) hsplit hkey.ne hcontinued h
  rwa [hconts, unquote_of_unquoted hfirst.unquoted] at hassign

theorem reads_value {whitespace : Bool} {key : Text} {value : Value} {ls : List Text}
    {cbs : List Callback} (hkey : PlainKey key) (hreadable : ReadableKey key)
    (hvalue : PlainValue value) (h : Reads ls cbs) :
    Reads (writtenValue whitespace key (Parser.trim value) ++ ls) (.assignment key value :: cbs) := by
  cases value with
  | nil => exact hvalue.elim
  | cons first rest =>
    by_cases htrim : first :: rest = [[]]
    · obtain ⟨rfl, rfl⟩ := List.cons.inj htrim
      rw [Parser.trim, if_pos rfl]
      have hgap : ∀ c ∈ ([] : Text), isSpace c = true := by simp
      exact reads_lines (n := 0) hkey hreadable hgap hvalue h
    · rw [Parser.trim, if_neg htrim]
      exact reads_lines hkey hreadable (ws_spaces whitespace) hvalue h

theorem reads_values {whitespace : Bool} {key : Text} {values : List Value} {ls : List Text}
    {cbs : List Callback} (hkey : PlainKey key) (hreadable : ReadableKey key)
    (hvalues : ∀ value ∈ values, ∃ w, PlainValue w ∧ value = Parser.trim w) (h : Reads ls cbs) :
    Reads (values.flatMap (writtenValue whitespace key) ++ ls)
      (values.map (fun value => .assignment key (untrim value)) ++ cbs) := by
  induction values with
  | nil => exact h
  | cons value values ih =>
    rw [List.forall_mem_cons] at hvalues
    obtain ⟨⟨w, hw, rfl⟩, hvalues⟩ := hvalues
    rw [List.flatMap_cons, List.append_assoc, List.map_cons, untrim_trim hw]
    exact reads_value hkey hreadable hw (ih hvalues)

theorem reads_section {whitespace : Bool} {entries : List (Text × List Value)} {ls : List Text}
    {cbs : List Callback} (hentries : ∀ a ∈ entries, PlainEntry a.1 a.2 ∧ ReadableKey a.1)
    (h : Reads ls cbs) :
    Reads (entries.flatMap (fun a => a.2.flatMap (writtenValue whitespace a.1)) ++ ls)
      (entries.flatMap (fun a => a.2.map fun value => .assignment a.1 (untrim value)) ++ cbs) := by
  induction entries with
  | nil => exact h
  | cons a entries ih =>
    rw [List.forall_mem_cons] at hentries
    obtain ⟨⟨hentry, hreadable⟩, hentries⟩ := hentries
    rw [List.flatMap_cons, List.append_assoc, List.flatMap_cons, List.append_assoc]
    exact reads_values hentry.key hreadable hentry.values (ih hentries)

theorem reads_entries {whitespace : Bool} {sections : List (Text × Section)}
    (hname : ∀ e ∈ sections, PlainSection e.1)
    (hentry : ∀ e ∈ sections, ∀ a ∈ e.2.entries, PlainEntry a.1 a.2 ∧ ReadableKey a.1) :
    Reads (sections.flatMap (writtenEntry whitespace) ++ [[]]) (render sections) := by
  have hblank : kind [] = .blank := rfl
  induction sections with
  | nil => exact .blank hblank .nil
  | cons e sections ih =>
    rw [List.forall_mem_cons] at hname hentry
    have hrest : Reads (e.2.entries.flatMap (fun a => a.2.flatMap (writtenValue whitespace a.1)) ++
        ([] :: (sections.flatMap (writtenEntry whitespace) ++ [[]]))) _ :=
      reads_section hentry.1 (.blank hblank (ih hname.2 hentry.2))
    rw [List.flatMap_cons, writtenEntry, writtenSection, render, List.flatMap_cons]
    by_cases horphan : e.1 = orphanSection
    · simp only [if_pos horphan, List.nil_append, List.append_assoc, List.cons_append]
      exact hrest
    · simp only [if_neg horphan, List.append_assoc, List.cons_append, List.nil_append]
      exact .header (kind_header hname.1).1 (kind_header hname.1).2 hrest

theorem reads_written {p : Parser} (hplain : PlainSections p.sections)
    (hreadable : ∀ e ∈ p.sections.entries, ∀ a ∈ e.2.entries, ReadableKey a.1) :
    Reads (written p ++ [[]]) (render p.sections.entries) :=
  reads_entries hplain.name fun e he a ha => ⟨hplain.entry e he a ha, hreadable e he a ha⟩

/-! ## Every line that is written -/

/-- No line runs into the next, and none begins with white space other than blanks. -/
structure WrittenLine (l : Text) : Prop where
  inline : '\n' ∉ l
  head : ∀ c ∈ l.head?, c = ' ' ∨ isSpace c = false

theorem ws_inline (whitespace : Bool) : '\n' ∉ Parser.ws whitespace := by
  cases whitespace
  · decide
  · decide

theorem PlainKey.written {key rest : Text} (hkey : PlainKey key) (hrest : '\n' ∉ rest) :
    WrittenLine (key ++ rest) where
  inline hmem := by
    rcases List.mem_append.mp hmem with hmem | hmem
    · exact (hkey.inline _ hmem).2 rfl
    · exact hrest hmem
  head c hc := by
    rw [List.head?_append_of_ne_nil _ hkey.ne] at hc
    exact .inr (hkey.stripped.head c hc)

theorem written_value {whitespace : Bool} {key : Text} {value : Value} (hkey : PlainKey key)
    (hvalue : PlainValue value) : ∀ l ∈ writtenValue whitespace key (Parser.trim value),
      WrittenLine l := by
  have hws := ws_inline whitespace
  cases value with
  | nil => exact hvalue.elim
  | cons first rest =>
    obtain ⟨hfirst, hrest⟩ := hvalue
    rw [Parser.trim]
    split
    · intro l hl
      rw [List.mem_singleton.mp hl]
      exact hkey.written (by simp [hws])
    · intro l hl
      rcases List.mem_cons.mp hl with rfl | hl
      · exact hkey.written (by simp [hws, hfirst.inline])
      · obtain ⟨line, hline, rfl⟩ := List.mem_map.mp hl
        refine ⟨?_, fun c hc => .inl ?_⟩
        · rw [List.mem_append, not_or]
          exact ⟨fun hmem => absurd (List.eq_of_mem_replicate hmem) (by decide),
            (hrest line hline).inline⟩
        · simpa [List.replicate_succ, eq_comm] using hc

theorem written_lines {p : Parser} (hplain : PlainSections p.sections) :
    ∀ l ∈ written p, WrittenLine l := by
  intro l hl
  obtain ⟨e, he, hl⟩ := List.mem_flatMap.mp hl
  rw [writtenEntry, List.mem_append, List.mem_append] at hl
  rcases hl with hl | hl | hl
  · split at hl
    · cases hl
    · rw [List.mem_singleton.mp hl]
      refine ⟨?_, fun c hc => .inr ?_⟩
      · simp [(hplain.name e he).inline]
      · cases hc
        decide
  · obtain ⟨a, ha, hl⟩ := List.mem_flatMap.mp hl
    obtain ⟨value, hvalue, hl⟩ := List.mem_flatMap.mp hl
    have hentry := hplain.entry e he a ha
    obtain ⟨w, hw, rfl⟩ := hentry.values value hvalue
    exact written_value hentry.key hw l hl
  · rw [List.mem_singleton.mp hl]
    exact ⟨List.not_mem_nil, by simp⟩

theorem lines_write {p : Parser} (hplain : PlainSections p.sections) :
    lines p.write = written p ++ [[]] := by
  rw [write_eq]
  exact lines_unlines fun l hl => (written_lines hplain l hl).inline

theorem rstrip_of_kind {l : Text} (h : kind l = .assignment) :
    ∃ c t, rstrip l = c :: t ∧ c ≠ ' ' ∧ isSpecial c = false := by
  rw [kind] at h
  split at h
  · cases h
  · rename_i c t hrstrip
    refine ⟨c, t, hrstrip, ?_, ?_⟩
    · rintro rfl
      simp at h
    · rw [Bool.eq_false_iff]
      intro hspecial
      simp only [isSpecial, Bool.or_eq_true, beq_iff_eq] at hspecial
      rcases hspecial with (rfl | rfl) | rfl
      all_goals simp at h

theorem head_splitKeyValue {c : Char} {t key value : Text} (hc : isSpace c = false)
    (h : splitKeyValue (c :: t) = some (key, value)) (hkey : key ≠ []) : key.head? = some c := by
  rw [splitKeyValue] at h
  split at h
  · cases h
  · cases h
    cases hsep : isSeparator c with
    | true => simp [hsep, strip, lstrip] at hkey
    | false =>
      rw [List.takeWhile_cons, hsep, strip_eq]
      simp only [Bool.not_false, if_true]
      rw [lstrip_cons hc, rstrip_cons hc, List.head?_cons]

/-- Keys are read from such lines only if they can be. -/
theorem readable_of_reads {ls : List Text} {cbs : List Callback} (h : Reads ls cbs)
    (hlines : ∀ l ∈ ls, WrittenLine l) {key : Text} {value : Value}
    (hkey : .assignment key value ∈ cbs) : ReadableKey key := by
  induction h with
  | nil => cases hkey
  | blank _ _ ih => exact ih (fun l hl => hlines l (List.mem_cons_of_mem _ hl)) hkey
  | comment _ _ ih => exact ih (fun l hl => hlines l (List.mem_cons_of_mem _ hl)) hkey
  | header _ _ _ ih =>
    rcases List.mem_cons.mp hkey with hkey | hkey
    · cases hkey
    · exact ih (fun l hl => hlines l (List.mem_cons_of_mem _ hl)) hkey
  | @assignment l key' _ conts ls cbs hkind hsplit hne _ _ ih =>
    rcases List.mem_cons.mp hkey with hkey | hkey
    · cases hkey
      obtain ⟨c, t, hrstrip, hblank, hspecial⟩ := rstrip_of_kind hkind
      have hhead : l.head? = some c := by
        obtain ⟨u, hu⟩ : rstrip l <+: l := List.rdropWhile_prefix isSpace l
        rw [← hu, hrstrip]
        rfl
      have hspace := ((hlines l List.mem_cons_self).head c hhead).resolve_left hblank
      rw [hrstrip] at hsplit
      rw [ReadableKey, head_splitKeyValue hspace hsplit hne]
      exact hspecial
    · exact ih (fun x hx => hlines x (List.mem_cons_of_mem _ (List.mem_append_right _ hx))) hkey

end MergeConfigs
end KollaPowerOps
