import KollaPowerOps.MergeConfigs.Written

/-!
# MergeConfigs.RoundTrip

When the text that `write` writes is parsed to the sections that were written.

Assignments without a section are written without a header, wherever their section stands: they
have to come first.
-/

namespace KollaPowerOps
namespace MergeConfigs

open PyText
open OrderedDict (firsts mem_firsts)

/-! ## The log of what is written -/

def renderEntry (e : Text × Section) : Log :=
  (if e.1 = orphanSection then [] else [(e.1, none)]) ++ e.2.entries.flatMap fun a =>
    a.2.map fun value => (e.1, some (a.1, value))

theorem log_assignments (current : Text) (l : List (Text × Value)) (cbs : List Callback) :
    log current (l.map (fun a => .assignment a.1 a.2) ++ cbs) =
      l.map (fun a => (current, some (a.1, Parser.trim a.2))) ++ log current cbs := by
  induction l with
  | nil => rfl
  | cons a l ih => exact congrArg _ ih

theorem log_section (current : Text) {s : Section} (hs : ∀ a ∈ s.entries, PlainEntry a.1 a.2)
    (cbs : List Callback) :
    log current (s.entries.flatMap
        (fun a => a.2.map fun value => .assignment a.1 (untrim value)) ++ cbs) =
      s.entries.flatMap (fun a => a.2.map fun value => (current, some (a.1, value))) ++
        log current cbs := by
  have hleft : s.entries.flatMap (fun a => a.2.map fun value =>
      Callback.assignment a.1 (untrim value)) = (s.entries.flatMap fun a => a.2.map fun value =>
        (a.1, untrim value)).map fun a => .assignment a.1 a.2 := by
    simp only [List.map_flatMap, List.map_map, Function.comp_def]
  have hright : s.entries.flatMap (fun a => a.2.map fun value => (current, some (a.1, value))) =
      (s.entries.flatMap fun a => a.2.map fun value => (a.1, untrim value)).map fun a =>
        (current, some (a.1, Parser.trim a.2)) := by
    simp only [List.map_flatMap, List.map_map, Function.comp_def]
    refine List.flatMap_congr fun a ha => List.map_congr_left fun value hvalue => ?_
    obtain ⟨w, hw, rfl⟩ := (hs a ha).values value hvalue
    rw [untrim_trim hw]
  rw [hleft, hright, log_assignments]

theorem log_render_named {sections : List (Text × Section)}
    (hplain : ∀ e ∈ sections, ∀ a ∈ e.2.entries, PlainEntry a.1 a.2)
    (hnamed : ∀ e ∈ sections, e.1 ≠ orphanSection) (current : Text) :
    log current (render sections) = sections.flatMap renderEntry := by
  induction sections generalizing current with
  | nil => rfl
  | cons e sections ih =>
    rw [List.forall_mem_cons] at hplain hnamed
    rw [render, List.flatMap_cons, List.flatMap_cons, renderEntry, if_neg hnamed.1, if_neg hnamed.1,
      List.append_assoc, List.append_assoc, List.singleton_append, List.singleton_append, log]
    exact congrArg _ ((log_section e.1 hplain.1 _).trans (congrArg _ (ih hplain.2 hnamed.2 e.1)))

/-- If there are assignments without a section, they come first. -/
def OrphansFirst (sections : List (Text × Section)) : Prop :=
  orphanSection ∈ sections.map Prod.fst →
    ∃ s rest, sections = (orphanSection, s) :: rest ∧ s.entries ≠ []

theorem log_render {sections : OrderedDict Text Section} (hplain : PlainSections sections)
    (hfirst : OrphansFirst sections.entries) :
    log orphanSection (render sections.entries) = sections.entries.flatMap renderEntry := by
  by_cases horphan : orphanSection ∈ sections.entries.map Prod.fst
  · obtain ⟨s, rest, heq, -⟩ := hfirst horphan
    have hentry := hplain.entry
    have hnodup := sections.nodup
    rw [heq, List.map_cons, List.nodup_cons] at hnodup
    rw [heq, List.forall_mem_cons] at hentry
    have hnamed : ∀ e ∈ rest, e.1 ≠ orphanSection := fun e he horphan =>
      hnodup.1 (List.mem_map.mpr ⟨e, he, horphan⟩)
    rw [heq, render, List.flatMap_cons, List.flatMap_cons, renderEntry, if_pos rfl, if_pos rfl]
    exact (log_section orphanSection hentry.1 _).trans
      (congrArg _ (log_render_named hentry.2 hnamed orphanSection))
  · exact log_render_named hplain.entry
      (fun e he heq => horphan (heq ▸ List.mem_map_of_mem he)) orphanSection

theorem sections_renderEntry (e : Text × Section) :
    ∀ x ∈ (renderEntry e).sections, x = e.1 := by
  intro x hx
  rw [renderEntry, Log.sections_append, List.mem_append] at hx
  rcases hx with hx | hx
  · split at hx
    · cases hx
    · exact List.mem_singleton.mp hx
  · obtain ⟨entry, hentry, rfl⟩ := List.mem_map.mp hx
    obtain ⟨a, -, hentry⟩ := List.mem_flatMap.mp hentry
    obtain ⟨value, -, rfl⟩ := List.mem_map.mp hentry
    rfl

theorem assignments_renderEntry (e : Text × Section) : (renderEntry e).assignments e.1 =
    e.2.entries.flatMap fun a => a.2.map fun value => (a.1, value) := by
  have hheader : Log.assignments e.1 (if e.1 = orphanSection then [] else [(e.1, none)]) = [] := by
    split
    · rfl
    · simp [Log.assignments]
  rw [renderEntry, Log.assignments, List.filterMap_append]
  refine (congrArg (· ++ _) hheader).trans ?_
  rw [List.nil_append, List.filterMap_flatMap]
  refine List.flatMap_congr fun a _ => ?_
  simp [List.filterMap_map]

theorem assignments_render {sections : OrderedDict Text Section} {name : Text} {s : Section}
    (hs : sections.get? name = some s) :
    Log.assignments name (sections.entries.flatMap renderEntry) =
      s.entries.flatMap fun a => a.2.map fun value => (a.1, value) := by
  have hother : ∀ e ∈ sections.entries, e.1 ≠ name → (renderEntry e).assignments name = [] :=
    fun e _ hne => Log.assignments_of_not_mem fun hmem => hne (sections_renderEntry e _ hmem).symm
  rw [Log.assignments, List.filterMap_flatMap]
  exact (OrderedDict.flatMap_entries hs hother).trans (assignments_renderEntry (name, s))

theorem values_render {sections : OrderedDict Text Section} {name key : Text} {s : Section}
    (hs : sections.get? name = some s) :
    Log.values name key (sections.entries.flatMap renderEntry) = (s.get? key).getD [] := by
  have hkey : ∀ a : Text × List Value,
      (a.2.map fun value => (a.1, value)).filterMap (fun x => if x.1 = key then some x.2 else none) =
        if a.1 = key then a.2 else [] := by
    intro a
    rw [List.filterMap_map]
    split
    · simp [*]
    · simp [*]
  rw [Log.values, assignments_render hs, List.filterMap_flatMap]
  simp only [hkey]
  cases hget : s.get? key with
  | none =>
    exact OrderedDict.flatMap_entries_of_none hget fun a _ hne => if_neg hne
  | some values =>
    exact (OrderedDict.flatMap_entries hget fun a _ hne => if_neg hne).trans (if_pos rfl)

theorem sections_renderEntry_ne {sections : OrderedDict Text Section}
    (hplain : PlainSections sections) (hfirst : OrphansFirst sections.entries) :
    ∀ e ∈ sections.entries, (renderEntry e).sections ≠ [] := by
  intro e he hnil
  rw [renderEntry, Log.sections_append, List.append_eq_nil_iff] at hnil
  by_cases horphan : e.1 = orphanSection
  · obtain ⟨s, rest, heq, hne⟩ := hfirst (List.mem_map.mpr ⟨e, he, horphan⟩)
    have hs : e.2 = s := by
      have hget := OrderedDict.mem_entries.mp he
      have hhead : (orphanSection, s) ∈ sections.entries := heq ▸ List.mem_cons_self
      rw [horphan, OrderedDict.mem_entries.mp hhead, Option.some_inj] at hget
      exact hget.symm
    obtain ⟨a, ha⟩ := List.exists_mem_of_ne_nil _ hne
    obtain ⟨value, hvalue⟩ := List.exists_mem_of_ne_nil _ (hplain.entry e he a (hs ▸ ha)).ne
    have hmem : (e.1, some (a.1, value)) ∈ e.2.entries.flatMap fun a =>
        a.2.map fun value => (e.1, some (a.1, value)) :=
      List.mem_flatMap.mpr ⟨a, hs ▸ ha, List.mem_map_of_mem hvalue⟩
    rw [List.map_eq_nil_iff.mp hnil.2] at hmem
    exact List.not_mem_nil hmem
  · rw [if_neg horphan] at hnil
    exact List.cons_ne_nil _ _ hnil.1

/-- What is rendered makes the sections that are rendered. -/
theorem merged_render {sections : OrderedDict Text Section} (hplain : PlainSections sections)
    (hfirst : OrphansFirst sections.entries) :
    Merged [sections.entries.flatMap renderEntry] sections := by
  refine ⟨?_, fun name s hs => ?_, fun name s key hs => ?_⟩
  · rw [List.flatMap_singleton, Log.sections, List.map_flatMap]
    exact (OrderedDict.firsts_flatMap sections.nodup (fun e _ => sections_renderEntry e)
      (sections_renderEntry_ne hplain hfirst)).symm
  · rw [List.flatMap_singleton, Log.keys, assignments_render hs, List.map_flatMap]
    have hentry := hplain.entry _ (OrderedDict.mem_entries.mpr hs)
    refine (OrderedDict.firsts_flatMap s.nodup (fun a _ x hx => ?_) fun a ha hnil => ?_).symm
    · obtain ⟨_, hmem, rfl⟩ := List.mem_map.mp hx
      obtain ⟨_, _, rfl⟩ := List.mem_map.mp hmem
      rfl
    · rw [List.map_map, List.map_eq_nil_iff] at hnil
      exact (hentry a ha).ne hnil
  · rw [List.map_singleton, values_render hs]
    cases hget : s.get? key with
    | none => rfl
    | some values =>
      have hne := (hplain.entry _ (OrderedDict.mem_entries.mpr hs) _
        (OrderedDict.mem_entries.mpr hget)).ne
      simp [hne]

/-! ## The sources -/

def ReadableSections (sections : OrderedDict Text Section) : Prop :=
  ∀ e ∈ sections.entries, ∀ a ∈ e.2.entries, ReadableKey a.1

/-- No key of the sources looks like a header or a comment. -/
def ReadableKeys (cbss : List (List Callback)) : Prop :=
  ∀ cbs ∈ cbss, ∀ key value, .assignment key value ∈ cbs → ReadableKey key

/-- The sections of the sources, each time something is read in them. -/
def readSections (cbss : List (List Callback)) : List Text :=
  (cbss.map (log orphanSection)).flatMap Log.sections

/-- If anything is without a section, then what the sources begin with is. -/
def OrphansLead (cbss : List (List Callback)) : Prop := orphanSection ∈ readSections cbss →
  (readSections cbss).head? = some orphanSection ∧
    ∃ cbs ∈ cbss, Log.keys orphanSection (log orphanSection cbs) ≠ []

theorem mem_log_of_assignment {key : Text} {value : Value} {cbs : List Callback}
    (h : .assignment key value ∈ cbs) (current : Text) :
    ∃ name, (name, some (key, Parser.trim value)) ∈ log current cbs := by
  induction cbs generalizing current with
  | nil => cases h
  | cons cb cbs ih =>
    cases cb with
    | newSection s =>
      obtain ⟨name, hmem⟩ := ih ((List.mem_cons.mp h).resolve_left nofun) s
      exact ⟨name, List.mem_cons_of_mem _ hmem⟩
    | assignment k w =>
      rcases List.mem_cons.mp h with h | h
      · cases h
        exact ⟨current, List.mem_cons_self⟩
      · obtain ⟨name, hmem⟩ := ih h current
        exact ⟨name, List.mem_cons_of_mem _ hmem⟩

section Sources

variable {cbss : List (List Callback)} {sections : OrderedDict Text Section}

theorem Merged.readable_iff (h : Merged (cbss.map (log orphanSection)) sections) :
    ReadableSections sections ↔ ReadableKeys cbss := by
  constructor
  · intro hreadable cbs hcbs key value hmem
    obtain ⟨name, hlog⟩ := mem_log_of_assignment hmem orphanSection
    have hin : log orphanSection cbs ∈ cbss.map (log orphanSection) := List.mem_map_of_mem hcbs
    have hsection : name ∈ sections.keys := by
      rw [h.order, mem_firsts]
      exact List.mem_flatMap.mpr ⟨_, hin, List.mem_map.mpr ⟨_, hlog, rfl⟩⟩
    obtain ⟨s, hs⟩ := OrderedDict.mem_keys.mp hsection
    have hkey : key ∈ s.keys := by
      rw [h.keys name s hs, mem_firsts, List.mem_flatMap]
      exact ⟨_, hin, Log.mem_keys_iff.mpr (List.ne_nil_of_mem (Log.mem_values_iff.mpr hlog))⟩
    obtain ⟨values, hvalues⟩ := OrderedDict.mem_keys.mp hkey
    exact hreadable _ (OrderedDict.mem_entries.mpr hs) _ (OrderedDict.mem_entries.mpr hvalues)
  · intro hreadable e he a ha
    obtain ⟨hne, _, hl, hvalues⟩ := h.mem_values (OrderedDict.mem_entries.mp he)
      (OrderedDict.mem_entries.mp ha)
    obtain ⟨cbs, hcbs, rfl⟩ := List.mem_map.mp hl
    obtain ⟨value, hvalue⟩ := List.exists_mem_of_ne_nil _ hne
    rw [hvalues] at hvalue
    obtain ⟨w, hw, -⟩ := mem_log_assignment (Log.mem_values_iff.mp hvalue)
    exact hreadable cbs hcbs a.1 w hw

theorem Merged.orphansFirst_iff (h : Merged (cbss.map (log orphanSection)) sections) :
    OrphansFirst sections.entries ↔ OrphansLead cbss := by
  have horder : sections.keys = firsts (readSections cbss) := h.order
  have hhead : (readSections cbss).head? = sections.keys.head? := by
    rw [horder, OrderedDict.head?_firsts]
  have hmem : orphanSection ∈ sections.entries.map Prod.fst ↔ orphanSection ∈ readSections cbss := by
    change orphanSection ∈ sections.keys ↔ _
    rw [horder, mem_firsts]
  -- whether the section has an assignment
  have hentries : ∀ s, sections.get? orphanSection = some s → (s.entries ≠ [] ↔
      ∃ cbs ∈ cbss, Log.keys orphanSection (log orphanSection cbs) ≠ []) := by
    intro s hs
    have hkeys := h.keys orphanSection s hs
    rw [List.flatMap_map] at hkeys
    constructor
    · intro hne
      obtain ⟨a, ha⟩ := List.exists_mem_of_ne_nil _ hne
      have hkey : a.1 ∈ s.keys := List.mem_map_of_mem ha
      rw [hkeys, mem_firsts, List.mem_flatMap] at hkey
      obtain ⟨cbs, hcbs, hkey⟩ := hkey
      exact ⟨cbs, hcbs, List.ne_nil_of_mem hkey⟩
    · rintro ⟨cbs, hcbs, hne⟩ hnil
      obtain ⟨key, hkey⟩ := List.exists_mem_of_ne_nil _ hne
      have hin : key ∈ s.keys := by
        rw [hkeys, mem_firsts]
        exact List.mem_flatMap.mpr ⟨cbs, hcbs, hkey⟩
      rw [OrderedDict.keys, hnil] at hin
      exact List.not_mem_nil hin
  rw [OrphansFirst, OrphansLead, hmem, hhead, OrderedDict.keys]
  refine imp_congr_right fun hin => ?_
  constructor
  · rintro ⟨s, rest, heq, hne⟩
    have hget : sections.get? orphanSection = some s :=
      OrderedDict.mem_entries.mp (heq ▸ List.mem_cons_self)
    exact ⟨by rw [heq]; rfl, (hentries s hget).mp hne⟩
  · rintro ⟨hfirst, hassigned⟩
    cases hentry : sections.entries with
    | nil => simp [hentry] at hfirst
    | cons e rest =>
      obtain ⟨name, s⟩ := e
      rw [hentry, List.map_cons, List.head?_cons, Option.some_inj] at hfirst
      cases hfirst
      have hget : sections.get? orphanSection = some s :=
        OrderedDict.mem_entries.mp (hentry ▸ List.mem_cons_self)
      exact ⟨s, rest, rfl, (hentries s hget).mpr hassigned⟩

/-- What is written with a header first has no assignment without a section. -/
theorem orphan_not_mem_log {e : Text × Section} (he : e.1 ≠ orphanSection)
    (rest : List (Text × Section)) :
    orphanSection ∉ (log orphanSection (render (e :: rest))).sections := by
  have hnew : ∀ (l : List (Text × Section)), .newSection orphanSection ∉ render l := by
    intro l hmem
    obtain ⟨e, -, hmem⟩ := List.mem_flatMap.mp hmem
    rcases List.mem_append.mp hmem with hmem | hmem
    · split at hmem
      · cases hmem
      · rename_i hne
        exact hne (Callback.newSection.inj (List.mem_singleton.mp hmem)).symm
    · obtain ⟨a, -, hmem⟩ := List.mem_flatMap.mp hmem
      obtain ⟨value, -, hmem⟩ := List.mem_map.mp hmem
      cases hmem
  have hcons : ∃ cbs, render (e :: rest) = .newSection e.1 :: cbs := by
    rw [render, List.flatMap_cons, if_neg he]
    exact ⟨_, rfl⟩
  obtain ⟨cbs, hcbs⟩ := hcons
  have hnot := hnew (e :: rest)
  rw [hcbs] at hnot ⊢
  intro hmem
  rcases List.mem_cons.mp hmem with heq | hmem
  · exact he heq.symm
  · rcases mem_log_section hmem with heq | hmem
    · exact he heq.symm
    · exact hnot (List.mem_cons_of_mem _ hmem)

theorem orphansFirst_of_mem {sections : OrderedDict Text Section}
    (h : orphanSection ∈ sections.entries.map Prod.fst →
      orphanSection ∈ (log orphanSection (render sections.entries)).sections) :
    OrphansFirst sections.entries := by
  intro hin
  have hmem := h hin
  have hnodup := sections.nodup
  cases hentries : sections.entries with
  | nil => simp [hentries] at hin
  | cons e rest =>
    obtain ⟨name, s⟩ := e
    rw [hentries] at hmem hnodup
    rw [List.map_cons, List.nodup_cons] at hnodup
    by_cases hname : name = orphanSection
    · subst hname
      refine ⟨s, rest, rfl, fun hnil => ?_⟩
      have hrender : render ((orphanSection, s) :: rest) = render rest := by
        rw [render, List.flatMap_cons, if_pos rfl]
        simp [hnil, render]
      rw [hrender] at hmem
      cases rest with
      | nil => cases hmem
      | cons e' rest =>
        refine orphan_not_mem_log (fun heq => hnodup.1 ?_) rest hmem
        exact List.mem_map.mpr ⟨e', List.mem_cons_self, heq⟩
    · exact absurd hmem (orphan_not_mem_log hname rest)

end Sources

/-! ## The round trip -/

section RoundTrip

variable {base : BaseParser} {sources : List Text} {cbss : List (List Callback)} {p : Parser}

/-- The text that is written is parsed, by a new parser, to the sections that were written. -/
def RoundTrips (base : BaseParser) (p : Parser) : Prop :=
  ∃ q, Parser.parse base {} p.write = some q ∧ q.sections = p.sections

theorem plain_sources
    (hcbss : List.Forall₂ (fun text cbs => base.callbacks text = some cbs) sources cbss)
    (hunquoted : ∀ text ∈ sources, Unquoted text) : ∀ cbs ∈ cbss, ∀ cb ∈ cbs, PlainCall cb := by
  induction hcbss with
  | nil => simp
  | cons hcbs _ ih =>
    rw [List.forall_mem_cons] at hunquoted ⊢
    exact ⟨plain_reads ((base.grammar _ _).mp hcbs) (fun _ => inline_of_mem_lines) hunquoted.1,
      ih hunquoted.2⟩

/-- A new parser makes the sections of the calls. -/
theorem parse_new {text : Text} {cbs : List Callback} (hcbs : base.callbacks text = some cbs) :
    ∃ q, Parser.parse base {} text = some q ∧ Merged [log orphanSection cbs] q.sections := by
  have hnil : Merged [] ({} : Parser).sections := Merged.nil
  exact hnil.parse hcbs

theorem roundTrips_iff (hplain : PlainSections p.sections) : RoundTrips base p ↔
    ReadableSections p.sections ∧ OrphansFirst p.sections.entries := by
  constructor
  · rintro ⟨q, hq, hsections⟩
    obtain ⟨cbs, hcbs, -⟩ := Option.map_eq_some_iff.mp hq
    obtain ⟨q', hq', hmerged⟩ := parse_new hcbs
    rw [hq, Option.some_inj] at hq'
    rw [← hq', hsections] at hmerged
    have hreads := (base.grammar _ _).mp hcbs
    rw [lines_write hplain] at hreads
    have hlines : ∀ l ∈ written p ++ [[]], WrittenLine l := by
      intro l hl
      rcases List.mem_append.mp hl with hl | hl
      · exact written_lines hplain l hl
      · rw [List.mem_singleton.mp hl]
        exact ⟨List.not_mem_nil, by simp⟩
    have hreadable : ReadableSections p.sections := by
      have hkeys : ReadableKeys [cbs] := by
        intro cbs' hcbs' key value hmem
        rw [List.mem_singleton.mp hcbs'] at hmem
        exact readable_of_reads hreads hlines hmem
      have hiff : ReadableSections p.sections ↔ ReadableKeys [cbs] := Merged.readable_iff hmerged
      exact hiff.mpr hkeys
    refine ⟨hreadable, orphansFirst_of_mem fun hin => ?_⟩
    -- the lines read as what was rendered, and as nothing else
    have hrender := (base.grammar _ _).mpr (lines_write hplain ▸ reads_written hplain hreadable)
    rw [hcbs, Option.some_inj] at hrender
    rw [← hrender]
    have hkey : orphanSection ∈ p.sections.keys := hin
    rwa [hmerged.order, mem_firsts, List.flatMap_singleton] at hkey
  · rintro ⟨hreadable, hfirst⟩
    have hcbs := (base.grammar _ _).mpr (lines_write hplain ▸ reads_written hplain hreadable)
    obtain ⟨q, hq, hmerged⟩ := parse_new hcbs
    rw [log_render hplain hfirst] at hmerged
    exact ⟨q, hq, hmerged.unique (merged_render hplain hfirst)⟩

theorem roundTrips_sources_iff (h : Merged (cbss.map (log orphanSection)) p.sections)
    (hcbss : List.Forall₂ (fun text cbs => base.callbacks text = some cbs) sources cbss)
    (hunquoted : ∀ text ∈ sources, Unquoted text) :
    RoundTrips base p ↔ ReadableKeys cbss ∧ OrphansLead cbss := by
  rw [roundTrips_iff (h.plain (plain_sources hcbss hunquoted)), h.readable_iff, h.orphansFirst_iff]

/-- The sections of some sources survive being written and parsed exactly if no key of the sources
looks like a header or a comment, and what is without a section comes first. -/
theorem round_trip_iff {whitespace : Bool}
    (hcbss : List.Forall₂ (fun text cbs => base.callbacks text = some cbs) sources cbss)
    (hunquoted : ∀ text ∈ sources, Unquoted text) :
    ∃ p, Parser.parseAll base { whitespace := whitespace } sources = some p ∧
      (RoundTrips base p ↔ ReadableKeys cbss ∧ OrphansLead cbss) := by
  have hnil : Merged [] ({ whitespace := whitespace } : Parser).sections := Merged.nil
  obtain ⟨p, hp, hmerged⟩ := hnil.parseAll hcbss
  exact ⟨p, hp, roundTrips_sources_iff hmerged hcbss hunquoted⟩

/-- An assignment without a section in the second source. -/
def lateOrphan : List Text := [['[', 'a', ']', '\n', 'x', '=', '1'], ['y', '=', '2']]

/-- A vertical tab before a key that begins with a number sign. -/
def disguised : List Text := [['\x0b', '#', 'x', '=', '1']]

theorem late_orphan_lost :
    ((∀ text ∈ lateOrphan, Unquoted text) ∧
      ∃ p, Parser.parseAll scanner {} lateOrphan = some p ∧ ¬RoundTrips scanner p) ∧
    ((∀ text ∈ disguised, Unquoted text) ∧
      ∃ p, Parser.parseAll scanner {} disguised = some p ∧ ¬RoundTrips scanner p) := by
  have hnil : Merged [] ({} : Parser).sections := Merged.nil
  have hlate : ∀ text ∈ lateOrphan, Unquoted text := by
    unfold Unquoted
    decide
  have hdisguised : ∀ text ∈ disguised, Unquoted text := by
    unfold Unquoted
    decide
  have hlates : List.Forall₂ (fun text cbs => scanner.callbacks text = some cbs) lateOrphan
      [[.newSection ['a'], .assignment ['x'] [['1']]], [.assignment ['y'] [['2']]]] :=
    .cons (by decide) (.cons (by decide) .nil)
  have hdisguiseds : List.Forall₂ (fun text cbs => scanner.callbacks text = some cbs) disguised
      [[.assignment ['#', 'x'] [['1']]]] := .cons (by decide) .nil
  refine ⟨⟨hlate, ?_⟩, ⟨hdisguised, ?_⟩⟩
  · obtain ⟨p, hp, hmerged⟩ := hnil.parseAll hlates
    refine ⟨p, hp, fun hround => ?_⟩
    have hlead := ((roundTrips_sources_iff hmerged hlates hlate).mp hround).2
    exact absurd (hlead (by decide)).1 (by decide)
  · obtain ⟨p, hp, hmerged⟩ := hnil.parseAll hdisguiseds
    refine ⟨p, hp, fun hround => ?_⟩
    have hkeys := ((roundTrips_sources_iff hmerged hdisguiseds hdisguised).mp hround).1
    have hkey : (['#', 'x'] : Text).head?.any isSpecial = false :=
      hkeys _ List.mem_cons_self ['#', 'x'] [['1']] List.mem_cons_self
    exact absurd hkey (by decide)

/-- What is without a section comes first in these sources. -/
def wellPlaced : List Text :=
  [['y', '=', '2', '\n', '[', 'a', ']', '\n', 'x', ':', '\n', ' ', '1'], ['y', ' ', '=', '\n']]

theorem well_placed_round_trip :
    ∃ p, Parser.parseAll scanner { whitespace := true } wellPlaced = some p ∧
      RoundTrips scanner p := by
  have hunquoted : ∀ text ∈ wellPlaced, Unquoted text := by
    unfold Unquoted
    decide
  have hreads : List.Forall₂ (fun text cbs => scanner.callbacks text = some cbs) wellPlaced
      [[.assignment ['y'] [['2']], .newSection ['a'], .assignment ['x'] [[], ['1']]],
        [.assignment ['y'] [[]]]] := .cons (by decide) (.cons (by decide) .nil)
  obtain ⟨p, hp, hiff⟩ := round_trip_iff hreads hunquoted
  refine ⟨p, hp, hiff.mpr ⟨fun cbs hcbs key value hmem => ?_, fun _ => ⟨by decide, by decide⟩⟩⟩
  simp only [List.mem_cons, List.not_mem_nil, or_false] at hcbs
  rcases hcbs with rfl | rfl
  all_goals
    simp only [List.mem_cons, Callback.assignment.injEq, reduceCtorEq, false_or,
      List.not_mem_nil, or_false] at hmem
  · rcases hmem with ⟨rfl, -⟩ | ⟨rfl, -⟩
    · rfl
    · rfl
  · obtain ⟨rfl, -⟩ := hmem
    rfl

end RoundTrip

end MergeConfigs
end KollaPowerOps
