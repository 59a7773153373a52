import KollaPowerOps.MergeConfigs.Parser

/-!
# MergeConfigs.Override

What the sections hold when some sources are parsed: every key has the values of the last source
that assigns it.
-/

namespace KollaPowerOps
namespace MergeConfigs

open OrderedDict (firsts firsts_snoc mem_firsts)

/-- The headers and the assignments of a source, each with its section. -/
abbrev Log := List (Text × Option (Text × Value))

/-- The log of some calls from a section on. -/
def log : Text → List Callback → Log
  | _, [] => []
  | _, .newSection name :: cbs => (name, none) :: log name cbs
  | name, .assignment key value :: cbs =>
    (name, some (key, Parser.trim value)) :: log name cbs

namespace Log

def sections (l : Log) : List Text := l.map Prod.fst

/-- What is assigned in a section. -/
def assignments (name : Text) (l : Log) : List (Text × Value) :=
  l.filterMap fun e => if e.1 = name then e.2 else none

def keys (name : Text) (l : Log) : List Text := (l.assignments name).map Prod.fst

/-- The values that are assigned to a key of a section, in order. -/
def values (name key : Text) (l : Log) : List Value :=
  (l.assignments name).filterMap fun a => if a.1 = key then some a.2 else none

variable {name key : Text} {l l' : Log}

@[simp] theorem sections_append : sections (l ++ l') = l.sections ++ l'.sections := List.map_append

@[simp] theorem keys_append : keys name (l ++ l') = l.keys name ++ l'.keys name := by
  rw [keys, assignments, List.filterMap_append, List.map_append]
  rfl

@[simp] theorem values_append :
    values name key (l ++ l') = l.values name key ++ l'.values name key := by
  rw [values, assignments, List.filterMap_append, List.filterMap_append]
  rfl

theorem assignments_of_not_mem (h : name ∉ l.sections) : l.assignments name = [] := by
  refine List.filterMap_eq_nil_iff.mpr fun e he => if_neg fun heq => h ?_
  exact List.mem_map.mpr ⟨e, he, heq⟩

theorem mem_keys_iff : key ∈ l.keys name ↔ l.values name key ≠ [] := by
  rw [keys, values, Ne, List.filterMap_eq_nil_iff, List.mem_map]
  simp only [ite_eq_right_iff, reduceCtorEq, imp_false, not_forall, not_not, exists_prop]

end Log

theorem Log.mem_values_iff {name key : Text} {value : Value} {l : Log} :
    value ∈ l.values name key ↔ (name, some (key, value)) ∈ l := by
  rw [values, List.mem_filterMap]
  constructor
  · rintro ⟨⟨key', value'⟩, ha, hvalue⟩
    rw [Option.ite_none_right_eq_some, Option.some_inj] at hvalue
    obtain ⟨rfl, rfl⟩ := hvalue
    obtain ⟨⟨s, a⟩, he, hentry⟩ := List.mem_filterMap.mp ha
    rw [Option.ite_none_right_eq_some] at hentry
    obtain ⟨rfl, rfl⟩ := hentry
    exact he
  · intro he
    exact ⟨(key, value), List.mem_filterMap.mpr ⟨_, he, if_pos rfl⟩, if_pos rfl⟩

theorem mem_log_assignment {name current key : Text} {value : Value} {cbs : List Callback}
    (h : (name, some (key, value)) ∈ log current cbs) :
    ∃ w, .assignment key w ∈ cbs ∧ value = Parser.trim w := by
  induction cbs generalizing current with
  | nil => cases h
  | cons cb cbs ih =>
    cases cb with
    | newSection s =>
      rcases List.mem_cons.mp h with h | h
      · cases h
      · obtain ⟨w, hw, hvalue⟩ := ih h
        exact ⟨w, List.mem_cons_of_mem _ hw, hvalue⟩
    | assignment k w =>
      rcases List.mem_cons.mp h with h | h
      · cases h
        exact ⟨w, List.mem_cons_self, rfl⟩
      · obtain ⟨w, hw, hvalue⟩ := ih h
        exact ⟨w, List.mem_cons_of_mem _ hw, hvalue⟩

theorem mem_log_section {name current : Text} {cbs : List Callback}
    (h : name ∈ (log current cbs).sections) :
    name = current ∨ .newSection name ∈ cbs := by
  induction cbs generalizing current with
  | nil => cases h
  | cons cb cbs ih =>
    cases cb with
    | newSection s =>
      rcases List.mem_cons.mp h with rfl | h
      · exact .inr List.mem_cons_self
      · rcases ih h with rfl | h
        · exact .inr List.mem_cons_self
        · exact .inr (List.mem_cons_of_mem _ h)
    | assignment k w =>
      rcases List.mem_cons.mp h with rfl | h
      · exact .inl rfl
      · exact (ih h).imp id (List.mem_cons_of_mem _)

/-- The sections hold what some sources assign. -/
structure Merged (logs : List Log) (sections : OrderedDict Text Section) : Prop where
  order : sections.keys = firsts (logs.flatMap Log.sections)
  keys : ∀ name s, sections.get? name = some s →
    s.keys = firsts (logs.flatMap (Log.keys name))
  values : ∀ name s key, sections.get? name = some s →
    s.get? key = ((logs.map (Log.values name key)).filter (· ≠ [])).getLast?

/-! ## One source -/

/-- The sections of a source hold what it has assigned so far, and its section is the current. -/
structure Reading (l : Log) (current : Text) (p : Parser) : Prop where
  order : p.curSections.keys = firsts l.sections
  keys : ∀ name s, p.curSections.get? name = some s →
    s.keys = firsts (l.keys name)
  values : ∀ name s key, p.curSections.get? name = some s →
    s.get? key = if l.values name key = [] then none else some (l.values name key)
  current : p.curSection = none ∧ current = orphanSection ∨
    p.curSection = some current ∧ current ∈ p.curSections.keys

namespace Reading

variable {l : Log} {current : Text} {p : Parser}

theorem start (p : Parser) :
    Reading [] orphanSection { p with curSections := .empty, curSection := none } where
  order := rfl
  keys _ _ h := nomatch h
  values _ _ _ h := nomatch h
  current := .inl ⟨rfl, rfl⟩

theorem newSection (h : Reading l current p) (name : Text) :
    Reading (l ++ [(name, none)]) name (p.newSection name) := by
  have hkeys : ∀ s, Log.keys s (l ++ [(name, none)]) = l.keys s := by
    intro s
    simp [Log.keys, Log.assignments]
  have hvalues : ∀ s k, Log.values s k (l ++ [(name, none)]) = l.values s k := by
    intro s k
    simp [Log.values, Log.assignments]
  have hsections : Log.sections (l ++ [(name, none)]) = l.sections ++ [name] :=
    Log.sections_append
  have hmem : name ∈ p.curSections.keys ↔ name ∈ l.sections := by
    rw [h.order, mem_firsts]
  rw [Parser.newSection]
  split
  · rename_i e es hnodup hget
    have hin := OrderedDict.mem_keys.mpr ⟨_, hget⟩
    refine ⟨?_, fun s d hd => ?_, fun s d k hd => ?_, .inr ⟨rfl, hin⟩⟩
    · rw [hsections, firsts_snoc, if_pos (hmem.mp hin)]
      exact h.order
    · rw [hkeys]
      exact h.keys s d hd
    · rw [hvalues]
      exact h.values s d k hd
  · rename_i hempty
    -- the dictionary is missing or empty, so nothing was assigned in the section
    have hnone : l.keys name = [] := by
      cases hget : p.curSections.get? name with
      | none =>
        rw [Log.keys, Log.assignments_of_not_mem, List.map_nil]
        exact fun hin => OrderedDict.get?_eq_none.mp hget (hmem.mpr hin)
      | some d =>
        obtain ⟨_ | ⟨e, es⟩, hnodup⟩ := d
        · refine List.eq_nil_iff_forall_not_mem.mpr fun k hk => ?_
          rw [← mem_firsts, ← h.keys name _ hget] at hk
          exact List.not_mem_nil hk
        · exact absurd hget (hempty e es hnodup)
    have hnone' : ∀ k, l.values name k = [] := fun k => by
      by_contra hne
      rw [← Ne, ← Log.mem_keys_iff, hnone] at hne
      exact List.not_mem_nil hne
    refine ⟨?_, fun s d hd => ?_, fun s d k hd => ?_, .inr ⟨rfl, ?_⟩⟩
    · rw [hsections]
      exact OrderedDict.keys_set_firsts h.order ..
    · rw [OrderedDict.get?_set] at hd
      rw [hkeys]
      split at hd
      · rename_i heq
        cases hd
        rw [heq, hnone]
        rfl
      · exact h.keys s d hd
    · rw [OrderedDict.get?_set] at hd
      rw [hvalues]
      split at hd
      · rename_i heq
        cases hd
        rw [heq, hnone', if_pos rfl]
        rfl
      · exact h.values s d k hd
    · rw [OrderedDict.mem_keys]
      exact ⟨_, OrderedDict.get?_set_self ..⟩

theorem assignIn (h : Reading l current p) (hcurrent : p.curSection = some current)
    (hin : current ∈ p.curSections.keys) (key : Text) (value : Value) :
    Reading (l ++ [(current, some (key, Parser.trim value))]) current
      (p.assignIn current key value) := by
  obtain ⟨d, hd⟩ := OrderedDict.mem_keys.mp hin
  have hkeys : ∀ s, Log.keys s (l ++ [(current, some (key, Parser.trim value))]) =
      l.keys s ++ if current = s then [key] else [] := by
    intro s
    rw [Log.keys_append]
    split
    · simp [Log.keys, Log.assignments, *]
    · simp [Log.keys, Log.assignments, *]
  have hvalues : ∀ s k, Log.values s k (l ++ [(current, some (key, Parser.trim value))]) =
      l.values s k ++ if current = s ∧ key = k then [Parser.trim value] else [] := by
    intro s k
    rw [Log.values_append]
    by_cases hs : current = s
    · by_cases hk : key = k
      · simp [Log.values, Log.assignments, hs, hk]
      · simp [Log.values, Log.assignments, hs, hk]
    · simp [Log.values, Log.assignments, hs]
  -- the list that is set is the one that the log has
  have hset : p.assignIn current key value = { p with
      curSections := p.curSections.set current
        (d.set key (l.values current key ++ [Parser.trim value])) } := by
    rw [Parser.assignIn, hd, Option.getD_some, h.values current d key hd]
    cases l.values current key with
    | nil => rfl
    | cons v vs => rfl
  rw [hset]
  refine ⟨?_, fun s d' hd' => ?_, fun s d' k hd' => ?_, .inr ⟨hcurrent, ?_⟩⟩
  · change (OrderedDict.set _ _ _).keys = firsts _
    rw [Log.sections_append]
    exact OrderedDict.keys_set_firsts h.order ..
  · change (OrderedDict.set _ _ _).get? s = some d' at hd'
    rw [OrderedDict.get?_set] at hd'
    rw [hkeys]
    split at hd'
    · rename_i heq
      cases hd'
      rw [heq, if_pos rfl]
      exact OrderedDict.keys_set_firsts (h.keys current d hd) ..
    · rename_i hne
      rw [if_neg (Ne.symm hne), List.append_nil]
      exact h.keys s d' hd'
  · change (OrderedDict.set _ _ _).get? s = some d' at hd'
    rw [OrderedDict.get?_set] at hd'
    rw [hvalues]
    split at hd'
    · rename_i heq
      cases hd'
      rw [OrderedDict.get?_set, heq]
      by_cases hk : k = key
      · have hsame : current = current ∧ key = k := ⟨rfl, hk.symm⟩
        rw [if_pos hk, if_pos hsame, if_neg (by simp), hk]
      · have hother : ¬(current = current ∧ key = k) := fun hh => hk hh.2.symm
        rw [if_neg hk, if_neg hother, List.append_nil]
        exact h.values current d k hd
    · rename_i hne
      have hother : ¬(current = s ∧ key = k) := fun hh => hne hh.1.symm
      rw [if_neg hother, List.append_nil]
      exact h.values s d' k hd'
  · rw [OrderedDict.mem_keys]
    exact ⟨_, OrderedDict.get?_set_self ..⟩

theorem curSection_newSection (p : Parser) (name : Text) :
    (p.newSection name).curSection = some name := by
  rw [Parser.newSection]
  split
  · rfl
  · rfl

/-- A section that is opened for an assignment. -/
theorem unopen {entry : Text × Value} {name : Text}
    (h : Reading (l ++ [(name, none)] ++ [(name, some entry)]) current p) :
    Reading (l ++ [(name, some entry)]) current p := by
  have hkeys : ∀ s, Log.keys s (l ++ [(name, none)] ++ [(name, some entry)]) =
      Log.keys s (l ++ [(name, some entry)]) := by
    intro s
    simp [Log.keys, Log.assignments]
  have hvalues : ∀ s k, Log.values s k (l ++ [(name, none)] ++ [(name, some entry)]) =
      Log.values s k (l ++ [(name, some entry)]) := by
    intro s k
    simp [Log.values, Log.assignments]
  refine ⟨?_, fun s d hd => ?_, fun s d k hd => ?_, h.current⟩
  · have horder := h.order
    rw [Log.sections_append] at horder
    have hmem : name ∈ l.sections ++ [name] :=
      List.mem_append_right _ (List.mem_singleton.mpr rfl)
    rw [Log.sections_append] at horder ⊢
    exact horder.trans ((firsts_snoc _ name).trans (if_pos hmem))
  · rw [← hkeys]
    exact h.keys s d hd
  · rw [← hvalues]
    exact h.values s d k hd

theorem call (h : Reading l current p) (cb : Callback) :
    ∃ current', Reading (l ++ log current [cb]) current' (p.call cb) ∧
      ∀ cbs, log current (cb :: cbs) = log current [cb] ++ log current' cbs := by
  cases cb with
  | newSection name => exact ⟨name, h.newSection name, fun _ => rfl⟩
  | assignment key value =>
    refine ⟨current, ?_, fun _ => rfl⟩
    change Reading _ current (p.assignment key value)
    rw [Parser.assignment]
    rcases h.current with ⟨hnone, rfl⟩ | ⟨hsome, hin⟩
    · rw [hnone]
      have hopen := h.newSection orphanSection
      have hin : orphanSection ∈ (p.newSection orphanSection).curSections.keys := by
        rw [hopen.order, mem_firsts, Log.sections_append]
        exact List.mem_append_right _ (List.mem_singleton.mpr rfl)
      exact (hopen.assignIn (curSection_newSection ..) hin key value).unopen
    · rw [hsome]
      exact h.assignIn hsome hin key value

theorem calls (h : Reading l current p) (cbs : List Callback) :
    ∃ current', Reading (l ++ log current cbs) current' (cbs.foldl Parser.call p) := by
  induction cbs generalizing l current p with
  | nil => exact ⟨current, by rwa [log, List.append_nil]⟩
  | cons cb cbs ih =>
    obtain ⟨current', hcall, hlog⟩ := h.call cb
    rw [hlog, ← List.append_assoc]
    exact ih hcall

end Reading

/-! ## All sources -/

theorem sections_call (p : Parser) (cb : Callback) : (p.call cb).sections = p.sections := by
  have hnew : ∀ name, (p.newSection name).sections = p.sections := by
    intro name
    rw [Parser.newSection]
    split
    · rfl
    · rfl
  cases cb with
  | newSection name => exact hnew name
  | assignment key value =>
    change (p.assignment key value).sections = p.sections
    rw [Parser.assignment]
    split
    · exact hnew orphanSection
    · rfl

theorem sections_calls (p : Parser) (cbs : List Callback) :
    (cbs.foldl Parser.call p).sections = p.sections := by
  induction cbs generalizing p with
  | nil => rfl
  | cons cb cbs ih => rw [List.foldl_cons, ih, sections_call]

namespace Merged

variable {logs : List Log}

theorem keys_eq_nil {sections : OrderedDict Text Section} (h : Merged logs sections)
    {name : Text} (hout : name ∉ sections.keys) (l : Log) (hl : l ∈ logs) :
    name ∉ l.sections := by
  rw [h.order, mem_firsts, List.mem_flatMap] at hout
  exact fun hin => hout ⟨l, hl, hin⟩

theorem mem_values {sections : OrderedDict Text Section} (h : Merged logs sections)
    {name key : Text} {s : Section} {values : List Value} (hs : sections.get? name = some s)
    (hvalues : s.get? key = some values) :
    values ≠ [] ∧ ∃ l ∈ logs, values = l.values name key := by
  rw [h.values name s key hs] at hvalues
  have hmem := List.mem_of_getLast? hvalues
  rw [List.mem_filter, List.mem_map] at hmem
  obtain ⟨⟨l, hl, rfl⟩, hne⟩ := hmem
  exact ⟨by simpa using hne, l, hl, rfl⟩

/-- Sources decide about the sections. -/
theorem unique {sections sections' : OrderedDict Text Section} (h : Merged logs sections)
    (h' : Merged logs sections') : sections = sections' := by
  have hkeys : sections.keys = sections'.keys := h.order.trans h'.order.symm
  refine OrderedDict.ext_get? hkeys fun name => ?_
  cases hs : sections.get? name with
  | none =>
    rw [OrderedDict.get?_eq_none, hkeys, ← OrderedDict.get?_eq_none] at hs
    exact hs.symm
  | some s =>
    have hmem := OrderedDict.mem_keys.mpr ⟨s, hs⟩
    rw [hkeys, OrderedDict.mem_keys] at hmem
    obtain ⟨s', hs'⟩ := hmem
    rw [hs', Option.some_inj]
    refine OrderedDict.ext_get? ?_ fun key => ?_
    · rw [h.keys name s hs, h'.keys name s' hs']
    · rw [h.values name s key hs, h'.values name s' key hs']

theorem assignments_eq_nil {sections : OrderedDict Text Section} (h : Merged logs sections)
    {name : Text} (hnone : sections.get? name = none) : ∀ l ∈ logs, l.assignments name = [] :=
  fun l hl => Log.assignments_of_not_mem (h.keys_eq_nil (OrderedDict.get?_eq_none.mp hnone) l hl)

theorem keys_getD {sections : OrderedDict Text Section} (h : Merged logs sections) (name : Text) :
    ((sections.get? name).getD .empty).keys = firsts (logs.flatMap (Log.keys name)) := by
  cases hold : sections.get? name with
  | none =>
    have hnil : logs.flatMap (Log.keys name) = [] := by
      refine List.flatMap_eq_nil_iff.mpr fun l hl => ?_
      rw [Log.keys, h.assignments_eq_nil hold l hl]
      rfl
    rw [hnil]
    rfl
  | some s => exact h.keys name s hold

theorem values_getD {sections : OrderedDict Text Section} (h : Merged logs sections)
    (name key : Text) : ((sections.get? name).getD .empty).get? key =
      ((logs.map (Log.values name key)).filter (· ≠ [])).getLast? := by
  cases hold : sections.get? name with
  | none =>
    have hnil : (logs.map (Log.values name key)).filter (· ≠ []) = [] := by
      refine List.filter_eq_nil_iff.mpr fun vs hvs => ?_
      obtain ⟨l, hl, rfl⟩ := List.mem_map.mp hvs
      simp [Log.values, h.assignments_eq_nil hold l hl]
    rw [hnil]
    rfl
  | some s => exact h.values name s key hold

theorem merge {l : Log} {current : Text} {p : Parser} (h : Merged logs p.sections)
    (hl : Reading l current p) : Merged (logs ++ [l]) p.merge.sections := by
  have hget : ∀ name, p.merge.sections.get? name = _ := fun name =>
    OrderedDict.get?_mergeWith Parser.override p.sections p.curSections name
  -- a section that the source leaves alone keeps what it has
  have hskip : ∀ name, p.curSections.get? name = none → l.assignments name = [] := by
    intro name hnone
    rw [OrderedDict.get?_eq_none, hl.order, mem_firsts] at hnone
    exact Log.assignments_of_not_mem hnone
  refine ⟨?_, fun name s hs => ?_, fun name s key hs => ?_⟩
  · refine (OrderedDict.keys_mergeWith ..).trans ?_
    rw [h.order, hl.order, OrderedDict.firsts_append_firsts, List.flatMap_append]
    simp
  · rw [List.flatMap_append, List.flatMap_singleton]
    rw [hget] at hs
    cases hcur : p.curSections.get? name with
    | none =>
      rw [hcur] at hs
      rw [h.keys name s hs, show l.keys name = [] by rw [Log.keys, hskip name hcur]; rfl,
        List.append_nil]
    | some s' =>
      simp only [hcur, Option.some.injEq] at hs
      rw [← hs, Parser.override, OrderedDict.keys_update, hl.keys name s' hcur, h.keys_getD,
        OrderedDict.firsts_append_firsts]
  · rw [List.map_append, List.filter_append]
    rw [hget] at hs
    cases hcur : p.curSections.get? name with
    | none =>
      rw [hcur] at hs
      have hnil : l.values name key = [] := by
        rw [Log.values, hskip name hcur]
        rfl
      rw [h.values name s key hs]
      simp [hnil]
    | some s' =>
      simp only [hcur, Option.some.injEq] at hs
      rw [← hs, Parser.override, OrderedDict.get?_update, h.values_getD, hl.values name s' key hcur]
      by_cases hnil : l.values name key = []
      · simp [hnil]
      · simp [hnil]

theorem parse {base : BaseParser} {p : Parser} {text : Text} {cbs : List Callback}
    (h : Merged logs p.sections) (hcbs : base.callbacks text = some cbs) :
    ∃ q, p.parse base text = some q ∧ Merged (logs ++ [log orphanSection cbs]) q.sections := by
  obtain ⟨current, hreading⟩ := (Reading.start p).calls cbs
  rw [List.nil_append] at hreading
  refine ⟨_, by rw [Parser.parse, hcbs]; rfl, Merged.merge ?_ hreading⟩
  rwa [sections_calls]

theorem parseAll {base : BaseParser} {sources : List Text} {cbss : List (List Callback)}
    (hcbss : List.Forall₂ (fun text cbs => base.callbacks text = some cbs) sources cbss)
    {p : Parser} (h : Merged logs p.sections) :
    ∃ q, p.parseAll base sources = some q ∧
      Merged (logs ++ cbss.map (log orphanSection)) q.sections := by
  induction hcbss generalizing p logs with
  | nil => exact ⟨p, rfl, by rwa [List.map_nil, List.append_nil]⟩
  | cons hcbs _ ih =>
    obtain ⟨q, hq, hmerged⟩ := h.parse hcbs
    obtain ⟨r, hr, hmerged⟩ := ih hmerged
    refine ⟨r, ?_, by rwa [List.map_cons, List.append_cons]⟩
    rw [Parser.parseAll, List.foldlM_cons, hq]
    exact hr

theorem nil : Merged [] .empty where
  order := rfl
  keys _ _ h := nomatch h
  values _ _ _ h := nomatch h

end Merged

/-- The last source that assigns a key decides about it, and nothing else is in the sections. -/
theorem merge_overrides {base : BaseParser} {sources : List Text} {whitespace : Bool}
    {cbss : List (List Callback)}
    (hcbss : List.Forall₂ (fun text cbs => base.callbacks text = some cbs) sources cbss) :
    ∃ p, Parser.parseAll base { whitespace := whitespace } sources = some p ∧
      Merged (cbss.map (log orphanSection)) p.sections := by
  have hnil : Merged [] ({ whitespace := whitespace } : Parser).sections := Merged.nil
  exact hnil.parseAll hcbss

/-- A section is opened twice, and a key of it is overridden. -/
theorem reopened_overrides : ∃ p,
    Parser.parseAll scanner { whitespace := false }
      [['[', 'a', ']', '\n', 'x', '=', '1', '\n', '[', 'b', ']', '\n', '[', 'a', ']', '\n', 'x', '=',
        '2', '\n', ' ', '3'], ['[', 'a', ']', '\n', 'x', ':', '\n']] = some p ∧
      Merged [[(['a'], none), (['a'], some (['x'], [['1']])), (['b'], none), (['a'], none),
        (['a'], some (['x'], [['2'], ['3']]))], [(['a'], none), (['a'], some (['x'], []))]]
        p.sections :=
  merge_overrides (.cons (b := [.newSection ['a'], .assignment ['x'] [['1']], .newSection ['b'],
    .newSection ['a'], .assignment ['x'] [['2'], ['3']]]) (by decide)
      (.cons (b := [.newSection ['a'], .assignment ['x'] [[]]]) (by decide) .nil))

end MergeConfigs
end KollaPowerOps
