import KollaPowerOps.MergeConfigs.Override

/-!
# MergeConfigs.Accepted

What the keys and the values of an accepted source look like.
-/

namespace KollaPowerOps
namespace MergeConfigs

open PyText
open OrderedDict (mem_firsts)

structure PlainKey (key : Text) : Prop where
  ne : key ≠ []
  stripped : Stripped key
  inline : ∀ c ∈ key, isSeparator c = false ∧ c ≠ '\n'

/-- The first line of a value does not look quoted. -/
structure PlainFirst (first : Text) : Prop where
  stripped : Stripped first
  inline : '\n' ∉ first
  unquoted : first.head?.any isQuote = false

structure PlainRest (line : Text) : Prop where
  ne : line ≠ []
  stripped : Stripped line
  inline : '\n' ∉ line

def PlainValue : Value → Prop
  | [] => False
  | first :: rest => PlainFirst first ∧ ∀ line ∈ rest, PlainRest line

structure PlainSection (name : Text) : Prop where
  ne : name ≠ []
  inline : '\n' ∉ name

def PlainCall : Callback → Prop
  | .newSection name => PlainSection name
  | .assignment key value => PlainKey key ∧ PlainValue value

/-- No value of the text begins with a quote. -/
def Unquoted (text : Text) : Prop := ∀ l ∈ lines text, kind l = .assignment →
  ∀ a ∈ splitKeyValue (rstrip l), a.2.head?.any isQuote = false

/-! ## Lines -/

theorem inline_of_mem_lines {text l : Text} (hl : l ∈ lines text) : '\n' ∉ l := by
  induction text generalizing l with
  | nil =>
    rw [List.mem_singleton.mp hl]
    exact List.not_mem_nil
  | cons c text ih =>
    rw [lines, List.splitOn_cons_eq_if_modifyHead] at hl
    split at hl
    · rcases List.mem_cons.mp hl with rfl | hl
      · exact List.not_mem_nil
      · exact ih hl
    · rename_i hc
      have hc : c ≠ '\n' := by simpa using hc
      have hall : ∀ l ∈ text.splitOn '\n', '\n' ∉ l := fun _ hl => ih hl
      cases hlines : text.splitOn '\n' with
      | nil => simp [hlines] at hl
      | cons l₀ ls =>
        rw [hlines, List.forall_mem_cons] at hall
        rw [hlines, List.modifyHead_cons, List.mem_cons] at hl
        rcases hl with rfl | hl
        · exact List.not_mem_cons_of_ne_of_not_mem hc.symm hall.1
        · exact hall.2 l hl

theorem rstrip_subset {l : Text} : rstrip l ⊆ l := (List.rdropWhile_prefix isSpace l).subset

theorem lstrip_subset {l : Text} : lstrip l ⊆ l := (List.dropWhile_suffix isSpace).subset

theorem strip_subset {l : Text} : strip l ⊆ l := fun _ hc => lstrip_subset (rstrip_subset hc)

theorem unquote_of_unquoted {value : Text} (h : value.head?.any isQuote = false) :
    unquote value = value := by
  rw [unquote, if_neg]
  rintro ⟨hquote, -⟩
  rw [h] at hquote
  exact Bool.false_ne_true hquote

theorem plain_getSection {l name : Text} (hl : '\n' ∉ l)
    (h : getSection (rstrip l) = some name) : PlainSection name := by
  rw [getSection, Option.ite_none_right_eq_some] at h
  obtain ⟨⟨-, hlength⟩, hsome⟩ := h
  rw [Option.some_inj] at hsome
  subst hsome
  refine ⟨fun hnil => ?_, fun hmem => hl ?_⟩
  · have hlen := congrArg List.length hnil
    simp at hlen
    omega
  · exact rstrip_subset (List.mem_of_mem_tail (List.dropLast_subset _ hmem))

theorem plain_splitKeyValue {l key value : Text} (hl : '\n' ∉ l)
    (h : splitKeyValue l = some (key, value)) (hkey : key ≠ [])
    (hquote : value.head?.any isQuote = false) : PlainKey key ∧ PlainFirst value := by
  rw [splitKeyValue] at h
  split at h
  · cases h
  · rename_i c rest hrest
    cases h
    refine ⟨⟨hkey, stripped_strip _, fun c hc => ?_⟩, stripped_strip _, fun hc => hl ?_, hquote⟩
    · have hmem := strip_subset hc
      refine ⟨by simpa using List.mem_takeWhile_imp hmem, ?_⟩
      rintro rfl
      exact hl ((List.takeWhile_subset _) hmem)
    · have hsubset : c :: rest ⊆ l := by
        rw [← hrest]
        exact (List.dropWhile_suffix _).subset
      exact hsubset (List.mem_cons_of_mem _ (strip_subset hc))

theorem plain_reads {ls : List Text} {cbs : List Callback} (h : Reads ls cbs)
    (hlines : ∀ l ∈ ls, '\n' ∉ l)
    (hquote : ∀ l ∈ ls, kind l = .assignment →
      ∀ a ∈ splitKeyValue (rstrip l), a.2.head?.any isQuote = false) :
    ∀ cb ∈ cbs, PlainCall cb := by
  induction h with
  | nil => simp
  | blank _ _ ih =>
    exact ih (fun l hl => hlines l (List.mem_cons_of_mem _ hl))
      fun l hl => hquote l (List.mem_cons_of_mem _ hl)
  | comment _ _ ih =>
    exact ih (fun l hl => hlines l (List.mem_cons_of_mem _ hl))
      fun l hl => hquote l (List.mem_cons_of_mem _ hl)
  | @header l name ls cbs _ hsection _ ih =>
    refine List.forall_mem_cons.mpr ⟨?_, ?_⟩
    · exact plain_getSection (hlines l List.mem_cons_self) hsection
    · exact ih (fun l hl => hlines l (List.mem_cons_of_mem _ hl))
        fun l hl => hquote l (List.mem_cons_of_mem _ hl)
  | @assignment l key value conts ls cbs hkind hsplit hkey hconts _ ih =>
    have hrest : ∀ x ∈ ls, x ∈ l :: (conts ++ ls) := fun x hx =>
      List.mem_cons_of_mem _ (List.mem_append_right _ hx)
    refine List.forall_mem_cons.mpr ⟨?_, ?_⟩
    · have hunquoted := hquote l List.mem_cons_self hkind (key, value) hsplit
      have hl := hlines l List.mem_cons_self
      obtain ⟨hkey, hfirst⟩ := plain_splitKeyValue (fun hmem => hl (rstrip_subset hmem)) hsplit hkey
        hunquoted
      refine ⟨hkey, by rwa [unquote_of_unquoted hunquoted], fun line hline => ?_⟩
      obtain ⟨c, hc, rfl⟩ := List.mem_map.mp hline
      have hinline := hlines c (List.mem_cons_of_mem _ (List.mem_append_left _ hc))
      refine ⟨lstrip_rstrip_ne_nil fun hnil => ?_, stripped_lstrip_rstrip c,
        fun hmem => hinline (rstrip_subset (lstrip_subset hmem))⟩
      have hkind := hconts c hc
      rw [kind, hnil] at hkind
      cases hkind
    · exact ih (fun l hl => hlines l (hrest l hl)) fun l hl => hquote l (hrest l hl)

/-! ## Sections -/

structure PlainEntry (key : Text) (values : List Value) : Prop where
  key : PlainKey key
  ne : values ≠ []
  values : ∀ value ∈ values, ∃ w, PlainValue w ∧ value = Parser.trim w

structure PlainSections (sections : OrderedDict Text Section) : Prop where
  name : ∀ e ∈ sections.entries, PlainSection e.1
  entry : ∀ e ∈ sections.entries, ∀ a ∈ e.2.entries, PlainEntry a.1 a.2

theorem plain_orphanSection : PlainSection orphanSection := ⟨by decide, by decide⟩

theorem Merged.plain {cbss : List (List Callback)} {sections : OrderedDict Text Section}
    (h : Merged (cbss.map (log orphanSection)) sections)
    (hcbss : ∀ cbs ∈ cbss, ∀ cb ∈ cbs, PlainCall cb) : PlainSections sections := by
  constructor
  · intro e he
    have hkey : e.1 ∈ sections.keys := List.mem_map_of_mem he
    rw [h.order, mem_firsts, List.mem_flatMap] at hkey
    obtain ⟨_, hl, hmem⟩ := hkey
    obtain ⟨cbs, hcbs, rfl⟩ := List.mem_map.mp hl
    rcases mem_log_section hmem with heq | hmem
    · rw [heq]
      exact plain_orphanSection
    · exact hcbss cbs hcbs _ hmem
  · intro e he a ha
    obtain ⟨hne, _, hl, hvalues⟩ := h.mem_values (OrderedDict.mem_entries.mp he)
      (OrderedDict.mem_entries.mp ha)
    obtain ⟨cbs, hcbs, rfl⟩ := List.mem_map.mp hl
    have hall : ∀ value ∈ a.2, ∃ w, .assignment a.1 w ∈ cbs ∧ value = Parser.trim w := by
      intro value hvalue
      rw [hvalues] at hvalue
      exact mem_log_assignment (Log.mem_values_iff.mp hvalue)
    refine ⟨?_, hne, fun value hvalue => ?_⟩
    · obtain ⟨value, hvalue⟩ := List.exists_mem_of_ne_nil _ hne
      obtain ⟨w, hw, -⟩ := hall value hvalue
      exact (hcbss cbs hcbs _ hw).1
    · obtain ⟨w, hw, heq⟩ := hall value hvalue
      exact ⟨w, (hcbss cbs hcbs _ hw).2, heq⟩

end MergeConfigs
end KollaPowerOps
