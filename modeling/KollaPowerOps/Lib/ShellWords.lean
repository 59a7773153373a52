import Mathlib.Data.List.Basic

/-!
# Lib.ShellWords

What a shell script makes of texts: the words of an expansion that is not quoted, and the filters
`tr`, `cut` and `sort`. Pathname expansion is left out: it leaves words without its characters as
they are.

* `words`               : the words of a text; `words_join` and `words_echo` read them back.
* `tr_join`, `cut_join` : the filters, on a list that is joined.
* `sort_echo`           : of a single line `sort` makes the same.
-/

namespace KollaPowerOps
namespace Shell

abbrev Word := List Char

def isBlank (c : Char) : Bool := c = ' ' || c = '\t' || c = '\n'

def words (s : List Char) : List Word := (s.splitOnP isBlank).filter fun w => !w.isEmpty

/-- `echo w₁ w₂ ...` -/
def echo (ws : List Word) : List Char := [' '].intercalate ws ++ ['\n']

/-- `tr a b` -/
def tr (a b : Char) (s : List Char) : List Char := s.map fun c => if c = a then b else c

/-- `cut -d d -f (n + 1)` of one line; a line without the delimiter is left as it is. -/
def field (d : Char) (n : Nat) (line : List Char) : List Char :=
  if d ∈ line then (line.splitOn d)[n]?.getD [] else line

def cut (d : Char) (n : Nat) (s : List Char) : List Char :=
  ['\n'].intercalate ((s.splitOn '\n').map (field d n))

/-- The lines of a text, each up to its newline. -/
def lines (s : List Char) : List (List Char) := (s.splitOn '\n').dropLast

/-- `sort`, in the order of some locale. -/
def sort (collate : List Char → List Char → Bool) (s : List Char) : List Char :=
  ((lines s).mergeSort collate).flatMap (· ++ ['\n'])

/-- A word as it comes of `words`. -/
structure Whole (w : Word) : Prop where
  ne : w ≠ []
  solid : ∀ c ∈ w, isBlank c = false

theorem Whole.no_newline {w : Word} (hw : Whole w) : '\n' ∉ w := by
  intro hmem
  cases hw.solid _ hmem

/-! ## Words -/

theorem words_whole {w : Word} (hw : Whole w) : words w = [w] := by
  rw [words, List.splitOnP_eq_singleton hw.solid]
  simp [hw.ne]

theorem words_append {c : Char} (hc : isBlank c = true) (s t : List Char) :
    words (s ++ c :: t) = words s ++ words t := by
  rw [words, List.splitOnP_append_cons s t hc, List.filter_append]
  rfl

theorem words_join {c : Char} (hc : isBlank c = true) {ws : List Word} (h : ∀ w ∈ ws, Whole w) :
    words ([c].intercalate ws) = ws := by
  induction ws with
  | nil => rfl
  | cons w ws ih =>
    obtain ⟨hw, hws⟩ := List.forall_mem_cons.mp h
    cases ws with
    | nil =>
      rw [List.intercalate_singleton]
      exact words_whole hw
    | cons w' ws =>
      rw [List.intercalate_cons_cons, List.append_assoc, List.singleton_append,
        words_append hc, words_whole hw, ih hws]
      rfl

theorem words_echo {ws : List Word} (h : ∀ w ∈ ws, Whole w) : words (echo ws) = ws := by
  rw [echo, words_append rfl, words_join rfl h]
  exact List.append_nil ws

theorem words_lines {ws : List Word} (h : ∀ w ∈ ws, Whole w) :
    words (ws.flatMap fun w => echo [w]) = ws := by
  induction ws with
  | nil => rfl
  | cons w ws ih =>
    obtain ⟨hw, hws⟩ := List.forall_mem_cons.mp h
    rw [List.flatMap_cons, echo, List.intercalate_singleton, List.append_assoc,
      List.singleton_append, words_append rfl, words_whole hw, ih hws]
    rfl

/-! ## Filters -/

theorem tr_of_not_mem {a b : Char} {s : List Char} (h : a ∉ s) : tr a b s = s := by
  refine (List.map_congr_left fun c hc => ?_).trans (List.map_id s)
  have hne : c ≠ a := fun heq => h (heq ▸ hc)
  exact if_neg hne

/-- Other separators for the same items. -/
theorem tr_join {a b : Char} {ws : List (List Char)} (h : ∀ w ∈ ws, a ∉ w) :
    tr a b ([a].intercalate ws) = [b].intercalate ws := by
  induction ws with
  | nil => rfl
  | cons w ws ih =>
    obtain ⟨hw, hws⟩ := List.forall_mem_cons.mp h
    cases ws with
    | nil =>
      rw [List.intercalate_singleton, List.intercalate_singleton]
      exact tr_of_not_mem hw
    | cons w' ws =>
      have happend : ∀ s t, tr a b (s ++ t) = tr a b s ++ tr a b t := fun _ _ => List.map_append
      have hsep : tr a b [a] = [b] := by simp [tr]
      rw [List.intercalate_cons_cons, List.intercalate_cons_cons, happend, happend, hsep,
        tr_of_not_mem hw, ih hws]

theorem field_first {d : Char} {x : List Char} (hx : d ∉ x) (y : List Char) :
    field d 0 (x ++ d :: y) = x := by
  rw [field, if_pos (by simp), List.splitOn_append_cons_self_of_not_mem hx]
  rfl

theorem field_second {d : Char} {x y : List Char} (hx : d ∉ x) (hy : d ∉ y) :
    field d 1 (x ++ d :: y) = y := by
  rw [field, if_pos (by simp), List.splitOn_append_cons_self_of_not_mem hx,
    List.splitOn_eq_singleton hy]
  rfl

theorem cut_join {d : Char} {n : Nat} {ls : List (List Char)} (h : ∀ l ∈ ls, '\n' ∉ l) :
    cut d n (['\n'].intercalate ls) = ['\n'].intercalate (ls.map (field d n)) := by
  cases ls with
  | nil =>
    have hfield : field d n [] = [] := rfl
    rw [cut, List.intercalate_nil, List.splitOn_nil, List.map_singleton, hfield]
    rfl
  | cons l ls => rw [cut, List.splitOn_intercalate '\n' h (List.cons_ne_nil l ls)]

/-- A single line is sorted, whatever the collation. -/
theorem sort_echo (collate : List Char → List Char → Bool) {ws : List Word}
    (h : ∀ w ∈ ws, Whole w) : sort collate (echo ws) = echo ws := by
  have hline : '\n' ∉ [' '].intercalate ws := by
    induction ws with
    | nil => exact List.not_mem_nil
    | cons w ws ih =>
      obtain ⟨hw, hws⟩ := List.forall_mem_cons.mp h
      cases ws with
      | nil =>
        rw [List.intercalate_singleton]
        exact hw.no_newline
      | cons w' ws =>
        rw [List.intercalate_cons_cons, List.mem_append, List.mem_append]
        rintro ((hmem | hmem) | hmem)
        · exact hw.no_newline hmem
        · cases List.mem_singleton.mp hmem
        · exact ih hws hmem
  have hlines : lines (echo ws) = [[' '].intercalate ws] := by
    rw [lines, echo, List.splitOn_append_cons_self_of_not_mem hline]
    rfl
  rw [sort, hlines, List.mergeSort_singleton, List.flatMap_singleton]
  rfl

end Shell
end KollaPowerOps
