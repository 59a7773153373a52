import KollaPowerOps.Lib.WordSearch
import Mathlib.Data.List.Infix
import Mathlib.Data.Nat.Find
import Mathlib.Order.WellFounded

/-!
# Lib.Redact

`str.replace` of several patterns, one after the other, by the same separator: which places of the
text are left.

* `replace`, `replaceAll` : the replacement, over cells that carry a character each.
* `Erases`                : the places that are replaced, and the pieces of the text between them.
* `Picks`                 : no two of them overlap, and every other occurrence of a pattern
  overlaps one that comes before it.
* `Covering`              : the sets of patterns whose occurrences are always replaced as a whole
  (`covering_iff`).
-/

namespace KollaPowerOps
namespace Redact

section Replace

variable {α β : Type} [DecidableEq α] (char : β → α)

/-- `text.replace(old, new)` for a pattern that is not empty, with the number of cells that still
belong to the occurrence before. -/
def replaceFrom (old : List α) (new : List β) : Nat → List β → List β
  | _, [] => []
  | skip + 1, _ :: text => replaceFrom old new skip text
  | 0, x :: text =>
    if old.isPrefixOf ((x :: text).map char) then
      new ++ replaceFrom old new (old.length - 1) text
    else x :: replaceFrom old new 0 text

/-- `text.replace(old, new)` -/
def replace (old : List α) (new text : List β) : List β :=
  if old = [] then new ++ text.flatMap fun x => x :: new else replaceFrom char old new 0 text

def replaceAll (olds : List (List α)) (new text : List β) : List β :=
  olds.foldl (fun text old => replace char old new text) text

/-! ## One pattern -/

variable {char} {old : List α} {new : List β}

theorem replaceFrom_skip (k : Nat) (text : List β) :
    replaceFrom char old new k text = replaceFrom char old new 0 (text.drop k) := by
  induction k generalizing text with
  | zero => rfl
  | succ k ih =>
    cases text with
    | nil => rfl
    | cons x text => exact ih text

theorem replaceFrom_hit {text : List β} (hne : old ≠ []) (h : old <+: text.map char) :
    replaceFrom char old new 0 text = new ++ replaceFrom char old new 0 (text.drop old.length) := by
  cases text with
  | nil => exact absurd (List.prefix_nil.mp h) hne
  | cons x text =>
    have hlength := List.length_pos_iff.mpr hne
    rw [replaceFrom, if_pos (List.isPrefixOf_iff_prefix.mpr h), replaceFrom_skip]
    rw [show old.length = old.length - 1 + 1 by omega, List.drop_succ_cons,
      Nat.add_sub_cancel]

/-- Before its first occurrence a pattern changes nothing. -/
theorem replaceFrom_before {a b : List β}
    (h : ∀ k < a.length, ¬ old <+: ((a ++ b).map char).drop k) :
    replaceFrom char old new 0 (a ++ b) = a ++ replaceFrom char old new 0 b := by
  induction a with
  | nil => rfl
  | cons x a ih =>
    have hhead : ¬ old.isPrefixOf ((x :: (a ++ b)).map char) = true := fun hp =>
      h 0 (Nat.zero_lt_succ _) (List.isPrefixOf_iff_prefix.mp hp)
    rw [List.cons_append, replaceFrom, if_neg hhead, ih fun k hk => h (k + 1) (Nat.succ_lt_succ hk)]
    rfl

theorem replaceFrom_absent {text : List β} (h : ∀ k, ¬ old <+: (text.map char).drop k) :
    replaceFrom char old new 0 text = text := by
  have hall : ∀ k < text.length, ¬ old <+: ((text ++ []).map char).drop k := fun k _ => by
    rw [List.append_nil]
    exact h k
  have hbefore : replaceFrom char old new 0 (text ++ []) = text ++ replaceFrom char old new 0 [] :=
    replaceFrom_before hall
  rwa [List.append_nil, replaceFrom, List.append_nil] at hbefore

/-- A cell that is not of the pattern separates what is replaced before and behind it. -/
theorem replaceFrom_separator (hne : old ≠ []) {x : β} (hx : char x ∉ old) {k : Nat} {a : List β}
    (hk : k ≤ a.length) (b : List β) : replaceFrom char old new k (a ++ x :: b) =
      replaceFrom char old new k a ++ x :: replaceFrom char old new 0 b := by
  have hprefix : ∀ c : List β,
      old.isPrefixOf ((c ++ x :: b).map char) = old.isPrefixOf (c.map char) := by
    intro c
    rw [Bool.eq_iff_iff, List.isPrefixOf_iff_prefix, List.isPrefixOf_iff_prefix, List.map_append,
      List.map_cons]
    exact ⟨WordSearch.prefix_of_append_cons hx, fun h => h.trans (List.prefix_append _ _)⟩
  induction a generalizing k with
  | nil =>
    obtain rfl := Nat.le_zero.mp hk
    have hnot : ¬ old.isPrefixOf ((x :: b).map char) = true := by
      have hnil := hprefix []
      rw [List.nil_append] at hnil
      rw [hnil, List.isPrefixOf_iff_prefix, List.map_nil, List.prefix_nil]
      exact hne
    exact if_neg hnot
  | cons y a ih =>
    cases k with
    | succ k => exact ih (Nat.le_of_succ_le_succ hk)
    | zero =>
      have hcons := hprefix (y :: a)
      rw [List.cons_append] at hcons
      rw [List.cons_append, replaceFrom, replaceFrom, hcons]
      split
      · rename_i hold
        have hle := (List.isPrefixOf_iff_prefix.mp hold).length_le
        rw [List.length_map, List.length_cons] at hle
        rw [ih (by omega), List.append_assoc]
      · rw [ih (Nat.zero_le _), List.cons_append]

theorem replace_separators (hne : old ≠ []) {a b sep : List β} (hsep : sep ≠ [])
    (hout : ∀ x ∈ sep, char x ∉ old) :
    replace char old new (a ++ (sep ++ b)) =
      replace char old new a ++ (sep ++ replace char old new b) := by
  simp only [replace, if_neg hne]
  induction sep generalizing a with
  | nil => exact absurd rfl hsep
  | cons x sep ih =>
    rw [List.forall_mem_cons] at hout
    rw [List.cons_append, replaceFrom_separator hne hout.1 (Nat.zero_le _), List.cons_append]
    cases sep with
    | nil => rfl
    | cons y sep =>
      have hrest := ih (a := []) (List.cons_ne_nil _ _) hout.2
      rw [List.nil_append] at hrest
      rw [hrest, replaceFrom, List.nil_append]

/-! ## Several patterns -/

variable {olds : List (List α)}

theorem replaceAll_cons (old : List α) (olds : List (List α)) (text : List β) :
    replaceAll char (old :: olds) new text = replaceAll char olds new (replace char old new text) :=
  rfl

theorem replaceAll_separators (hne : ∀ old ∈ olds, old ≠ []) {sep : List β} (hsep : sep ≠ [])
    (hout : ∀ old ∈ olds, ∀ x ∈ sep, char x ∉ old) (a b : List β) :
    replaceAll char olds new (a ++ (sep ++ b)) =
      replaceAll char olds new a ++ (sep ++ replaceAll char olds new b) := by
  induction olds generalizing a b with
  | nil => rfl
  | cons old olds ih =>
    rw [List.forall_mem_cons] at hne hout
    rw [replaceAll_cons, replace_separators hne.1 hsep hout.1, ih hne.2 hout.2]
    rfl

/-- What one pattern makes of the text up to and behind its first occurrence. -/
theorem replace_first (hne : old ≠ []) {a b : List β} (hold : old <+: b.map char)
    (hfirst : ∀ k < a.length, ¬ old <+: ((a ++ b).map char).drop k) :
    replace char old new (a ++ b) = a ++ (new ++ replace char old new (b.drop old.length)) := by
  simp only [replace, if_neg hne]
  rw [replaceFrom_before hfirst, replaceFrom_hit hne hold]

/-! ## The places that are replaced -/

/-- A text from place `o` on, with the patterns from number `i` on still to be replaced: the places
of the occurrences that are replaced, and the pieces that are left, with the place of each. -/
inductive Erases (char : β → α) : Nat → List (List α) → Nat → List β → List (Nat × Nat) →
    List (Nat × List β) → Prop where
  | last {i o : Nat} {text : List β} : Erases char i [] o text [] [(o, text)]
  | absent {i o : Nat} {old : List α} {olds : List (List α)} {text : List β}
      {picks : List (Nat × Nat)} {pieces : List (Nat × List β)}
      (habsent : ∀ k, ¬ old <+: (text.map char).drop k)
      (h : Erases char (i + 1) olds o text picks pieces) :
      Erases char i (old :: olds) o text picks pieces
  | first {i o : Nat} {old : List α} {olds : List (List α)} {a b : List β}
      {picks picks' : List (Nat × Nat)} {pieces pieces' : List (Nat × List β)}
      (hold : old <+: b.map char)
      (hfirst : ∀ k < a.length, ¬ old <+: ((a ++ b).map char).drop k)
      (h : Erases char (i + 1) olds o a picks pieces)
      (h' : Erases char i (old :: olds) (o + a.length + old.length) (b.drop old.length) picks'
        pieces') :
      Erases char i (old :: olds) o (a ++ b) ((i, o + a.length) :: (picks ++ picks'))
        (pieces ++ pieces')

/-- A pattern does not occur, or it occurs somewhere first. -/
theorem absent_or_first (old : List α) (text : List β) :
    (∀ k, ¬ old <+: (text.map char).drop k) ∨
      ∃ a b, text = a ++ b ∧ old <+: b.map char ∧
        ∀ k < a.length, ¬ old <+: ((a ++ b).map char).drop k := by
  by_cases h : ∃ k, old <+: (text.map char).drop k
  · classical
    have hat := Nat.find_spec h
    have hmin : ∀ k < Nat.find h, ¬ old <+: (text.map char).drop k := fun k hk => Nat.find_min h hk
    generalize Nat.find h = n at hat hmin
    refine .inr ⟨text.take n, text.drop n, (List.take_append_drop n text).symm, ?_, ?_⟩
    · rwa [List.map_drop]
    · intro k hk
      rw [List.take_append_drop]
      rw [List.length_take] at hk
      exact hmin k (by omega)
  · push Not at h
    exact .inl h

/-- The cells of the pieces are what is left of the text. -/
theorem exists_erases {new : List β} (hnew : new ≠ []) (hne : ∀ old ∈ olds, old ≠ [])
    (hout : ∀ old ∈ olds.tail, ∀ x ∈ new, char x ∉ old) (i o : Nat) (text : List β) :
    ∃ picks pieces, Erases char i olds o text picks pieces ∧
      (∀ x ∈ replaceAll char olds new text, x ∈ new ∨ ∃ piece ∈ pieces, x ∈ piece.2) ∧
      ∀ piece ∈ pieces, ∀ x ∈ piece.2, x ∈ replaceAll char olds new text := by
  induction olds generalizing i o text with
  | nil =>
    refine ⟨[], [(o, text)], .last, fun x hx => .inr ⟨_, List.mem_singleton_self _, hx⟩, ?_⟩
    intro piece hpiece x hx
    rw [List.mem_singleton.mp hpiece] at hx
    exact hx
  | cons old olds ih =>
    rw [List.forall_mem_cons] at hne
    rw [List.tail_cons] at hout
    have hlater := ih hne.2 fun other hother => hout other (List.mem_of_mem_tail hother)
    -- Behind each occurrence the text is shorter.
    induction hn : text.length using Nat.strong_induction_on generalizing o text with
    | _ n ihn =>
      subst hn
      rcases @absent_or_first α β _ char old text with habsent | ⟨a, b, rfl, hold, hfirst⟩
      · obtain ⟨picks, pieces, herases, hleft, hkept⟩ := hlater (i + 1) o text
        have hsame : replace char old new text = text := by
          rw [replace, if_neg hne.1, replaceFrom_absent habsent]
        rw [replaceAll_cons, hsame]
        exact ⟨picks, pieces, .absent habsent herases, hleft, hkept⟩
      · have hshort : (b.drop old.length).length < (a ++ b).length := by
          have hle := hold.length_le
          have hpos := List.length_pos_iff.mpr hne.1
          rw [List.length_map] at hle
          rw [List.length_drop, List.length_append]
          omega
        obtain ⟨picks, pieces, herases, hleft, hkept⟩ := hlater (i + 1) o a
        obtain ⟨picks', pieces', herases', hleft', hkept'⟩ :=
          ihn _ hshort (o + a.length + old.length) (b.drop old.length) rfl
        have hall : replaceAll char (old :: olds) new (a ++ b) = replaceAll char olds new a ++
            (new ++ replaceAll char (old :: olds) new (b.drop old.length)) := by
          rw [replaceAll_cons, replace_first hne.1 hold hfirst,
            replaceAll_separators hne.2 hnew hout]
          rfl
        refine ⟨_, _, .first hold hfirst herases herases', ?_, ?_⟩
        · intro x hx
          rw [hall, List.mem_append, List.mem_append] at hx
          rcases hx with hx | hx | hx
          · rcases hleft x hx with hx | ⟨piece, hpiece, hx⟩
            · exact .inl hx
            · exact .inr ⟨piece, List.mem_append_left _ hpiece, hx⟩
          · exact .inl hx
          · rcases hleft' x hx with hx | ⟨piece, hpiece, hx⟩
            · exact .inl hx
            · exact .inr ⟨piece, List.mem_append_right _ hpiece, hx⟩
        · intro piece hpiece x hx
          rw [hall, List.mem_append, List.mem_append]
          rcases List.mem_append.mp hpiece with hpiece | hpiece
          · exact .inl (hkept piece hpiece x hx)
          · exact .inr (.inr (hkept' piece hpiece x hx))

end Replace

/-! ## Occurrences -/

section Occurrences

variable {α β : Type}

/-- Pattern `x.1` occurs at place `x.2`. -/
def Occurs (olds : List (List α)) (text : List α) (x : Nat × Nat) : Prop :=
  ∃ old, olds[x.1]? = some old ∧ old <+: text.drop x.2

def stop (olds : List (List α)) (x : Nat × Nat) : Nat := x.2 + (olds.getD x.1 []).length

/-- The place is in the occurrence. -/
def Covers (olds : List (List α)) (x : Nat × Nat) (p : Nat) : Prop := x.2 ≤ p ∧ p < stop olds x

def Overlap (olds : List (List α)) (x y : Nat × Nat) : Prop :=
  ∃ p, Covers olds x p ∧ Covers olds y p

/-- The order in which occurrences are replaced: by pattern, and then by place. -/
def Before (x y : Nat × Nat) : Prop := x.1 < y.1 ∨ (x.1 = y.1 ∧ x.2 < y.2)

/-- What is known of the places that are replaced, for a text of length `n` at place `o`. -/
structure Picks (olds : List (List α)) (text : List α) (i o n : Nat) (picks : List (Nat × Nat)) :
    Prop where
  from_ : ∀ x ∈ picks, i ≤ x.1
  occurs : ∀ x ∈ picks, Occurs olds text x
  inside : ∀ x ∈ picks, o ≤ x.2 ∧ stop olds x ≤ o + n
  apart : ∀ x ∈ picks, ∀ y ∈ picks, x = y ∨ ¬ Overlap olds x y
  greedy : ∀ x, Occurs olds text x → i ≤ x.1 → o ≤ x.2 → stop olds x ≤ o + n →
    ∃ y ∈ picks, Overlap olds y x ∧ (y = x ∨ Before y x)

/-- The pieces are what lies between these places. -/
structure Between (olds : List (List α)) (cells : List β) (o n : Nat) (picks : List (Nat × Nat))
    (pieces : List (Nat × List β)) : Prop where
  piece : ∀ piece ∈ pieces, piece.2 <+: cells.drop piece.1
  places : ∀ p, (∃ piece ∈ pieces, piece.1 ≤ p ∧ p < piece.1 + piece.2.length) ↔
    (o ≤ p ∧ p < o + n) ∧ ∀ x ∈ picks, ¬ Covers olds x p

variable {olds : List (List α)} {text : List α}

theorem overlap_iff {x y : Nat × Nat} : Overlap olds x y ↔
    x.2 < stop olds y ∧ y.2 < stop olds x ∧ x.2 < stop olds x ∧ y.2 < stop olds y := by
  constructor
  · rintro ⟨p, ⟨hx, hx'⟩, hy, hy'⟩
    omega
  · rintro ⟨h, h', hx, hy⟩
    refine ⟨max x.2 y.2, ⟨?_, ?_⟩, ?_, ?_⟩ <;> omega

theorem not_overlap_of_le {x y : Nat × Nat} (h : stop olds x ≤ y.2) :
    ¬ Overlap olds x y ∧ ¬ Overlap olds y x := by
  rw [overlap_iff, overlap_iff]
  omega

theorem stop_eq {i k : Nat} {old : List α} (h : olds[i]? = some old) :
    stop olds (i, k) = k + old.length := by
  rw [stop, List.getD_eq_getElem?_getD, h]
  rfl

/-- An occurrence that lies in a part of the text is one in that part. -/
theorem prefix_window {old t : List α} {o k : Nat} (ht : t <+: text.drop o)
    (hold : old <+: text.drop k) (hk : o ≤ k) (hend : k + old.length ≤ o + t.length) :
    old <+: t.drop (k - o) := by
  obtain ⟨r, hr⟩ := ht
  have hdrop : text.drop k = t.drop (k - o) ++ r := by
    rw [← Nat.add_sub_cancel' hk, ← List.drop_drop, ← hr, Nat.add_sub_cancel_left,
      List.drop_append_of_le_length (by omega)]
  rw [hdrop] at hold
  refine List.prefix_of_prefix_length_le hold (List.prefix_append _ _) ?_
  rw [List.length_drop]
  omega

theorem drop_succ_of_cons {i : Nat} {old : List α} {rest : List (List α)}
    (h : old :: rest = olds.drop i) : olds[i]? = some old ∧ rest = olds.drop (i + 1) := by
  refine ⟨?_, ?_⟩
  · rw [← List.head?_drop, ← h, List.head?_cons]
  · rw [← List.drop_drop, ← h, List.drop_one, List.tail_cons]

theorem Occurs.lt_stop (hne : ∀ old ∈ olds, old ≠ []) {x : Nat × Nat} (hx : Occurs olds text x) :
    x.2 < stop olds x := by
  obtain ⟨old, hold, -⟩ := hx
  have hpos := List.length_pos_iff.mpr (hne old (List.mem_of_getElem? hold))
  rw [show x = (x.1, x.2) from rfl, stop_eq hold]
  omega

/-- No occurrence of a pattern comes before its first one. -/
theorem Occurs.first_le {i o a : Nat} {old t : List α} (hold : olds[i]? = some old)
    (ht : t <+: text.drop o) (hfirst : ∀ k < a, ¬ old <+: t.drop k) {x : Nat × Nat}
    (hx : Occurs olds text x) (ho : o ≤ x.2) (hn : stop olds x ≤ o + t.length) (heq : i = x.1) :
    o + a ≤ x.2 := by
  obtain ⟨old', hold', hat⟩ := hx
  rw [← heq, hold] at hold'
  cases hold'
  rw [show x = (i, x.2) from Prod.ext heq.symm rfl, stop_eq hold] at hn
  have hwindow := prefix_window ht hat ho hn
  have hle : a ≤ x.2 - o := Nat.le_of_not_lt fun hlt => hfirst _ hlt hwindow
  omega

/-- What ends before a place does not overlap what begins there or behind. -/
theorem apart_append {k : Nat} {picks picks' : List (Nat × Nat)}
    (h : ∀ x ∈ picks, ∀ y ∈ picks, x = y ∨ ¬ Overlap olds x y)
    (h' : ∀ x ∈ picks', ∀ y ∈ picks', x = y ∨ ¬ Overlap olds x y)
    (hleft : ∀ x ∈ picks, stop olds x ≤ k) (hright : ∀ x ∈ picks', k ≤ x.2) :
    ∀ x ∈ picks ++ picks', ∀ y ∈ picks ++ picks', x = y ∨ ¬ Overlap olds x y := by
  intro x hx y hy
  rcases List.mem_append.mp hx with hx | hx
  · rcases List.mem_append.mp hy with hy | hy
    · exact h x hx y hy
    · exact .inr (not_overlap_of_le ((hleft x hx).trans (hright y hy))).1
  · rcases List.mem_append.mp hy with hy | hy
    · exact .inr (not_overlap_of_le ((hleft y hy).trans (hright x hx))).2
    · exact h' x hx y hy

/-- The first occurrence of a pattern, with what is replaced before and behind it. -/
theorem Picks.join {i o : Nat} {old : List α} {t : List α} {a : Nat}
    {picks picks' : List (Nat × Nat)}
    (hold : olds[i]? = some old) (ht : t <+: text.drop o) (hat : old <+: t.drop a)
    (ha : a + old.length ≤ t.length)
    (hne : ∀ old ∈ olds, old ≠ []) (hfirst : ∀ k < a, ¬ old <+: t.drop k)
    (h : Picks olds text (i + 1) o a picks)
    (h' : Picks olds text i (o + a + old.length) (t.length - (a + old.length)) picks') :
    Picks olds text i o t.length ((i, o + a) :: (picks ++ picks')) := by
  have hstop : stop olds (i, o + a) = o + a + old.length := stop_eq hold
  have hright : ∀ x ∈ picks', o + a + old.length ≤ x.2 ∧ stop olds x ≤ o + t.length := by
    intro x hx
    have hx := h'.inside x hx
    omega
  constructor
  · refine List.forall_mem_cons.mpr ⟨Nat.le_refl i, List.forall_mem_append.mpr ⟨?_, h'.from_⟩⟩
    exact fun x hx => Nat.le_of_succ_le (h.from_ x hx)
  · refine List.forall_mem_cons.mpr ⟨⟨old, hold, ?_⟩,
      List.forall_mem_append.mpr ⟨h.occurs, h'.occurs⟩⟩
    rw [← List.drop_drop]
    exact hat.trans (ht.drop a)
  · refine List.forall_mem_cons.mpr ⟨?_, List.forall_mem_append.mpr ⟨fun x hx => ?_, fun x hx => ?_⟩⟩
    · rw [hstop]
      dsimp only
      omega
    · have hx := h.inside x hx
      omega
    · have hx := hright x hx
      omega
  · have hbehind : ∀ x ∈ (i, o + a) :: picks', o + a ≤ x.2 := by
      refine List.forall_mem_cons.mpr ⟨Nat.le_refl _, fun x hx => ?_⟩
      have hx := hright x hx
      omega
    have hself : ∀ x ∈ [(i, o + a)], ∀ y ∈ [(i, o + a)], x = y ∨ ¬ Overlap olds x y := by
      intro x hx y hy
      exact .inl ((List.mem_singleton.mp hx).trans (List.mem_singleton.mp hy).symm)
    have hapart := apart_append h.apart
      (apart_append hself h'.apart (by simp [hstop]) fun x hx => (hright x hx).1)
      (fun x hx => (h.inside x hx).2) hbehind
    have hmem : ∀ x, x ∈ (i, o + a) :: (picks ++ picks') → x ∈ picks ++ ([(i, o + a)] ++ picks') := by
      intro x hx
      exact List.perm_middle.mem_iff.mpr hx
    exact fun x hx y hy => hapart x (hmem x hx) y (hmem y hy)
  · rintro x hx hi ho hn
    have hpos := hx.lt_stop hne
    have hlength := List.length_pos_iff.mpr (hne old (List.mem_of_getElem? hold))
    have hsame : i = x.1 → o + a ≤ x.2 := hx.first_le hold ht hfirst ho hn
    by_cases hoverlap : Overlap olds (i, o + a) x
    · refine ⟨(i, o + a), List.mem_cons_self, hoverlap, ?_⟩
      rcases Nat.eq_or_lt_of_le hi with heq | hlt
      · rcases Nat.eq_or_lt_of_le (hsame heq) with hplace | hplace
        · exact .inl (Prod.ext heq hplace)
        · exact .inr (.inr ⟨heq, hplace⟩)
      · exact .inr (.inl hlt)
    · -- it ends before the occurrence, or begins behind it
      rw [overlap_iff, hstop] at hoverlap
      dsimp only at hoverlap
      by_cases hle : stop olds x ≤ o + a
      · have hlater : i + 1 ≤ x.1 := by
          refine Nat.lt_of_le_of_ne hi fun heq => ?_
          have hx := hsame heq
          omega
        obtain ⟨y, hy, hyx⟩ := h.greedy x hx hlater ho hle
        exact ⟨y, List.mem_cons_of_mem _ (List.mem_append_left _ hy), hyx⟩
      · obtain ⟨y, hy, hyx⟩ := h'.greedy x hx hi (by omega) (by omega)
        exact ⟨y, List.mem_cons_of_mem _ (List.mem_append_right _ hy), hyx⟩

theorem Between.join {i o a b : Nat} {old : List α} {cells : List β}
    {picks picks' : List (Nat × Nat)} {pieces pieces' : List (Nat × List β)}
    (hold : olds[i]? = some old) (hle : old.length ≤ b)
    (hpicks : Picks olds text (i + 1) o a picks)
    (hpicks' : Picks olds text i (o + a + old.length) (b - old.length) picks')
    (h : Between olds cells o a picks pieces)
    (h' : Between olds cells (o + a + old.length) (b - old.length) picks' pieces') :
    Between olds cells o (a + b) ((i, o + a) :: (picks ++ picks')) (pieces ++ pieces') := by
  have hstop : stop olds (i, o + a) = o + a + old.length := stop_eq hold
  refine ⟨List.forall_mem_append.mpr ⟨h.piece, h'.piece⟩, fun p => ?_⟩
  have hsplit : (∃ piece ∈ pieces ++ pieces', piece.1 ≤ p ∧ p < piece.1 + piece.2.length) ↔
      (∃ piece ∈ pieces, piece.1 ≤ p ∧ p < piece.1 + piece.2.length) ∨
        ∃ piece ∈ pieces', piece.1 ≤ p ∧ p < piece.1 + piece.2.length := by
    simp only [List.mem_append, or_and_right, exists_or]
  rw [hsplit, h.places, h'.places, List.forall_mem_cons, List.forall_mem_append, Covers, hstop]
  -- What is replaced before the occurrence ends there, and what is replaced behind begins there.
  have hleft : ∀ x ∈ picks, o + a ≤ p → ¬ Covers olds x p := fun x hx hp hc => by
    have hin := hpicks.inside x hx
    have hc := hc.2
    omega
  have hright : ∀ x ∈ picks', p < o + a + old.length → ¬ Covers olds x p := fun x hx hp hc => by
    have hin := hpicks'.inside x hx
    have hc := hc.1
    omega
  constructor
  · rintro (⟨hp, hnot⟩ | ⟨hp, hnot⟩)
    · refine ⟨by omega, by omega, hnot, fun x hx => hright x hx (by omega)⟩
    · refine ⟨by omega, by omega, fun x hx => hleft x hx (by omega), hnot⟩
  · rintro ⟨hp, hout, hnot, hnot'⟩
    rcases Nat.lt_or_ge p (o + a) with hlt | hge
    · exact .inl ⟨⟨hp.1, hlt⟩, hnot⟩
    · exact .inr ⟨by omega, hnot'⟩

theorem Erases.picks [DecidableEq α] {char : β → α} {cells : List β} {all : List (List α)}
    {i o : Nat} {olds : List (List α)} {text : List β} {picks : List (Nat × Nat)}
    {pieces : List (Nat × List β)} (hne : ∀ old ∈ all, old ≠ [])
    (h : Erases char i olds o text picks pieces) (hall : olds = all.drop i)
    (htext : text <+: cells.drop o) :
    Picks all (cells.map char) i o text.length picks ∧
      Between all cells o text.length picks pieces := by
  induction h with
  | @last i o text =>
    refine ⟨⟨nofun, nofun, nofun, nofun, fun x hx hi _ _ => ?_⟩, ?_, fun p => ?_⟩
    · obtain ⟨old, hold, -⟩ := hx
      have hle : all.length ≤ i := List.drop_eq_nil_iff.mp hall.symm
      rw [List.getElem?_eq_none (by omega)] at hold
      cases hold
    · rintro piece hpiece
      rw [List.mem_singleton.mp hpiece]
      exact htext
    · simp
  | @absent i o old olds text picks pieces habsent h ih =>
    obtain ⟨hold, hrest⟩ := drop_succ_of_cons hall
    obtain ⟨hpicks, hbetween⟩ := ih hrest htext
    refine ⟨⟨fun x hx => Nat.le_of_succ_le (hpicks.from_ x hx), hpicks.occurs, hpicks.inside,
      hpicks.apart, fun x hx hi ho hn => ?_⟩, hbetween⟩
    rcases Nat.eq_or_lt_of_le hi with heq | hlt
    · have hwindow : text.map char <+: (cells.map char).drop o := by
        rw [← List.map_drop]
        exact htext.map char
      have hle := hx.first_le hold hwindow (fun k (_ : k < x.2 + 1) => habsent k) ho
        (by rwa [List.length_map]) heq
      omega
    · exact hpicks.greedy x hx hlt ho hn
  | @first i o old olds a b picks picks' pieces pieces' hat hfirst h h' ih ih' =>
    obtain ⟨hold, hrest⟩ := drop_succ_of_cons hall
    have hle := hat.length_le
    rw [List.length_map] at hle
    have hbehind : b.drop old.length <+: cells.drop (o + a.length + old.length) := by
      have hdrop := htext.drop (a.length + old.length)
      rw [List.drop_append, List.drop_of_length_le (by omega), List.nil_append, List.drop_drop,
        Nat.add_sub_cancel_left, ← Nat.add_assoc] at hdrop
      exact hdrop
    obtain ⟨hpicks, hbetween⟩ := ih hrest ((List.prefix_append a b).trans htext)
    obtain ⟨hpicks', hbetween'⟩ := ih' hall hbehind
    have hcells : (a ++ b).map char <+: (cells.map char).drop o := by
      rw [← List.map_drop]
      exact htext.map char
    have hlength : (a ++ b).length = ((a ++ b).map char).length := (List.length_map ..).symm
    refine ⟨?_, ?_⟩
    · rw [hlength]
      refine Picks.join hold hcells ?_ ?_ hne hfirst hpicks ?_
      · rw [List.map_append, List.drop_append, List.drop_of_length_le (by simp), List.length_map,
          Nat.sub_self, List.drop_zero, List.nil_append]
        exact hat
      · rw [← hlength, List.length_append]
        omega
      · rw [← hlength, List.length_append, Nat.add_sub_add_left, ← List.length_drop]
        exact hpicks'
    · rw [List.length_append]
      rw [List.length_drop] at hpicks' hbetween'
      exact hbetween.join hold hle hpicks hpicks' hbetween'

/-! ## Patterns that are replaced as a whole -/

/-- In a text of just two overlapping occurrences, where none that comes before the first of them
overlaps it, every place of the other that is left is in an occurrence within what is left. -/
def Covering (olds : List (List α)) : Prop :=
  ∀ text x y, Occurs olds text x → Occurs olds text y → Before x y → Overlap olds x y →
    (∀ p < text.length, Covers olds x p ∨ Covers olds y p) →
    (∀ z, Occurs olds text z → Before z x → ¬ Overlap olds z x) →
    ∀ p, Covers olds y p → ¬ Covers olds x p →
      ∃ z, Occurs olds text z ∧ Covers olds z p ∧
        ∀ q, Covers olds z q → Covers olds y q ∧ ¬ Covers olds x q

theorem Occurs.getElem? {x : Nat × Nat} {old : List α} (hx : Occurs olds text x)
    (hold : olds[x.1]? = some old) {k : Nat} (hk : k < old.length) : text[x.2 + k]? = old[k]? := by
  obtain ⟨old', hold', rest, hrest⟩ := hx
  rw [hold] at hold'
  cases hold'
  rw [← List.getElem?_drop, ← hrest, List.getElem?_append_left hk]

/-- One pattern that begins as it does not go on is replaced as a whole: its occurrences do not
overlap. -/
theorem covering_singleton {c : α} {old : List α} (hc : c ∉ old) : Covering [c :: old] := by
  intro text x y hx hy hbefore hoverlap
  exfalso
  have hindex : ∀ {z}, Occurs [c :: old] text z → z.1 = 0 := by
    rintro z ⟨old', hold', -⟩
    obtain ⟨hlt, -⟩ := List.getElem?_eq_some_iff.mp hold'
    rw [List.length_singleton] at hlt
    omega
  have hx0 : [c :: old][x.1]? = some (c :: old) := by rw [hindex hx]; rfl
  have hy0 : [c :: old][y.1]? = some (c :: old) := by rw [hindex hy]; rfl
  have hstop : stop [c :: old] x = x.2 + (old.length + 1) := stop_eq hx0
  rw [overlap_iff, hstop] at hoverlap
  rw [Before, hindex hx, hindex hy] at hbefore
  obtain ⟨k, hk⟩ : ∃ k, y.2 = x.2 + (k + 1) := ⟨y.2 - x.2 - 1, by omega⟩
  have hhead := hy.getElem? hy0 (Nat.zero_lt_succ _)
  have hinner := hx.getElem? hx0 (show k + 1 < (c :: old).length by rw [List.length_cons]; omega)
  rw [Nat.add_zero, hk, hinner, List.getElem?_cons_succ, List.getElem?_cons_zero] at hhead
  exact hc (List.mem_of_getElem? hhead)

theorem Before.trans {x y z : Nat × Nat} (h : Before x y) (h' : Before y z) : Before x z := by
  rw [Before] at *
  omega

theorem Before.ne {x y : Nat × Nat} (h : Before x y) : x ≠ y := by
  rintro rfl
  rw [Before] at h
  omega

/-- Of some occurrences one comes first. -/
theorem exists_first {q : Nat × Nat → Prop} (h : ∃ x, q x) :
    ∃ x, q x ∧ ∀ y, q y → ¬ Before y x := by
  have hwf : WellFounded Before := by
    have hlex : WellFounded (@Prod.Lex Nat Nat (· < ·) (· < ·)) :=
      Nat.lt_wfRel.wf.prod_lex Nat.lt_wfRel.wf
    exact Subrelation.wf (fun hxy => Prod.lex_def.mpr hxy) hlex
  obtain ⟨x, hx, hmin⟩ := hwf.has_min {x | q x} h
  exact ⟨x, hx, fun y hy => hmin y hy⟩

theorem Occurs.stop_le (hne : ∀ old ∈ olds, old ≠ []) {x : Nat × Nat} (hx : Occurs olds text x) :
    stop olds x ≤ text.length := by
  have hlt := hx.lt_stop hne
  obtain ⟨old, hold, hat⟩ := hx
  have hle := hat.length_le
  have hpos := List.length_pos_iff.mpr (hne old (List.mem_of_getElem? hold))
  rw [List.length_drop] at hle
  rw [show x = (x.1, x.2) from rfl, stop_eq hold]
  omega

/-! ### A window of the text -/

def shift (lo : Nat) (x : Nat × Nat) : Nat × Nat := (x.1, x.2 + lo)

theorem stop_shift (lo : Nat) (x : Nat × Nat) : stop olds (shift lo x) = stop olds x + lo := by
  simp only [stop, shift]
  omega

theorem occurs_shift {lo n : Nat} {x : Nat × Nat} (hx : Occurs olds ((text.drop lo).take n) x) :
    Occurs olds text (shift lo x) := by
  obtain ⟨old, hold, hat⟩ := hx
  refine ⟨old, hold, hat.trans ?_⟩
  rw [shift, Nat.add_comm, ← List.drop_drop]
  exact (List.take_prefix n _).drop x.2

theorem occurs_window {lo n : Nat} {x : Nat × Nat} (hx : Occurs olds text (shift lo x))
    (hn : lo + n ≤ text.length) (hend : stop olds x ≤ n) :
    Occurs olds ((text.drop lo).take n) x := by
  obtain ⟨old, hold, hat⟩ := hx
  refine ⟨old, hold, ?_⟩
  have hold' : olds[x.1]? = some old := hold
  rw [show x = (x.1, x.2) from rfl, stop_eq hold'] at hend
  have hwindow := prefix_window (List.take_prefix n (text.drop lo)) hat (Nat.le_add_left _ _) (by
    rw [List.length_take, List.length_drop]
    simp only [shift]
    omega)
  rwa [shift, Nat.add_sub_cancel] at hwindow

theorem covers_shift {lo p : Nat} {x : Nat × Nat} :
    Covers olds (shift lo x) (p + lo) ↔ Covers olds x p := by
  rw [Covers, Covers, stop_shift, shift]
  omega

/-- What holds of a text of just two occurrences holds of two occurrences in any text. -/
theorem Covering.window (hne : ∀ old ∈ olds, old ≠ []) (h : Covering olds) {x y : Nat × Nat}
    (hx : Occurs olds text x) (hy : Occurs olds text y) (hbefore : Before x y)
    (hoverlap : Overlap olds x y)
    (hfirst : ∀ z, Occurs olds text z → Before z x → Overlap olds z x →
      ∃ q, Covers olds z q ∧ ¬ Covers olds x q ∧ ¬ Covers olds y q)
    {p : Nat} (hp : Covers olds y p) (hout : ¬ Covers olds x p) :
    ∃ z, Occurs olds text z ∧ Covers olds z p ∧
      ∀ q, Covers olds z q → Covers olds y q ∧ ¬ Covers olds x q := by
  obtain ⟨lo, hlo⟩ : ∃ lo, lo = min x.2 y.2 := ⟨_, rfl⟩
  obtain ⟨x', rfl⟩ : ∃ x', x = shift lo x' :=
    ⟨(x.1, x.2 - lo), Prod.ext rfl (by simp only [shift]; omega)⟩
  obtain ⟨y', rfl⟩ : ∃ y', y = shift lo y' :=
    ⟨(y.1, y.2 - lo), Prod.ext rfl (by simp only [shift]; omega)⟩
  obtain ⟨p', rfl⟩ : ∃ p', p = p' + lo := by
    have hin := hp.1
    exact ⟨p - lo, by omega⟩
  have hxend := hx.stop_le hne
  have hyend := hy.stop_le hne
  rw [overlap_iff] at hoverlap
  simp only [stop_shift] at hxend hyend hoverlap
  simp only [shift] at hlo hoverlap
  obtain ⟨m, hm⟩ : ∃ m, m = max (stop olds x') (stop olds y') := ⟨_, rfl⟩
  have hlength : ((text.drop lo).take m).length = m := by
    rw [List.length_take, List.length_drop]
    omega
  have hunion : ∀ q, q < m ↔ Covers olds x' q ∨ Covers olds y' q := by
    intro q
    rw [Covers, Covers]
    omega
  rw [covers_shift] at hp hout
  obtain ⟨z, hz, hzp, hzin⟩ := h ((text.drop lo).take m) x' y'
    (occurs_window hx (by omega) (by omega)) (occurs_window hy (by omega) (by omega))
    (by simpa [Before, shift] using hbefore) (overlap_iff.mpr (by omega))
    (fun q hq => (hunion q).mp (hlength ▸ hq))
    (fun z hz hzx hzoverlap => by
      have hzend := hz.stop_le hne
      rw [hlength] at hzend
      obtain ⟨q, hzq, hxq, hyq⟩ := hfirst (shift lo z) (occurs_shift hz)
        (by simpa [Before, shift] using hzx) (by
          rw [overlap_iff] at hzoverlap ⊢
          simp only [stop_shift]
          simp only [shift]
          omega)
      obtain ⟨q', rfl⟩ : ∃ q', q = q' + lo := by
        have hin := hzq.1
        simp only [shift] at hin
        exact ⟨q - lo, by omega⟩
      rw [covers_shift] at hzq hxq hyq
      exact ((hunion q').mp (Nat.lt_of_lt_of_le hzq.2 hzend)).elim hxq hyq)
    p' hp hout
  refine ⟨shift lo z, occurs_shift hz, covers_shift.mpr hzp, fun q hq => ?_⟩
  obtain ⟨q', rfl⟩ : ∃ q', q = q' + lo := by
    have hin := hq.1
    simp only [shift] at hin
    exact ⟨q - lo, by omega⟩
  rw [covers_shift] at hq ⊢
  rw [covers_shift]
  exact hzin q' hq

/-- Where the patterns are covering, what is replaced covers every occurrence. -/
theorem Picks.covers (hne : ∀ old ∈ olds, old ≠ []) (hcovering : Covering olds)
    {picks : List (Nat × Nat)} (h : Picks olds text 0 0 text.length picks) {x : Nat × Nat} {p : Nat}
    (hx : Occurs olds text x) (hp : Covers olds x p) : ∃ z ∈ picks, Covers olds z p := by
  by_contra hnone
  push Not at hnone
  -- On the length of the occurrence: a shorter one has the place too.
  induction hn : stop olds x - x.2 using Nat.strong_induction_on generalizing x with
  | _ n ih =>
    subst hn
    have hgreedy : ∀ z, Occurs olds text z → ∃ y ∈ picks, Overlap olds y z ∧ (y = z ∨ Before y z) :=
      fun z hz => h.greedy z hz (Nat.zero_le _) (Nat.zero_le _) (by
        rw [Nat.zero_add]
        exact hz.stop_le hne)
    have hsome : ∃ y, y ∈ picks ∧ Overlap olds y x ∧ Before y x := by
      obtain ⟨y, hy, hoverlap, rfl | hbefore⟩ := hgreedy x hx
      · exact absurd hp (hnone y hy)
      · exact ⟨y, hy, hoverlap, hbefore⟩
    obtain ⟨y, ⟨hy, hoverlap, hbefore⟩, hmin⟩ := exists_first hsome
    obtain ⟨z, hz, hzp, hzin⟩ := hcovering.window hne (h.occurs y hy) hx hbefore hoverlap
      (fun z hz hzy hzoverlap => by
        -- What comes before `y` and overlaps it was not replaced, for something before that.
        obtain ⟨w, hw, hwz, hle⟩ := hgreedy z hz
        have hwy : Before w y := by
          rcases hle with rfl | hlt
          · exact hzy
          · exact hlt.trans hzy
        have hapart := (h.apart w hw y hy).resolve_left hwy.ne
        obtain ⟨q, hwq, hzq⟩ := hwz
        refine ⟨q, hzq, fun hyq => hapart ⟨q, hwq, hyq⟩, fun hxq => ?_⟩
        exact hmin w ⟨hw, ⟨q, hwq, hxq⟩, hwy.trans hbefore⟩ hwy)
      hp (hnone y hy)
    refine ih _ ?_ hz hzp rfl
    obtain ⟨q, hyq, hxq⟩ := hoverlap
    have hzpos := hz.lt_stop hne
    have hfirst := (hzin z.2 ⟨Nat.le_refl _, hzpos⟩).1
    have hlast := (hzin (stop olds z - 1) ⟨by omega, by omega⟩).1
    have hnot : ¬ Covers olds z q := fun hzq => (hzin q hzq).2 hyq
    rw [Covers] at hfirst hlast hnot hxq
    omega

end Occurrences

/-! ## What is left of the occurrences -/

section Marks

variable {α β γ : Type} [DecidableEq α]

/-- The place is in an occurrence of a pattern. -/
def covered (olds : List (List α)) (text : List α) (p : Nat) : Bool :=
  olds.any fun old => (List.range (p + 1)).any fun k =>
    decide (p < k + old.length) && old.isPrefixOf (text.drop k)

/-- The text, with a mark on each character of an occurrence. -/
def mark (olds : List (List α)) (text : List α) : List (α × Bool) :=
  text.mapIdx fun p c => (c, covered olds text p)

/-- What is left of the marked text; what is put in has no mark. -/
def redacted (olds : List (List α)) (new text : List α) : List (α × Bool) :=
  replaceAll Prod.fst olds (new.map fun c => (c, false)) (mark olds text)

variable {olds : List (List α)} {new text : List α}

theorem covered_iff {p : Nat} :
    covered olds text p = true ↔ ∃ x, Occurs olds text x ∧ Covers olds x p := by
  simp only [covered, List.any_eq_true, List.mem_range, Bool.and_eq_true, decide_eq_true_eq,
    List.isPrefixOf_iff_prefix]
  constructor
  · rintro ⟨old, hold, k, hk, hlt, hat⟩
    obtain ⟨i, hi⟩ := List.mem_iff_getElem?.mp hold
    refine ⟨(i, k), ⟨old, hi, hat⟩, by dsimp only; omega, ?_⟩
    rw [stop_eq hi]
    exact hlt
  · rintro ⟨x, ⟨old, hold, hat⟩, hle, hlt⟩
    rw [show x = (x.1, x.2) from rfl, stop_eq hold] at hlt
    exact ⟨old, List.mem_of_getElem? hold, x.2, by omega, hlt, hat⟩

omit [DecidableEq α] in
theorem map_mapIdx_fst (f : Nat → α → Bool) (text : List α) :
    (text.mapIdx fun p c => (c, f p c)).map Prod.fst = text := by
  refine List.ext_getElem? fun i => ?_
  rw [List.getElem?_map, List.getElem?_mapIdx, Option.map_map]
  exact congrFun Option.map_id _

theorem mark_fst (olds : List (List α)) (text : List α) : (mark olds text).map Prod.fst = text :=
  map_mapIdx_fst _ text

/-- The replacement looks at the characters only. -/
theorem replaceFrom_map {char : β → α} {char' : γ → α} {f : β → γ} (hf : ∀ x, char' (f x) = char x)
    (old : List α) (new : List β) (k : Nat) (text : List β) :
    (replaceFrom char old new k text).map f = replaceFrom char' old (new.map f) k (text.map f) := by
  have hchars : ∀ text : List β, (text.map f).map char' = text.map char := fun text => by
    rw [List.map_map]
    exact List.map_congr_left fun x _ => hf x
  induction text generalizing k with
  | nil => cases k <;> rfl
  | cons x text ih =>
    cases k with
    | succ k => exact ih k
    | zero =>
      rw [List.map_cons, replaceFrom, replaceFrom, ← List.map_cons, hchars]
      split
      · rw [List.map_append, ih]
      · rw [List.map_cons, ih]

theorem replace_map {char : β → α} {char' : γ → α} {f : β → γ} (hf : ∀ x, char' (f x) = char x)
    (old : List α) (new text : List β) :
    (replace char old new text).map f = replace char' old (new.map f) (text.map f) := by
  rw [replace, replace]
  split
  · rw [List.map_append, List.map_flatMap, List.flatMap_map]
    rfl
  · exact replaceFrom_map hf old new 0 text

theorem replaceAll_map {char : β → α} {char' : γ → α} {f : β → γ} (hf : ∀ x, char' (f x) = char x)
    (olds : List (List α)) (new text : List β) :
    (replaceAll char olds new text).map f = replaceAll char' olds (new.map f) (text.map f) := by
  induction olds generalizing text with
  | nil => rfl
  | cons old olds ih =>
    rw [replaceAll_cons, replaceAll_cons, ih, replace_map hf]

/-- The marks aside it is the replacement. -/
theorem redacted_fst (olds : List (List α)) (new text : List α) :
    (redacted olds new text).map Prod.fst = replaceAll id olds new text := by
  have hchar : ∀ x : α × Bool, id x.1 = x.1 := fun _ => rfl
  rw [redacted, replaceAll_map hchar, mark_fst, List.map_map]
  exact congrArg (replaceAll id olds · text) (List.map_id new)

/-- What is left lies in the pieces between the places that are replaced. -/
theorem redacted_pieces (hnew : new ≠ []) (hne : ∀ old ∈ olds, old ≠ [])
    (hout : ∀ old ∈ olds.tail, ∀ c ∈ new, c ∉ old) (text : List α) :
    ∃ picks, Picks olds text 0 0 text.length picks ∧
      ((∃ c ∈ redacted olds new text, c.2 = true) ↔
        ∃ p, covered olds text p = true ∧ ∀ x ∈ picks, ¬ Covers olds x p) := by
  obtain ⟨picks, pieces, herases, hleft, hkept⟩ :=
    @exists_erases α (α × Bool) _ Prod.fst olds (new.map fun c => (c, false)) (by simpa using hnew)
      hne (fun old hold x hx => by
        obtain ⟨c, hc, rfl⟩ := List.mem_map.mp hx
        exact hout old hold c hc)
      0 0 (mark olds text)
  have hlength : (mark olds text).length = text.length := List.length_mapIdx
  have hcells : mark olds text <+: (mark olds text).drop 0 := List.prefix_refl _
  obtain ⟨hpicks, hbetween⟩ := herases.picks hne rfl hcells
  rw [mark_fst, hlength] at hpicks
  rw [hlength] at hbetween
  refine ⟨picks, hpicks, ?_⟩
  -- The cell of a piece is that of the text at the place.
  have hcell : ∀ piece ∈ pieces, ∀ k < piece.2.length,
      piece.2[k]? = (text[piece.1 + k]?).map fun c => (c, covered olds text (piece.1 + k)) := by
    intro piece hpiece k hk
    obtain ⟨rest, hrest⟩ := hbetween.piece piece hpiece
    have happend : (piece.2 ++ rest)[k]? = piece.2[k]? := List.getElem?_append_left hk
    rw [← happend, hrest, List.getElem?_drop, mark, List.getElem?_mapIdx]
  constructor
  · rintro ⟨c, hc, hmarked⟩
    rcases hleft c hc with hc | ⟨piece, hpiece, hc⟩
    · obtain ⟨_, _, rfl⟩ := List.mem_map.mp hc
      cases hmarked
    · obtain ⟨k, hk, hget⟩ := List.mem_iff_getElem.mp hc
      have hplaces := (hbetween.places (piece.1 + k)).mp ⟨piece, hpiece, by omega, by omega⟩
      have hat := hcell piece hpiece k hk
      rw [List.getElem?_eq_getElem hk, hget, List.getElem?_eq_getElem (by omega), Option.map_some,
        Option.some_inj] at hat
      rw [hat] at hmarked
      exact ⟨piece.1 + k, hmarked, hplaces.2⟩
  · rintro ⟨p, hcovered, hnot⟩
    obtain ⟨x, hx, hxp⟩ := covered_iff.mp hcovered
    have hstop := hx.stop_le hne
    obtain ⟨piece, hpiece, hle, hlt⟩ :=
      (hbetween.places p).mpr ⟨⟨Nat.zero_le _, by have hlast := hxp.2; omega⟩, hnot⟩
    have hk : p - piece.1 < piece.2.length := by omega
    have hat := hcell piece hpiece _ hk
    rw [List.getElem?_eq_getElem hk, Nat.add_sub_cancel' hle,
      List.getElem?_eq_getElem (by have hlast := hxp.2; omega), Option.map_some,
      Option.some_inj] at hat
    exact ⟨_, hkept piece hpiece _ (List.getElem_mem hk), by rw [hat]; exact hcovered⟩

/-- **Nothing is left of any occurrence, in any text**, just when the patterns are covering. -/
theorem covering_iff (hnew : new ≠ []) (hne : ∀ old ∈ olds, old ≠ [])
    (hout : ∀ old ∈ olds.tail, ∀ c ∈ new, c ∉ old) :
    (∀ text, ∀ c ∈ redacted olds new text, c.2 = false) ↔ Covering olds := by
  constructor
  · intro h text x y hx hy hbefore hoverlap hunion hfirst p hp hout'
    obtain ⟨picks, hpicks, hiff⟩ := redacted_pieces hnew hne hout text
    have hgreedy := hpicks.greedy x hx (Nat.zero_le _) (Nat.zero_le _) (by
      rw [Nat.zero_add]
      exact hx.stop_le hne)
    have hxpick : x ∈ picks := by
      obtain ⟨w, hw, hwx, rfl | hlt⟩ := hgreedy
      · exact hw
      · exact absurd hwx (hfirst w (hpicks.occurs w hw) hlt)
    have hreplaced : ∃ z ∈ picks, Covers olds z p := by
      by_contra hnone
      push Not at hnone
      obtain ⟨c, hc, hmarked⟩ := hiff.mpr ⟨p, covered_iff.mpr ⟨y, hy, hp⟩, hnone⟩
      rw [h text c hc] at hmarked
      cases hmarked
    obtain ⟨z, hz, hzp⟩ := hreplaced
    have hapart : ¬ Overlap olds z x := (hpicks.apart z hz x hxpick).resolve_left fun heq =>
      hout' (heq ▸ hzp)
    refine ⟨z, hpicks.occurs z hz, hzp, fun q hq => ?_⟩
    have hxq : ¬ Covers olds x q := fun hxq => hapart ⟨q, hq, hxq⟩
    have hlt : q < text.length := Nat.lt_of_lt_of_le hq.2 ((hpicks.occurs z hz).stop_le hne)
    exact ⟨(hunion q hlt).resolve_left hxq, hxq⟩
  · intro h text c hc
    obtain ⟨picks, hpicks, hiff⟩ := redacted_pieces hnew hne hout text
    by_contra hmarked
    obtain ⟨p, hcovered, hnone⟩ := hiff.mp ⟨c, hc, by simpa using hmarked⟩
    obtain ⟨x, hx, hxp⟩ := covered_iff.mp hcovered
    obtain ⟨z, hz, hzp⟩ := hpicks.covers hne h hx hxp
    exact hnone z hz hzp

end Marks

end Redact
end KollaPowerOps
