import Mathlib.Data.List.Basic

/-!
# Lib.WordSearch

The search for a literal pattern between two word boundaries, as the regular expression
`\b` + pattern + `\b`, over any alphabet with word characters.

* `search_iff`   : what the search finds.
* `shows_split`  : a character that is in no word, nor in the pattern, splits the text; for lines see
  `shows_intercalate`.
* `shows_iff_eq` : a text with as many separators as the pattern shows nothing but itself.
-/

namespace KollaPowerOps
namespace WordSearch

variable {α : Type} [DecidableEq α] (word : α → Bool)

/-- `\b` between two characters. An end of the text counts as no word. -/
def boundary (l r : Option α) : Bool := l.any word != r.any word

/-- The pattern stands at the beginning of the text, which a character may precede. -/
def occursAt (pat : List α) (prev : Option α) (text : List α) : Bool :=
  pat.isPrefixOf text && boundary word prev text.head? &&
    boundary word (pat.getLast?.or prev) (text.drop pat.length).head?

def search (pat : List α) : Option α → List α → Bool
  | prev, [] => occursAt word pat prev []
  | prev, c :: text => occursAt word pat prev (c :: text) || search pat (some c) text

/-- `re.search`. -/
def shows (pat text : List α) : Bool := search word pat none text

variable {word} {pat text : List α}

omit [DecidableEq α] in
/-- A pattern does not reach over a character that it does not have. -/
theorem prefix_of_append_cons {c : α} (hc : c ∉ pat) {a b : List α} (h : pat <+: a ++ c :: b) :
    pat <+: a := by
  induction a generalizing pat with
  | nil =>
    cases pat with
    | nil => exact List.nil_prefix
    | cons d pat =>
      rw [List.nil_append, List.cons_prefix_cons] at h
      exact absurd (h.1 ▸ List.mem_cons_self) hc
  | cons d a ih =>
    cases pat with
    | nil => exact List.nil_prefix
    | cons e pat =>
      rw [List.cons_append, List.cons_prefix_cons] at h
      exact List.cons_prefix_cons.mpr ⟨h.1, ih (fun hmem => hc (List.mem_cons_of_mem _ hmem)) h.2⟩

theorem occursAt_iff {prev : Option α} : occursAt word pat prev text = true ↔ ∃ v,
    text = pat ++ v ∧ boundary word prev (pat ++ v).head? = true ∧
      boundary word (pat.getLast?.or prev) v.head? = true := by
  rw [occursAt, Bool.and_eq_true, Bool.and_eq_true, List.isPrefixOf_iff_prefix, and_assoc]
  constructor
  · rintro ⟨⟨v, rfl⟩, hleft, hright⟩
    rw [List.drop_left] at hright
    exact ⟨v, rfl, hleft, hright⟩
  · rintro ⟨v, rfl, hleft, hright⟩
    rw [List.drop_left]
    exact ⟨⟨v, rfl⟩, hleft, hright⟩

theorem search_iff {prev : Option α} : search word pat prev text = true ↔ ∃ u v,
    text = u ++ (pat ++ v) ∧ boundary word (u.getLast?.or prev) (pat ++ v).head? = true ∧
      boundary word ((u ++ pat).getLast?.or prev) v.head? = true := by
  induction text generalizing prev with
  | nil =>
    rw [search, occursAt_iff]
    constructor
    · rintro ⟨v, htext, hleft, hright⟩
      exact ⟨[], v, htext, hleft, hright⟩
    · rintro ⟨u, v, htext, hleft, hright⟩
      obtain ⟨rfl, hv⟩ := List.append_eq_nil_iff.mp htext.symm
      exact ⟨v, hv.symm, hleft, hright⟩
  | cons c text ih =>
    have hlast : ∀ l : List α, (c :: l).getLast?.or prev = l.getLast?.or (some c) := by
      intro l
      cases l with
      | nil => rfl
      | cons x l => rw [List.getLast?_cons_cons, List.getLast?_cons, Option.some_or, Option.some_or]
    rw [search, Bool.or_eq_true, occursAt_iff, ih]
    constructor
    · rintro (⟨v, htext, hleft, hright⟩ | ⟨u, v, rfl, hleft, hright⟩)
      · exact ⟨[], v, htext, hleft, hright⟩
      · refine ⟨c :: u, v, rfl, ?_, ?_⟩
        · rwa [hlast]
        · rwa [List.cons_append, hlast]
    · rintro ⟨u, v, htext, hleft, hright⟩
      cases u with
      | nil => exact .inl ⟨v, htext, hleft, hright⟩
      | cons x u =>
        obtain ⟨rfl, rfl⟩ := List.cons.inj htext
        rw [hlast] at hleft
        rw [List.cons_append, hlast] at hright
        exact .inr ⟨u, v, rfl, hleft, hright⟩

theorem shows_iff : shows word pat text = true ↔ ∃ u v, text = u ++ (pat ++ v) ∧
    boundary word u.getLast? (pat ++ v).head? = true ∧
      boundary word (u ++ pat).getLast? v.head? = true := by
  rw [shows, search_iff]
  simp only [Option.or_none]

/-- A pattern that begins and ends with word characters. -/
structure Bounded (word : α → Bool) (pat : List α) : Prop where
  first : pat.head?.any word = true
  last : pat.getLast?.any word = true

omit [DecidableEq α] in
theorem Bounded.ne_nil (h : Bounded word pat) : pat ≠ [] := by
  rintro rfl
  exact absurd h.first (by simp)

/-- Such a pattern is to have no word character on either side. -/
theorem shows_iff_of_bounded (hpat : Bounded word pat) : shows word pat text = true ↔ ∃ u v,
    text = u ++ (pat ++ v) ∧ u.getLast?.any word = false ∧ v.head?.any word = false := by
  have hne := hpat.ne_nil
  rw [shows_iff]
  refine exists_congr fun u => exists_congr fun v => and_congr_right fun _ => ?_
  rw [List.head?_append_of_ne_nil _ hne, List.getLast?_append_of_ne_nil _ hne, boundary, boundary,
    hpat.first, hpat.last]
  simp

omit [DecidableEq α] in
theorem boundary_congr {l l' r r' : Option α} (hl : l.any word = l'.any word)
    (hr : r.any word = r'.any word) : boundary word l r = boundary word l' r' := by
  rw [boundary, boundary, hl, hr]

theorem shows_split {sep : α} {a b : List α} (hsep : word sep = false) (hnot : sep ∉ pat)
    (hne : pat ≠ []) :
    shows word pat (a ++ sep :: b) = true ↔ shows word pat a = true ∨ shows word pat b = true := by
  have hend : ∀ v : List α, (v ++ sep :: b).head?.any word = v.head?.any word := by
    intro v
    cases v with
    | nil => simp [hsep]
    | cons x v => rfl
  have hbegin : ∀ u : List α, (a ++ sep :: u).getLast?.any word = u.getLast?.any word := by
    intro u
    cases hu : u.getLast? with
    | none =>
      obtain rfl := List.getLast?_eq_none_iff.mp hu
      simp [hsep]
    | some x =>
      have hne : u ≠ [] := fun h => by simp [h] at hu
      rw [List.getLast?_append_of_ne_nil _ (List.cons_ne_nil sep u), List.getLast?_cons, hu]
      rfl
  simp only [shows_iff]
  constructor
  · rintro ⟨u, v, htext, hleft, hright⟩
    rcases List.append_eq_append_iff.mp htext with ⟨c, rfl, hc⟩ | ⟨c, rfl, hc⟩
    · -- the pattern does not begin before the separator
      cases c with
      | nil =>
        obtain ⟨x, l, rfl⟩ := List.exists_cons_of_ne_nil hne
        obtain ⟨rfl, -⟩ := List.cons.inj hc
        exact absurd List.mem_cons_self hnot
      | cons x c =>
        obtain ⟨rfl, rfl⟩ := List.cons.inj hc
        refine .inr ⟨c, v, rfl, ?_, ?_⟩
        · rw [← hleft]
          exact boundary_congr (hbegin c).symm rfl
        · rw [← hright, List.append_assoc, List.cons_append]
          exact boundary_congr (hbegin (c ++ pat)).symm rfl
    · -- it ends before the separator
      have hv : ∃ v', c = pat ++ v' ∧ v = v' ++ sep :: b := by
        rcases List.append_eq_append_iff.mp hc with ⟨v', hpat, hv⟩ | ⟨l, hpat, hl⟩
        · exact ⟨v', hpat, hv⟩
        · cases l with
          | nil => exact ⟨[], by simpa using hpat.symm, hl.symm⟩
          | cons x l =>
            obtain ⟨rfl, -⟩ := List.cons.inj hl
            exact absurd (hpat ▸ List.mem_append_right c List.mem_cons_self) hnot
      obtain ⟨v', rfl, rfl⟩ := hv
      refine .inl ⟨u, v', rfl, ?_, ?_⟩
      · rw [← hleft]
        refine boundary_congr rfl ?_
        rw [← List.append_assoc pat v', hend]
      · rw [← hright]
        exact boundary_congr rfl (hend v').symm
  · rintro (⟨u, v, rfl, hleft, hright⟩ | ⟨u, v, rfl, hleft, hright⟩)
    · refine ⟨u, v ++ sep :: b, by simp, ?_, ?_⟩
      · rw [← hleft]
        refine boundary_congr rfl ?_
        rw [← List.append_assoc, hend]
      · rw [← hright]
        exact boundary_congr rfl (hend v)
    · refine ⟨a ++ sep :: u, v, by simp, ?_, ?_⟩
      · rw [← hleft]
        exact boundary_congr (hbegin u) rfl
      · rw [← hright, List.append_assoc, List.cons_append]
        exact boundary_congr (hbegin (u ++ pat)) rfl

theorem shows_nil (hne : pat ≠ []) : shows word pat [] = false := by
  rw [← Bool.not_eq_true, shows_iff]
  rintro ⟨u, v, htext, -⟩
  exact hne (List.append_eq_nil_iff.mp (List.append_eq_nil_iff.mp htext.symm).2).1

theorem shows_self (hpat : Bounded word pat) : shows word pat pat = true :=
  (shows_iff_of_bounded hpat).mpr ⟨[], [], by simp, rfl, rfl⟩

/-- Between the same number of separators there is no room for anything but the pattern. -/
theorem shows_iff_eq {sep : α} (hpat : Bounded word pat)
    (htext : ∀ c ∈ text, word c = true ∨ c = sep) (hcount : text.count sep = pat.count sep) :
    shows word pat text = true ↔ text = pat := by
  refine ⟨fun hshows => ?_, fun heq => by rw [heq]; exact shows_self hpat⟩
  obtain ⟨u, v, rfl, hleft, hright⟩ := (shows_iff_of_bounded hpat).mp hshows
  simp only [List.count_append] at hcount
  have hu : u = [] := by
    by_contra hne
    have hword := htext _ (List.mem_append_left _ (List.getLast_mem hne))
    rw [List.getLast?_eq_some_getLast hne, Option.any_some] at hleft
    rcases hword with hword | hword
    · exact absurd hword (by simp [hleft])
    · have hpos : 0 < u.count sep := List.count_pos_iff.mpr (hword ▸ List.getLast_mem hne)
      omega
  have hv : v = [] := by
    cases v with
    | nil => rfl
    | cons c v =>
      have hword := htext c (by simp)
      rw [List.head?_cons, Option.any_some] at hright
      rcases hword with hword | rfl
      · exact absurd hword (by simp [hright])
      · rw [List.count_cons_self] at hcount
        omega
  rw [hu, hv, List.nil_append, List.append_nil]

theorem shows_intercalate {sep : α} (hsep : word sep = false) (hnot : sep ∉ pat) (hne : pat ≠ [])
    (ls : List (List α)) :
    shows word pat ([sep].intercalate ls) = true ↔ ∃ l ∈ ls, shows word pat l = true := by
  induction ls with
  | nil => simp [List.intercalate, shows_nil hne]
  | cons l ls ih =>
    cases ls with
    | nil => simp [List.intercalate]
    | cons l' ls =>
      have hcons : [sep].intercalate (l :: l' :: ls) = l ++ sep :: [sep].intercalate (l' :: ls) := by
        simp [List.intercalate, List.intersperse]
      rw [hcons, shows_split hsep hnot hne, ih]
      simp

end WordSearch
end KollaPowerOps
