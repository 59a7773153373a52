import Mathlib.Data.List.Nodup

/-!
# Lib.Table

Rows with a key, where a row is replaced by one of the same key.

* `put`        : the rows with one replaced.
* `put_self`, `put_put` : a row that is there already; a row replaced twice.
* `filter_put` : what a selection of rows sees of a replacement.
* `Placed`     : declared rows are there, once each, and the rows of other names are as before.
* `Placed.cons` : declared rows are placed one after another.
-/

namespace KollaPowerOps
namespace Table

variable {α κ : Type} [DecidableEq κ] {k : α → κ} {rows : List α} {row : α}

/-- The rows, with `row` for the one of its key. -/
def put (k : α → κ) (row : α) (rows : List α) : List α :=
  rows.map fun r => if k r = k row then row else r

@[simp] theorem put_nil : put k row [] = [] := rfl

@[simp] theorem put_cons (r : α) :
    put k row (r :: rows) = (if k r = k row then row else r) :: put k row rows := rfl

theorem keys_put : (put k row rows).map k = rows.map k := by
  rw [put, List.map_map]
  apply List.map_congr_left
  intro r _
  rw [Function.comp_apply]
  split
  · exact (by assumption : k r = k row).symm
  · rfl

omit [DecidableEq κ] in
/-- No two rows have one key. -/
theorem row_unique (h : (rows.map k).Nodup) {r r' : α} (hr : r ∈ rows) (hr' : r' ∈ rows)
    (hkey : k r = k r') : r = r' :=
  List.inj_on_of_nodup_map h hr hr' hkey

theorem put_self (h : (rows.map k).Nodup) (hmem : row ∈ rows) : put k row rows = rows := by
  have hid : ∀ r ∈ rows, (if k r = k row then row else r) = r := by
    intro r hr
    split
    · exact row_unique h hmem hr (by assumption : k r = k row).symm
    · rfl
  rw [put, List.map_congr_left hid, List.map_id']

theorem put_put {row' : α} (h : k row' = k row) :
    put k row' (put k row rows) = put k row' rows := by
  induction rows with
  | nil => rfl
  | cons r rows ih =>
    rw [put_cons, put_cons, put_cons, ih, h]
    by_cases hr : k r = k row
    · rw [if_pos hr, if_pos rfl, if_pos hr]
    · rw [if_neg hr, if_neg hr]

theorem mem_put {r : α} (hr : r ∈ rows) (hkey : k r = k row) : row ∈ put k row rows :=
  List.mem_map.mpr ⟨r, hr, if_pos hkey⟩

/-- A selection that treats a row like the one it replaces. -/
theorem filter_put {p : α → Bool} (h : ∀ r ∈ rows, k r = k row → p r = p row) :
    (put k row rows).filter p = put k row (rows.filter p) := by
  induction rows with
  | nil => rfl
  | cons r rows ih =>
    obtain ⟨hr, hrest⟩ := List.forall_mem_cons.mp h
    rw [put_cons, List.filter_cons, List.filter_cons, ih hrest]
    by_cases hkey : k r = k row
    · rw [if_pos hkey, ← hr hkey]
      split
      · rw [put_cons, if_pos hkey]
      · rfl
    · rw [if_neg hkey]
      split
      · rw [put_cons, if_neg hkey]
      · rfl

/-- A selection that neither the row nor the one it replaces belongs to. -/
theorem filter_put_of_not {p : α → Bool} (h : ∀ r ∈ rows, k r = k row → p r = false)
    (hrow : p row = false) : (put k row rows).filter p = rows.filter p := by
  rw [filter_put fun r hr hkey => (h r hr hkey).trans hrow.symm, put]
  refine (List.map_congr_left fun r hr => ?_).trans (List.map_id' _)
  obtain ⟨hmem, hp⟩ := List.mem_filter.mp hr
  refine if_neg fun hkey => ?_
  rw [h r hmem hkey] at hp
  cases hp

/-- The row of a selection of one. -/
theorem sole_of_filter {p : α → Prop} [DecidablePred p] {old : α}
    (h : rows.filter (fun r => p r) = [old]) :
    old ∈ rows ∧ p old ∧ ∀ r ∈ rows, p r → r = old := by
  have hiff : ∀ r, r ∈ rows ∧ p r ↔ r = old := by
    intro r
    rw [← List.mem_singleton, ← h, List.mem_filter, decide_eq_true_iff]
  obtain ⟨hmem, hp⟩ := (hiff old).mpr rfl
  exact ⟨hmem, hp, fun r hr hpr => (hiff r).mp ⟨hr, hpr⟩⟩

/-- A selection of one row, of which the replacement belongs to it too. -/
theorem filter_put_single {p : α → Bool} {old : α} (hnodup : (rows.map k).Nodup)
    (hold : rows.filter p = [old]) (hkey : k old = k row) (hrow : p row = true) :
    (put k row rows).filter p = [row] := by
  have hmem : old ∈ rows.filter p := by
    rw [hold]
    exact List.mem_singleton.mpr rfl
  obtain ⟨hmem, hp⟩ := List.mem_filter.mp hmem
  have hsame : ∀ r ∈ rows, k r = k row → p r = p row := by
    intro r hr hr'
    rw [row_unique hnodup hr hmem (hr'.trans hkey.symm), hp, hrow]
  rw [filter_put hsame, hold, put_cons, if_pos hkey, put_nil]

/-! ## Declared rows -/

section Declared

variable {ν δ : Type} [DecidableEq ν] {name : α → ν} {declared : δ → ν} {holds : α → δ → Prop}
  {rows' : List α} {d : δ} {desired : List δ}

/-- One row has the declared name, and it holds what is declared. -/
def Held (name : α → ν) (declared : δ → ν) (holds : α → δ → Prop) (rows : List α) (d : δ) : Prop :=
  ∃ row, rows.filter (fun r => name r = declared d) = [row] ∧ holds row d

/-- The declared rows are there, and every selection of other names is as it was. -/
structure Placed (name : α → ν) (declared : δ → ν) (holds : α → δ → Prop) (rows rows' : List α)
    (desired : List δ) : Prop where
  held : ∀ d ∈ desired, Held name declared holds rows' d
  frame : ∀ p : ν → Bool, (∀ d ∈ desired, p (declared d) = false) →
    rows'.filter (fun r => p (name r)) = rows.filter fun r => p (name r)

omit [DecidableEq κ]

theorem Placed.nil : Placed name declared holds rows rows [] :=
  ⟨List.forall_mem_nil _, fun _ _ => rfl⟩

/-- The rows of another name are as they were. -/
theorem Placed.lookup (h : Placed name declared holds rows rows' desired) {n : ν}
    (hother : n ∉ desired.map declared) :
    rows'.filter (fun r => name r = n) = rows.filter fun r => name r = n := by
  refine h.frame (fun a => decide (a = n)) fun d hd => decide_eq_false ?_
  rintro rfl
  exact hother (List.mem_map_of_mem hd)

theorem Placed.cons {rows₁ : List α} (hnew : declared d ∉ desired.map declared)
    (h₁ : Placed name declared holds rows rows₁ [d])
    (h₂ : Placed name declared holds rows₁ rows' desired) :
    Placed name declared holds rows rows' (d :: desired) where
  held := by
    refine List.forall_mem_cons.mpr ⟨?_, h₂.held⟩
    obtain ⟨row, hrow, hholds⟩ := h₁.held d (List.mem_singleton.mpr rfl)
    exact ⟨row, (h₂.lookup hnew).trans hrow, hholds⟩
  frame p hp := by
    obtain ⟨hd, hrest⟩ := List.forall_mem_cons.mp hp
    rw [h₂.frame p hrest, h₁.frame p (by simpa using hd)]

theorem placed_self (h : Held name declared holds rows d) :
    Placed name declared holds rows rows [d] :=
  ⟨fun _ hd => List.mem_singleton.mp hd ▸ h, fun _ _ => rfl⟩

/-- A declared row that was not there is appended. -/
theorem placed_append (hnone : rows.filter (fun r => name r = declared d) = [])
    (hname : name row = declared d) (hholds : holds row d) :
    Placed name declared holds rows (rows ++ [row]) [d] where
  held := by
    intro d' hd'
    obtain rfl := List.mem_singleton.mp hd'
    refine ⟨row, ?_, hholds⟩
    rw [List.filter_append, hnone, List.filter_singleton, hname]
    simp
  frame p hp := by
    rw [List.filter_append, List.filter_singleton, hname, hp d (List.mem_singleton.mpr rfl)]
    simp

/-- A declared row replaces the one of its name. -/
theorem placed_put [DecidableEq κ] {old : α} (hnodup : (rows.map k).Nodup)
    (hold : rows.filter (fun r => name r = declared d) = [old]) (hkey : k old = k row)
    (hname : name row = declared d) (hholds : holds row d) :
    Placed name declared holds rows (put k row rows) [d] where
  held := by
    intro d' hd'
    obtain rfl := List.mem_singleton.mp hd'
    exact ⟨row, filter_put_single hnodup hold hkey (decide_eq_true hname), hholds⟩
  frame p hp := by
    have hnot : p (declared d) = false := hp d (List.mem_singleton.mpr rfl)
    obtain ⟨hmem, hsame, -⟩ := sole_of_filter hold
    refine filter_put_of_not (fun r hr hr' => ?_) (by rw [hname, hnot])
    rw [row_unique hnodup hr hmem (hr'.trans hkey.symm), hsame, hnot]

theorem length_filter_name {n : ν} :
    (rows.filter fun r => name r = n).length = (rows.map name).count n := by
  rw [List.count_eq_countP, List.countP_map, List.countP_eq_length_filter]
  rfl

/-- Names stay without repetition. -/
theorem Placed.nodup (h : Placed name declared holds rows rows' desired)
    (hrows : (rows.map name).Nodup) : (rows'.map name).Nodup := by
  rw [List.nodup_iff_count_le_one] at hrows ⊢
  intro n
  rw [← length_filter_name]
  by_cases hn : n ∈ desired.map declared
  · obtain ⟨d, hd, rfl⟩ := List.mem_map.mp hn
    obtain ⟨row, hrow, _⟩ := h.held d hd
    rw [hrow]
    exact Nat.le_refl 1
  · rw [h.lookup hn, length_filter_name]
    exact hrows n

end Declared

end Table
end KollaPowerOps
