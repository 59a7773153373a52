import KollaPowerOps.Lib.PyText
import KollaPowerOps.Lib.WordSearch

/-!
# Lib.Lines

A text by its lines: `splitlines`, and the first occurrence of a marker that stands on one line.

* `lines_induction`  : a text is a last line, or a line, its separator and a text.
* `mention`, `cutAt` : the lines from a marker on, and those up to a character.
-/

namespace KollaPowerOps
namespace PyText

/-- A text without line boundaries. -/
def OneLine (s : List Char) : Prop := ∀ c ∈ s, isLineBreak c = false

/-- What separates a line from the text that follows. -/
inductive Separator : List Char → List Char → Prop where
  | crlf (t : List Char) : Separator ['\r', '\n'] t
  | single {c : Char} {t : List Char} (hc : isLineBreak c = true)
      (ht : c = '\r' → ∀ t', t ≠ '\n' :: t') : Separator [c] t

theorem splitLinesFrom_plain {c : Char} (hc : isLineBreak c = false) (s line : List Char) :
    splitLinesFrom (c :: s) line = splitLinesFrom s (c :: line) := by
  rw [splitLinesFrom, if_neg (by simp [hc])]
  rintro s' rfl
  cases hc

theorem splitLinesFrom_append {a : List Char} (ha : OneLine a) (s line : List Char) :
    splitLinesFrom (a ++ s) line = splitLinesFrom s (a.reverse ++ line) := by
  induction a generalizing line with
  | nil => rfl
  | cons c a ih =>
    rw [List.cons_append, splitLinesFrom_plain (ha c List.mem_cons_self),
      ih fun d hd => ha d (List.mem_cons_of_mem _ hd), List.reverse_cons, List.append_assoc]
    rfl

theorem splitLines_oneLine {a : List Char} (ha : OneLine a) :
    splitLines a = if a = [] then [] else [a] := by
  have h := splitLinesFrom_append ha [] []
  rw [List.append_nil, List.append_nil] at h
  rw [splitLines, h]
  split
  · rename_i hnil
    rw [hnil]
    rfl
  · rename_i hne
    obtain ⟨c, s, hs⟩ := List.exists_cons_of_ne_nil (List.reverse_ne_nil_iff.mpr hne)
    rw [hs, splitLinesFrom, ← hs, List.reverse_reverse]
    rintro ⟨⟩

theorem splitLines_append {a sep t : List Char} (ha : OneLine a) (hsep : Separator sep t) :
    splitLines (a ++ (sep ++ t)) = a :: splitLines t := by
  rw [splitLines, splitLinesFrom_append ha, List.append_nil]
  cases hsep with
  | crlf t =>
    change splitLinesFrom ('\r' :: '\n' :: t) a.reverse = _
    rw [splitLinesFrom, List.reverse_reverse]
    rfl
  | single hc ht =>
    rw [List.singleton_append, splitLinesFrom, if_pos hc, List.reverse_reverse]
    · rfl
    · rintro t' rfl rfl
      exact ht rfl t' rfl

/-- A text is read line by line. -/
theorem lines_induction {motive : List Char → Prop} (last : ∀ a, OneLine a → motive a)
    (line : ∀ a sep t, OneLine a → Separator sep t → motive t → motive (a ++ (sep ++ t)))
    (s : List Char) : motive s := by
  -- On the length: what follows the first separator is shorter.
  induction hn : s.length using Nat.strong_induction_on generalizing s with
  | _ n ih =>
    subst hn
    by_cases hs : OneLine s
    · exact last s hs
    · have hsplit := List.takeWhile_append_dropWhile (p := fun c => !isLineBreak c) (l := s)
      have ha : OneLine (s.takeWhile fun c => !isLineBreak c) := fun c hc => by
        simpa using List.mem_takeWhile_imp hc
      cases hd : s.dropWhile fun c => !isLineBreak c with
      | nil =>
        rw [hd, List.append_nil] at hsplit
        exact absurd (hsplit ▸ ha) hs
      | cons c t =>
        have hc : isLineBreak c = true := by
          have hne : (s.dropWhile fun c => !isLineBreak c) ≠ [] := by simp [hd]
          simpa [hd] using List.head_dropWhile_not (fun c => !isLineBreak c) hne
        have hlength :
            s.length = (s.takeWhile fun c => !isLineBreak c).length + (t.length + 1) := by
          rw [← List.length_cons, ← hd, ← List.length_append, hsplit]
        rw [← hsplit, hd]
        by_cases hcrlf : c = '\r' ∧ ∃ t', t = '\n' :: t'
        · obtain ⟨rfl, t', rfl⟩ := hcrlf
          rw [List.length_cons] at hlength
          exact line _ ['\r', '\n'] t' ha (.crlf t') (ih _ (by omega) t' rfl)
        · refine line _ [c] t ha (.single hc fun heq t' ht => ?_) (ih _ (by omega) t rfl)
          exact hcrlf ⟨heq, t', ht⟩

/-! ## A marker -/

/-- The line that has the marker first, from behind the marker on, and the lines after it. -/
def mention (marker : List Char) : List (List Char) → Option (List (List Char))
  | [] => none
  | line :: lines =>
    match after? marker line with
    | none => mention marker lines
    | some tail => some (tail :: lines)

/-- The lines up to a character, the last one cut there. -/
def cutAt (c : Char) : List (List Char) → List (List Char)
  | [] => []
  | line :: lines => if c ∈ line then [before c line] else line :: cutAt c lines

theorem after?_nil {marker : List Char} (hne : marker ≠ []) : after? marker [] = none := by
  rw [after?, if_neg (by simpa using hne)]

theorem after?_some {marker s rest : List Char} (h : after? marker s = some rest) :
    ∃ a, s = a ++ (marker ++ rest) := by
  induction s with
  | nil =>
    rw [after?] at h
    split at h
    · rename_i hempty
      rw [List.isEmpty_iff.mp hempty]
      cases h
      exact ⟨[], rfl⟩
    · cases h
  | cons c s ih =>
    rw [after?] at h
    split at h
    · rename_i hprefix
      obtain ⟨t, ht⟩ := List.isPrefixOf_iff_prefix.mp hprefix
      rw [← ht, List.drop_left] at h
      exact ⟨[], by rw [← Option.some.inj h, ht]; rfl⟩
    · obtain ⟨a, ha⟩ := ih h
      exact ⟨c :: a, by rw [ha]; rfl⟩

/-- A marker that begins with a character stands behind what does not have it. -/
theorem after?_append_marker {c : Char} {a : List Char} (ha : c ∉ a) (marker rest : List Char) :
    after? (c :: marker) (a ++ (c :: marker ++ rest)) = some rest := by
  induction a with
  | nil =>
    rw [List.nil_append, List.cons_append, after?, if_pos]
    · rw [← List.cons_append, List.drop_left]
    · rw [← List.cons_append, List.isPrefixOf_iff_prefix]
      exact List.prefix_append _ _
  | cons d a ih =>
    rw [List.mem_cons, not_or] at ha
    rw [List.cons_append, after?, List.isPrefixOf_cons_cons, beq_eq_false_iff_ne.mpr ha.1,
      Bool.false_and]
    exact ih ha.2

/-- A text is its strip between white space. -/
theorem exists_strip (s : List Char) : ∃ a b, s = a ++ (strip s ++ b) ∧
    (∀ c ∈ a, isSpace c = true) ∧ ∀ c ∈ b, isSpace c = true := by
  refine ⟨s.takeWhile isSpace, (lstrip s).rtakeWhile isSpace, ?_, ?_, ?_⟩
  · rw [strip, List.rdropWhile_append_rtakeWhile, lstrip, List.takeWhile_append_dropWhile]
  · exact fun c hc => List.mem_takeWhile_imp hc
  · exact fun c hc => List.mem_rtakeWhile_imp hc

/-- A marker does not reach over a character that it does not have. -/
theorem after?_append_cons {marker : List Char} (hne : marker ≠ []) {c : Char} (hc : c ∉ marker)
    (a t : List Char) : after? marker (a ++ c :: t) =
      ((after? marker a).map (· ++ c :: t)).or (after? marker t) := by
  have hprefix : ∀ b, marker.isPrefixOf (b ++ c :: t) = marker.isPrefixOf b := by
    intro b
    rw [Bool.eq_iff_iff, List.isPrefixOf_iff_prefix, List.isPrefixOf_iff_prefix]
    exact ⟨WordSearch.prefix_of_append_cons hc, fun h => h.trans (List.prefix_append _ _)⟩
  induction a with
  | nil =>
    have hnil := hprefix []
    rw [List.nil_append] at hnil
    rw [after?_nil hne, List.nil_append, after?, hnil, if_neg (by simpa using hne)]
    rfl
  | cons d a ih =>
    have hcons := hprefix (d :: a)
    rw [List.cons_append] at hcons
    rw [List.cons_append, after?, after?, hcons]
    split
    · rename_i h
      have hle := (List.isPrefixOf_iff_prefix.mp h).length_le
      rw [← List.cons_append, List.drop_append_of_le_length hle]
      rfl
    · exact ih

theorem after?_line {marker : List Char} (hne : marker ≠ []) (hmarker : OneLine marker)
    {sep t : List Char} (hsep : Separator sep t) (a : List Char) :
    after? marker (a ++ (sep ++ t)) =
      ((after? marker a).map (· ++ (sep ++ t))).or (after? marker t) := by
  have hout : ∀ c, isLineBreak c = true → c ∉ marker := fun c hc hmem => by
    rw [hmarker c hmem] at hc
    cases hc
  cases hsep with
  | crlf t =>
    have hn := after?_append_cons hne (hout '\n' rfl) [] t
    rw [after?_nil hne] at hn
    change after? marker (a ++ '\r' :: '\n' :: t) = _
    rw [after?_append_cons hne (hout '\r' rfl)]
    exact congrArg _ hn
  | single hc ht => exact after?_append_cons hne (hout _ hc) a t

theorem OneLine.suffix {a s : List Char} (hs : OneLine s) (ha : a <:+ s) : OneLine a :=
  fun c hc => hs c (ha.subset hc)

/-- The text after the marker is the lines from the marker on. -/
theorem mention_splitLines {marker : List Char} (hne : marker ≠ []) (hmarker : OneLine marker)
    (s : List Char) : mention marker (splitLines s) = (after? marker s).map fun rest =>
      if rest = [] then [[]] else splitLines rest := by
  have htail : ∀ {a rest}, OneLine a → after? marker a = some rest → OneLine rest := by
    intro a rest ha hafter
    obtain ⟨b, hb⟩ := after?_some hafter
    refine ha.suffix ⟨b ++ marker, ?_⟩
    rw [hb, List.append_assoc]
  induction s using lines_induction with
  | last a ha =>
    rw [splitLines_oneLine ha]
    split
    · rename_i hnil
      rw [hnil, after?_nil hne]
      rfl
    · rw [mention]
      cases hafter : after? marker a with
      | none => rfl
      | some rest =>
        dsimp only [Option.map_some]
        rw [splitLines_oneLine (htail ha hafter)]
        split
        · rename_i hnil
          rw [hnil]
        · rfl
  | line a sep t ha hsep ih =>
    rw [splitLines_append ha hsep, mention, after?_line hne hmarker hsep]
    cases hafter : after? marker a with
    | none => exact ih
    | some rest =>
      have hrest : rest ++ (sep ++ t) ≠ [] := by
        cases hsep <;> simp
      dsimp only
      rw [Option.map_some, Option.some_or, Option.map_some, if_neg hrest,
        splitLines_append (htail ha hafter) hsep]

/-- The first line of its kind. -/
theorem exists_first {p : List Char → Prop} [DecidablePred p] {lines : List (List Char)}
    (h : ∃ line ∈ lines, p line) :
    ∃ first line rest, lines = first ++ line :: rest ∧ (∀ line ∈ first, ¬p line) ∧ p line := by
  obtain ⟨line, hline, hp⟩ := h
  cases hfind : lines.find? fun line => decide (p line) with
  | none => exact absurd (List.find?_eq_none.mp hfind line hline) (by simpa using hp)
  | some line =>
    obtain ⟨hp, first, rest, hlines, hfirst⟩ := List.find?_eq_some_iff_append.mp hfind
    exact ⟨first, line, rest, hlines, fun l hl => by simpa using hfirst l hl, of_decide_eq_true hp⟩

/-! ## Up to a character -/

theorem before_append {c : Char} {a : List Char} (ha : c ∉ a) (t : List Char) :
    before c (a ++ t) = a ++ before c t := by
  rw [before, before, List.takeWhile_append_of_pos]
  intro d hd
  rw [bne_iff_ne]
  rintro rfl
  exact ha hd

theorem before_append_of_mem {c : Char} {a : List Char} (ha : c ∈ a) (t : List Char) :
    before c (a ++ t) = before c a := by
  obtain ⟨a, b, rfl, hout⟩ := List.eq_append_cons_of_mem ha
  rw [List.append_assoc, before_append hout, before_append hout]
  simp [before]

theorem before_cons_of_ne {c d : Char} (hd : d ≠ c) (s : List Char) :
    before c (d :: s) = d :: before c s := by
  have hout : c ∉ [d] := by simpa using Ne.symm hd
  exact before_append hout s

theorem before_cons_self (c : Char) (s : List Char) : before c (c :: s) = [] :=
  List.takeWhile_cons_of_neg (by simp)

theorem before_eq {c : Char} {s : List Char} (hs : c ∉ s) : before c s = s := by
  have h := before_append hs []
  rwa [List.append_nil, show before c [] = [] from rfl, List.append_nil] at h

theorem Separator.before {c : Char} (hc : isLineBreak c = false) {sep t : List Char}
    (h : Separator sep t) : c ∉ sep ∧ Separator sep (before c t) := by
  cases h with
  | crlf t =>
    refine ⟨?_, .crlf _⟩
    rintro hmem
    rcases List.mem_pair.mp hmem with rfl | rfl
    · cases hc
    · cases hc
  | single hbreak ht =>
    refine ⟨?_, .single hbreak fun hr t' ht' => ?_⟩
    · rintro hmem
      rw [List.mem_singleton.mp hmem, hbreak] at hc
      cases hc
    · obtain ⟨t'', h⟩ : PyText.before c t <+: t := List.takeWhile_prefix _
      rw [ht', List.cons_append] at h
      exact ht hr _ h.symm

theorem cutAt_append {c : Char} {a : List (List Char)} (ha : ∀ line ∈ a, c ∉ line)
    (b : List (List Char)) : cutAt c (a ++ b) = a ++ cutAt c b := by
  induction a with
  | nil => rfl
  | cons line a ih =>
    rw [List.forall_mem_cons] at ha
    rw [List.cons_append, cutAt, if_neg ha.1, ih ha.2, List.cons_append]

/-- Cutting the text cuts its lines; only a blank line may be there or not. -/
theorem filter_cutAt {c : Char} (hc : isLineBreak c = false) {p : List Char → Bool}
    (hp : p [] = false) (s : List Char) :
    (splitLines (before c s)).filter p = (cutAt c (splitLines s)).filter p := by
  have hone : ∀ a, OneLine a → (splitLines a).filter p = [a].filter p := by
    intro a ha
    rw [splitLines_oneLine ha]
    split
    · rename_i hnil
      rw [hnil]
      simp [hp]
    · rfl
  have hbefore : ∀ a, OneLine a → OneLine (before c a) := fun a ha d hd =>
    ha d (List.takeWhile_subset _ hd)
  induction s using lines_induction with
  | last a ha =>
    rw [hone _ (hbefore a ha), splitLines_oneLine ha]
    split
    · rename_i hnil
      rw [hnil]
      simp [before, cutAt, hp]
    · rw [cutAt]
      split
      · rfl
      · rename_i hout
        rw [before_eq hout]
        rfl
  | line a sep t ha hsep ih =>
    rw [splitLines_append ha hsep, cutAt]
    split
    · rename_i hmem
      rw [before_append_of_mem hmem, hone _ (hbefore a ha)]
    · rename_i hout
      obtain ⟨hsepc, hsep'⟩ := hsep.before hc
      rw [before_append hout, before_append hsepc, splitLines_append ha hsep', List.filter_cons,
        List.filter_cons, ih]

end PyText
end KollaPowerOps
