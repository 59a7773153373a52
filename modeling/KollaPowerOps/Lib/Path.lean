import Mathlib.Data.List.Basic

/-!
# Lib.Path

Labelled runs of a transition relation, step after step.

* `Path step s tr t` : the steps of `tr` lead from `s` to `t`.
* `Occurs`           : somewhere on the way there is a step of a kind.
* `Path.keeps`       : what every step keeps, a run keeps.
* `Path.until`       : what every step keeps or ends by a step of a kind, a run keeps, unless such a
  step occurs in it.
-/

namespace KollaPowerOps

variable {S L : Type*} {step : S → L → S → Prop} {s t u : S} {tr tr₁ tr₂ : List L}

inductive Path (step : S → L → S → Prop) : S → List L → S → Prop where
  | nil {s : S} : Path step s [] s
  | snoc {s t u : S} {tr : List L} {l : L} :
      Path step s tr t → step t l u → Path step s (tr ++ [l]) u

namespace Path

theorem trans (h₁ : Path step s tr₁ t) (h₂ : Path step t tr₂ u) : Path step s (tr₁ ++ tr₂) u := by
  induction h₂ with
  | nil =>
    rw [List.append_nil]
    exact h₁
  | snoc _ hs ih =>
    rw [← List.append_assoc]
    exact ih.snoc hs

theorem single {l : L} (h : step s l t) : Path step s [l] t := by
  have hpath : Path step s ([] ++ [l]) t := Path.nil.snoc h
  exact hpath

/-- A property that every step keeps. -/
theorem keeps {I : S → Prop} (h : Path step s tr t)
    (hI : ∀ u l u', step u l u' → I u → I u') (hs : I s) : I t := by
  induction h with
  | nil => exact hs
  | snoc _ hstep ih => exact hI _ _ _ hstep ih

end Path

/-- A run from `s` to `t` with a step of the kind `P` in it. -/
def Occurs (step : S → L → S → Prop) (P : S → L → S → Prop) (s : S) (tr : List L) (t : S) : Prop :=
  ∃ tr₁ u l u' tr₂, tr = tr₁ ++ l :: tr₂ ∧ Path step s tr₁ u ∧ step u l u' ∧ P u l u' ∧
    Path step u' tr₂ t

section Occurs

variable {P Q : S → L → S → Prop}

theorem Occurs.last {l : L} (h : Path step s tr t) (hs : step t l u) (hP : P t l u) :
    Occurs step P s (tr ++ [l]) u :=
  ⟨tr, t, l, u, [], rfl, h, hs, hP, .nil⟩

theorem Occurs.snoc {l : L} (h : Occurs step P s tr t) (hs : step t l u) :
    Occurs step P s (tr ++ [l]) u := by
  obtain ⟨tr₁, v, m, v', tr₂, rfl, h₁, hm, hP, h₂⟩ := h
  refine ⟨tr₁, v, m, v', tr₂ ++ [l], ?_, h₁, hm, hP, h₂.snoc hs⟩
  rw [List.append_assoc, List.cons_append]

theorem Occurs.mono (h : Occurs step P s tr t)
    (hPQ : ∀ {tr₁ u l u'}, Path step s tr₁ u → step u l u' → P u l u' → Q u l u') :
    Occurs step Q s tr t := by
  obtain ⟨tr₁, v, m, v', tr₂, rfl, h₁, hm, hP, h₂⟩ := h
  exact ⟨tr₁, v, m, v', tr₂, rfl, h₁, hm, hPQ h₁ hm hP, h₂⟩

/-- The label of the step is in the trace. -/
theorem Occurs.mem (h : Occurs step P s tr t) : ∃ l ∈ tr, ∃ u u', P u l u' := by
  obtain ⟨tr₁, v, m, v', tr₂, rfl, _, _, hP, _⟩ := h
  exact ⟨m, List.mem_append_right _ List.mem_cons_self, v, v', hP⟩

/-- A property that every step keeps, but for the steps of the kind `P`. -/
theorem Path.until {I : S → Prop} (h : Path step s tr t)
    (hI : ∀ {tr₁ u l u'}, Path step s tr₁ u → step u l u' → I u → I u' ∨ P u l u') (hs : I s) :
    I t ∨ Occurs step P s tr t := by
  induction h with
  | nil => exact .inl hs
  | snoc h hstep ih =>
    rcases ih with ht | hocc
    · rcases hI h hstep ht with hu | hP
      · exact .inl hu
      · exact .inr (.last h hstep hP)
    · exact .inr (hocc.snoc hstep)

end Occurs

end KollaPowerOps
