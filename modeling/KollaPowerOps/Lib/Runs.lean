import KollaPowerOps.Lib.Effect

/-!
# Lib.Runs

Complete runs of a program in an environment with a state.

* `Runs env w p tr r w'` : `p` ends with `r` along `tr`, and the environment goes from `w` to `w'`.
* `Answering`            : an environment that answers every call with a value.
* `runs_done`, `runs_call`, `runs_bind` : a run, taken apart along the program.
* `runs_of_simulate`     : a simulated run.
-/

namespace KollaPowerOps
namespace Effect

variable {Op : Type → Type} {ε α β W : Type} {env : Env Op ε W} {w w' : W}
  {tr : List (Event Op ε)}

def Runs (env : Env Op ε W) (w : W) (p : Prog Op ε α) (tr : List (Event Op ε)) (r : Except ε α)
    (w' : W) : Prop :=
  Finishes p tr r ∧ Drives env w tr w'

/-- Every call is answered with a value. -/
def Answering (env : Env Op ε W) : Prop :=
  ∀ w ev w', env w ev w' → ∃ a, ev.answer = .ok a

@[simp] theorem runs_done {r r' : Except ε α} :
    Runs env w (.done r) tr r' w' ↔ tr = [] ∧ r' = r ∧ w' = w := by
  constructor
  · rintro ⟨hrun, hd⟩
    obtain ⟨rfl, rfl⟩ := finishes_done.mp hrun
    exact ⟨rfl, rfl, hd.nil_inv⟩
  · rintro ⟨rfl, rfl, rfl⟩
    exact ⟨.nil, .nil⟩

@[simp] theorem runs_raise {e : ε} {r : Except ε α} :
    Runs env w (Prog.raise e) tr r w' ↔ tr = [] ∧ r = .error e ∧ w' = w := runs_done

theorem runs_call (henv : Answering env) {τ : Type} {op : Op τ} {k : τ → Prog Op ε α}
    {r : Except ε α} :
    Runs env w (.call op k) tr r w' ↔
      ∃ a w₁ tr', tr = ⟨op, .ok a⟩ :: tr' ∧ env w ⟨op, .ok a⟩ w₁ ∧ Runs env w₁ (k a) tr' r w' := by
  constructor
  · rintro ⟨hrun, hd⟩
    rcases finishes_call.mp hrun with ⟨a, tr', rfl, hk⟩ | ⟨e, rfl, rfl⟩
    · obtain ⟨w₁, hev, hrest⟩ := hd.cons_inv
      exact ⟨a, w₁, tr', rfl, hev, hk, hrest⟩
    · obtain ⟨w₁, hev, _⟩ := hd.cons_inv
      obtain ⟨a, ha⟩ := henv _ _ _ hev
      cases ha
  · rintro ⟨a, w₁, tr', rfl, hev, hk, hd⟩
    exact ⟨finishes_call.mpr (.inl ⟨a, tr', rfl, hk⟩), .cons hev hd⟩

/-- A call is answered, or it fails and the program with it. -/
theorem runs_call_cases {τ : Type} {op : Op τ} {k : τ → Prog Op ε α} {r : Except ε α}
    (h : Runs env w (.call op k) tr r w') :
    (∃ a w₁ tr', tr = ⟨op, .ok a⟩ :: tr' ∧ env w ⟨op, .ok a⟩ w₁ ∧ Runs env w₁ (k a) tr' r w') ∨
      ∃ e, tr = [⟨op, .error e⟩] ∧ r = .error e ∧ env w ⟨op, .error e⟩ w' := by
  obtain ⟨hrun, hd⟩ := h
  rcases finishes_call.mp hrun with ⟨a, tr', rfl, hk⟩ | ⟨e, rfl, rfl⟩
  · obtain ⟨w₁, hev, hrest⟩ := hd.cons_inv
    exact .inl ⟨a, w₁, tr', rfl, hev, hk, hrest⟩
  · obtain ⟨w₁, hev, hnil⟩ := hd.cons_inv
    obtain rfl := hnil.nil_inv
    exact .inr ⟨e, rfl, rfl, hev⟩

theorem drives_append {w w₁ w₂ : W} {tr₁ tr₂ : List (Event Op ε)} (h₁ : Drives env w tr₁ w₁)
    (h₂ : Drives env w₁ tr₂ w₂) : Drives env w (tr₁ ++ tr₂) w₂ := by
  induction h₁ with
  | nil => exact h₂
  | cons hev _ ih => exact .cons hev (ih h₂)

/-- A run of a sequence is one of its first program and one of its second, or an exception of its
first. -/
theorem runs_bind {p : Prog Op ε α} {f : α → Prog Op ε β} {r : Except ε β} :
    Runs env w (p.bind f) tr r w' ↔
      (∃ a tr₁ tr₂ w₁, tr = tr₁ ++ tr₂ ∧ Runs env w p tr₁ (.ok a) w₁ ∧
        Runs env w₁ (f a) tr₂ r w') ∨
      ∃ e, Runs env w p tr (.error e) w' ∧ r = .error e := by
  constructor
  · rintro ⟨hrun, hd⟩
    rcases finishes_bind.mp hrun with ⟨a, tr₁, tr₂, rfl, h₁, h₂⟩ | ⟨e, h, rfl⟩
    · obtain ⟨w₁, hd₁, hd₂⟩ := hd.append_inv
      exact .inl ⟨a, tr₁, tr₂, w₁, rfl, ⟨h₁, hd₁⟩, h₂, hd₂⟩
    · exact .inr ⟨e, ⟨h, hd⟩, rfl⟩
  · rintro (⟨a, tr₁, tr₂, w₁, rfl, ⟨h₁, hd₁⟩, h₂, hd₂⟩ | ⟨e, ⟨h, hd⟩, rfl⟩)
    · exact ⟨finishes_bind.mpr (.inl ⟨a, tr₁, tr₂, rfl, h₁, h₂⟩), drives_append hd₁ hd₂⟩
    · exact ⟨finishes_bind.mpr (.inr ⟨e, h, rfl⟩), hd⟩

/-- Of a run that returns every call was answered. -/
theorem runs_call_ok {τ : Type} {op : Op τ} {k : τ → Prog Op ε α} {b : α} :
    Runs env w (.call op k) tr (.ok b) w' ↔
      ∃ a w₁ tr', tr = ⟨op, .ok a⟩ :: tr' ∧ env w ⟨op, .ok a⟩ w₁ ∧ Runs env w₁ (k a) tr' (.ok b) w' := by
  constructor
  · intro h
    rcases runs_call_cases h with hanswered | ⟨e, -, hr, -⟩
    · exact hanswered
    · cases hr
  · rintro ⟨a, w₁, tr', rfl, hev, hk, hd⟩
    exact ⟨finishes_call.mpr (.inl ⟨a, tr', rfl, hk⟩), .cons hev hd⟩

theorem runs_bind_ok {p : Prog Op ε α} {f : α → Prog Op ε β} {b : β} :
    Runs env w (p.bind f) tr (.ok b) w' ↔
      ∃ a tr₁ tr₂ w₁, tr = tr₁ ++ tr₂ ∧ Runs env w p tr₁ (.ok a) w₁ ∧
        Runs env w₁ (f a) tr₂ (.ok b) w' := by
  rw [runs_bind]
  refine ⟨fun h => ?_, .inl⟩
  rcases h with h | ⟨e, -, he⟩
  · exact h
  · cases he

/-- The calls of a run are ones that the program can make. -/
theorem Runs.uses {P : ∀ {τ : Type}, Op τ → Prop} {p : Prog Op ε α} (hp : p.Uses P)
    {r : Except ε α} (h : Runs env w p tr r w') : ∀ ev ∈ tr, P ev.op :=
  (Steps.within h.1 hp).2

/-- A simulation that ends with a value is a run, where the simulator's values are answers of the
environment in the states that it reaches. -/
theorem runs_of_simulate {sim : Simulator Op ε W} {I : W → Prop}
    (hsim : ∀ w {τ : Type} (op : Op τ) a w', I w → sim w op = (.ok a, w') →
      env w ⟨op, .ok a⟩ w' ∧ I w')
    {p : Prog Op ε α} {w : W} {a : α} (hw : I w) (h : (p.simulate sim w).2.1 = .ok a) :
    Runs env w p (p.simulate sim w).1 (.ok a) (p.simulate sim w).2.2 ∧ I (p.simulate sim w).2.2 := by
  induction p generalizing w with
  | done r => exact ⟨runs_done.mpr ⟨rfl, h.symm, rfl⟩, hw⟩
  | call op k ih =>
    simp only [Prog.simulate] at h ⊢
    rcases hs : sim w op with ⟨e | b, w₁⟩
    · rw [hs] at h
      cases h
    · rw [hs] at h
      obtain ⟨hev, hw₁⟩ := hsim w op b w₁ hw hs
      obtain ⟨⟨hrun, hd⟩, hend⟩ := ih b hw₁ h
      exact ⟨⟨.ret hrun, .cons hev hd⟩, hend⟩

theorem ok_of_isOk {r : Except ε α} (h : r.isOk = true) : ∃ a, r = .ok a := by
  cases r with
  | ok a => exact ⟨a, rfl⟩
  | error e => cases h

end Effect
end KollaPowerOps
