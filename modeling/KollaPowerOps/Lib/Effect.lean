import Mathlib.Data.List.Basic

/-!
# Lib.Effect

Programs that call out to an environment which may answer any call with a value or with an
exception.

* `Prog`   : a program is finished, or it is waiting for the answer of one call.
* `Steps`  : `Steps p tr p'` says that `p` becomes `p'` after the calls and answers of `tr`.
* `Finishes`, `Returns` : complete runs.
* `Prog.Within`, `Prog.Uses` : which calls a program can make, and what it can return.
* `Env`, `Drives` : an environment with a state, and its state along a trace.
* `Prog.run` : the executable form, fed with one answer function per call.

An exception of the environment ends the program: nothing in this library catches. The rules
`returns_*` execute a program symbolically up to a normal return.
-/

namespace KollaPowerOps
namespace Effect

/-- One call together with what the environment answered. `Op τ` are the calls that return a
`τ`. -/
structure Event (Op : Type → Type) (ε : Type) where
  {τ : Type}
  op : Op τ
  answer : Except ε τ

inductive Prog (Op : Type → Type) (ε α : Type) where
  | done (r : Except ε α)
  | call {τ : Type} (op : Op τ) (k : τ → Prog Op ε α)

variable {Op : Type → Type} {ε α β : Type}

namespace Prog

def bind : Prog Op ε α → (α → Prog Op ε β) → Prog Op ε β
  | .done (.ok a), f => f a
  | .done (.error e), _ => .done (.error e)
  | .call op k, f => .call op fun a => (k a).bind f

instance : Monad (Prog Op ε) where
  pure a := .done (.ok a)
  bind := Prog.bind

/-- Raise an exception of the program's own. -/
def raise (e : ε) : Prog Op ε α := .done (.error e)

/-- Make one call and return its answer. -/
def request {τ : Type} (op : Op τ) : Prog Op ε τ := .call op fun a => .done (.ok a)

@[simp] theorem pure_def (a : α) : (pure a : Prog Op ε α) = .done (.ok a) := rfl
@[simp] theorem bind_def (p : Prog Op ε α) (f : α → Prog Op ε β) :
    p >>= f = p.bind f := rfl
@[simp] theorem bind_ok (a : α) (f : α → Prog Op ε β) :
    (Prog.done (.ok a) : Prog Op ε α).bind f = f a := rfl
@[simp] theorem bind_error (e : ε) (f : α → Prog Op ε β) :
    (Prog.done (.error e) : Prog Op ε α).bind f = .done (.error e) := rfl
@[simp] theorem bind_call {τ : Type} (op : Op τ) (k : τ → Prog Op ε α) (f : α → Prog Op ε β) :
    (Prog.call op k).bind f = .call op fun a => (k a).bind f := rfl
@[simp] theorem bind_raise (e : ε) (f : α → Prog Op ε β) :
    (raise e : Prog Op ε α).bind f = raise e := rfl
@[simp] theorem bind_request {τ : Type} (op : Op τ) (f : τ → Prog Op ε β) :
    (request op).bind f = .call op f := rfl

theorem bind_pure (p : Prog Op ε α) : (p.bind pure) = p := by
  induction p with
  | done r => cases r <;> rfl
  | call op k ih => exact congrArg (call op) (funext ih)

theorem bind_assoc {γ : Type} (p : Prog Op ε α) (f : α → Prog Op ε β) (g : β → Prog Op ε γ) :
    (p.bind f).bind g = p.bind fun a => (f a).bind g := by
  induction p with
  | done r => cases r <;> rfl
  | call op k ih => exact congrArg (call op) (funext ih)

end Prog

/-- `p` becomes `p'` by making the calls of the trace and taking the answers it records. -/
inductive Steps : Prog Op ε α → List (Event Op ε) → Prog Op ε α → Prop where
  | nil {p : Prog Op ε α} : Steps p [] p
  | ret {τ : Type} {op : Op τ} {k : τ → Prog Op ε α} {a : τ} {tr : List (Event Op ε)}
      {p' : Prog Op ε α} : Steps (k a) tr p' → Steps (.call op k) (⟨op, .ok a⟩ :: tr) p'
  | raise {τ : Type} {op : Op τ} {k : τ → Prog Op ε α} {e : ε} :
      Steps (.call op k) [⟨op, .error e⟩] (.done (.error e))

/-- The program returns `a` normally along the trace. -/
def Returns (p : Prog Op ε α) (tr : List (Event Op ε)) (a : α) : Prop :=
  Steps p tr (.done (.ok a))

namespace Steps

theorem done_inv {r : Except ε α} {tr : List (Event Op ε)} {p' : Prog Op ε α}
    (h : Steps (.done r) tr p') : tr = [] ∧ p' = .done r := by
  cases h; exact ⟨rfl, rfl⟩

/-- A call that was answered is the head of the trace. -/
theorem call_inv {τ : Type} {op : Op τ} {k : τ → Prog Op ε α} {ev : Event Op ε}
    {tr : List (Event Op ε)} {p' : Prog Op ε α}
    (h : Steps (.call op k) (ev :: tr) p') :
    (∃ a, ev = ⟨op, .ok a⟩ ∧ Steps (k a) tr p') ∨
      ∃ e, ev = ⟨op, .error e⟩ ∧ tr = [] ∧ p' = .done (.error e) := by
  cases h with
  | ret h => exact .inl ⟨_, rfl, h⟩
  | raise => exact .inr ⟨_, rfl, rfl, rfl⟩

theorem trans {p q s : Prog Op ε α} {tr₁ tr₂ : List (Event Op ε)}
    (h₁ : Steps p tr₁ q) (h₂ : Steps q tr₂ s) : Steps p (tr₁ ++ tr₂) s := by
  induction h₁ with
  | nil => exact h₂
  | ret _ ih => exact .ret (ih h₂)
  | raise =>
    obtain ⟨rfl, rfl⟩ := h₂.done_inv
    exact .raise

theorem bind {p q : Prog Op ε α} {tr : List (Event Op ε)} (h : Steps p tr q)
    (f : α → Prog Op ε β) : Steps (p.bind f) tr (q.bind f) := by
  induction h with
  | nil => exact .nil
  | ret _ ih => exact .ret ih
  | raise => exact .raise

/-- Where a sequence of two programs can be: inside the first, or past it. -/
theorem bind_inv {p : Prog Op ε α} {f : α → Prog Op ε β}
    {tr : List (Event Op ε)} {q : Prog Op ε β} (h : Steps (p.bind f) tr q) :
    (∃ p', q = p'.bind f ∧ Steps p tr p') ∨
      ∃ a tr₁ tr₂, tr = tr₁ ++ tr₂ ∧ Returns p tr₁ a ∧ Steps (f a) tr₂ q := by
  induction p generalizing tr with
  | done r =>
    cases r with
    | ok a => exact .inr ⟨a, [], tr, rfl, .nil, h⟩
    | error e =>
      obtain ⟨rfl, rfl⟩ := h.done_inv
      exact .inl ⟨.done (.error e), rfl, .nil⟩
  | call op k ih =>
    cases tr with
    | nil => cases h; exact .inl ⟨.call op k, rfl, .nil⟩
    | cons ev tr =>
      obtain ⟨a, rfl, hk⟩ | ⟨e, rfl, rfl, rfl⟩ := Steps.call_inv h
      · obtain ⟨p', rfl, hp⟩ | ⟨b, tr₁, tr₂, rfl, hp, hf⟩ := ih a hk
        · exact .inl ⟨p', rfl, .ret hp⟩
        · exact .inr ⟨b, ⟨op, .ok a⟩ :: tr₁, tr₂, rfl, .ret hp, hf⟩
      · exact .inl ⟨.done (.error e), rfl, .raise⟩

/-- A call of another kind than the first call of a program is a later one. -/
theorem mem_later {q : ∀ {τ : Type}, Op τ → Bool} {τ : Type} {op : Op τ} {k : τ → Prog Op ε α}
    {tr : List (Event Op ε)} {p' : Prog Op ε α} (h : Steps (.call op k) tr p') {ev : Event Op ε}
    (hev : ev ∈ tr) (hop : q op = false) (hq : q ev.op = true) :
    ∃ a tr', tr = ⟨op, .ok a⟩ :: tr' ∧ Steps (k a) tr' p' ∧ ev ∈ tr' := by
  have hne : ∀ x, ev ≠ ⟨op, x⟩ := by
    rintro x rfl
    rw [hop] at hq
    cases hq
  cases h with
  | nil => cases hev
  | ret h =>
    rcases List.mem_cons.mp hev with hsame | hev
    · exact absurd hsame (hne _)
    · exact ⟨_, _, rfl, h, hev⟩
  | raise => exact absurd (List.mem_singleton.mp hev) (hne _)

/-- A call in the trace of a sequence is one of the first program or one of the second. -/
theorem mem_bind {p : Prog Op ε α} {f : α → Prog Op ε β} {tr : List (Event Op ε)}
    {q : Prog Op ε β} (h : Steps (p.bind f) tr q) {ev : Event Op ε} (hev : ev ∈ tr) :
    (∃ tr₁ tr₂ p', tr = tr₁ ++ tr₂ ∧ Steps p tr₁ p' ∧ ev ∈ tr₁) ∨
      ∃ a tr₁ tr₂, tr = tr₁ ++ tr₂ ∧ Returns p tr₁ a ∧ Steps (f a) tr₂ q ∧ ev ∈ tr₂ := by
  rcases h.bind_inv with ⟨p', _, hp⟩ | ⟨a, tr₁, tr₂, rfl, hp, hf⟩
  · exact .inl ⟨tr, [], p', (List.append_nil tr).symm, hp, hev⟩
  · rcases List.mem_append.mp hev with hev | hev
    · exact .inl ⟨tr₁, tr₂, _, rfl, hp, hev⟩
    · exact .inr ⟨a, tr₁, tr₂, rfl, hp, hf, hev⟩

end Steps

/-! ## Symbolic execution of a normal return -/

@[simp] theorem returns_ok {a b : α} {tr : List (Event Op ε)} :
    Returns (.done (.ok a)) tr b ↔ tr = [] ∧ a = b := by
  constructor
  · intro h
    obtain ⟨rfl, h⟩ := Steps.done_inv h
    cases h; exact ⟨rfl, rfl⟩
  · rintro ⟨rfl, rfl⟩; exact .nil

@[simp] theorem returns_error {e : ε} {b : α} {tr : List (Event Op ε)} :
    ¬ Returns (.done (.error e)) tr b := by
  intro h
  have := (Steps.done_inv h).2
  cases this

@[simp] theorem returns_raise {e : ε} {b : α} {tr : List (Event Op ε)} :
    ¬ Returns (Prog.raise e) tr b := returns_error

@[simp] theorem returns_call {τ : Type} {op : Op τ} {k : τ → Prog Op ε α} {b : α}
    {tr : List (Event Op ε)} :
    Returns (.call op k) tr b ↔ ∃ a tr', tr = ⟨op, .ok a⟩ :: tr' ∧ Returns (k a) tr' b := by
  constructor
  · intro h
    cases h with
    | ret h => exact ⟨_, _, rfl, h⟩
  · rintro ⟨a, tr', rfl, h⟩; exact .ret h

@[simp] theorem returns_bind {p : Prog Op ε α} {f : α → Prog Op ε β} {b : β}
    {tr : List (Event Op ε)} :
    Returns (p.bind f) tr b ↔
      ∃ a tr₁ tr₂, tr = tr₁ ++ tr₂ ∧ Returns p tr₁ a ∧ Returns (f a) tr₂ b := by
  constructor
  · intro h
    obtain ⟨p', hq, hp⟩ | h := Steps.bind_inv h
    · cases p' with
      | done r =>
        cases r with
        | ok a => exact ⟨a, tr, [], by simp, hp, by rw [Returns, hq]; exact .nil⟩
        | error e => cases hq
      | call op k => cases hq
    · exact h
  · rintro ⟨a, tr₁, tr₂, rfl, hp, hf⟩
    induction p generalizing tr₁ with
    | done r =>
      obtain ⟨rfl, hr⟩ := Steps.done_inv hp
      cases hr; exact hf
    | call op k ih =>
      obtain ⟨c, tr', rfl, hk⟩ := returns_call.mp hp
      exact .ret (ih c tr' hk)

theorem Returns.answered {p : Prog Op ε α} {a : α} {tr : List (Event Op ε)} (h : Returns p tr a) :
    ∀ (ev : Event Op ε), ev ∈ tr → ∃ x, ev.answer = .ok x := by
  induction p generalizing tr with
  | done r =>
    obtain ⟨rfl, _⟩ := Steps.done_inv h
    intro ev hev
    cases hev
  | call op k ih =>
    obtain ⟨x, tr', rfl, hk⟩ := returns_call.mp h
    intro ev hev
    rcases List.mem_cons.mp hev with rfl | hev
    · exact ⟨x, rfl⟩
    · exact ih x hk ev hev

/-! ## Complete runs, normal or not -/

/-- The program ends along the trace, with a value or with an exception. -/
def Finishes (p : Prog Op ε α) (tr : List (Event Op ε)) (r : Except ε α) : Prop :=
  Steps p tr (.done r)

@[simp] theorem finishes_done {r r' : Except ε α} {tr : List (Event Op ε)} :
    Finishes (.done r) tr r' ↔ tr = [] ∧ r' = r := by
  constructor
  · intro h
    obtain ⟨rfl, h⟩ := Steps.done_inv h
    cases h; exact ⟨rfl, rfl⟩
  · rintro ⟨rfl, rfl⟩; exact .nil

@[simp] theorem finishes_raise {e : ε} {r : Except ε α} {tr : List (Event Op ε)} :
    Finishes (Prog.raise e) tr r ↔ tr = [] ∧ r = .error e := finishes_done

theorem finishes_call {τ : Type} {op : Op τ} {k : τ → Prog Op ε α} {r : Except ε α}
    {tr : List (Event Op ε)} :
    Finishes (.call op k) tr r ↔
      (∃ a tr', tr = ⟨op, .ok a⟩ :: tr' ∧ Finishes (k a) tr' r) ∨
        ∃ e, tr = [⟨op, .error e⟩] ∧ r = .error e := by
  constructor
  · intro h
    cases h with
    | ret h => exact .inl ⟨_, _, rfl, h⟩
    | raise => exact .inr ⟨_, rfl, rfl⟩
  · rintro (⟨a, tr', rfl, h⟩ | ⟨e, rfl, rfl⟩)
    · exact .ret h
    · exact .raise

/-- A sequence ends in its second program, or in an exception of its first. -/
theorem finishes_bind {p : Prog Op ε α} {f : α → Prog Op ε β} {r : Except ε β}
    {tr : List (Event Op ε)} :
    Finishes (p.bind f) tr r ↔
      (∃ a tr₁ tr₂, tr = tr₁ ++ tr₂ ∧ Returns p tr₁ a ∧ Finishes (f a) tr₂ r) ∨
        ∃ e, Finishes p tr (.error e) ∧ r = .error e := by
  induction p generalizing tr with
  | done r' =>
    cases r' with
    | ok a => simp
    | error e => simp only [Prog.bind_error, finishes_done, returns_error]; grind
  | call op k ih =>
    simp only [Prog.bind_call, finishes_call, ih, returns_call]
    constructor
    · rintro (⟨a, tr', rfl, ⟨b, tr₁, tr₂, rfl, h₁, h₂⟩ | ⟨e, h, rfl⟩⟩ | ⟨e, rfl, rfl⟩)
      · exact .inl ⟨b, ⟨op, .ok a⟩ :: tr₁, tr₂, rfl, ⟨a, tr₁, rfl, h₁⟩, h₂⟩
      · exact .inr ⟨e, .inl ⟨a, tr', rfl, h⟩, rfl⟩
      · exact .inr ⟨e, .inr ⟨e, rfl, rfl⟩, rfl⟩
    · rintro (⟨b, _, tr₂, rfl, ⟨a, tr₁, rfl, h₁⟩, h₂⟩ | ⟨e, ⟨a, tr', rfl, h⟩ | ⟨e', rfl, he⟩, rfl⟩)
      · exact .inl ⟨a, tr₁ ++ tr₂, rfl, .inl ⟨b, tr₁, tr₂, rfl, h₁, h₂⟩⟩
      · exact .inl ⟨a, tr', rfl, .inr ⟨e, h, rfl⟩⟩
      · cases he; exact .inr ⟨_, rfl, rfl⟩

/-! ## Which calls a program makes -/

namespace Prog

/-- Every call the program can make satisfies `P`, and every value it can return satisfies `Q`,
whatever the calls are answered. -/
def Within (P : ∀ {τ : Type}, Op τ → Prop) (Q : α → Prop) : Prog Op ε α → Prop
  | .done (.ok a) => Q a
  | .done (.error _) => True
  | .call op k => P op ∧ ∀ a, (k a).Within P Q

/-- Every call the program can make satisfies `P`. -/
abbrev Uses (P : ∀ {τ : Type}, Op τ → Prop) (p : Prog Op ε α) : Prop := p.Within P fun _ => True

variable {P P' : ∀ {τ : Type}, Op τ → Prop} {Q : α → Prop} {p : Prog Op ε α}

theorem Within.bind {Q' : β → Prop} {f : α → Prog Op ε β} (hp : p.Within P Q)
    (hf : ∀ a, Q a → (f a).Within P Q') : (p.bind f).Within P Q' := by
  induction p with
  | done r =>
    cases r with
    | ok a => exact hf a hp
    | error e => trivial
  | call op k ih => exact ⟨hp.1, fun a => ih a (hp.2 a)⟩

theorem Uses.bind {Q' : β → Prop} {f : α → Prog Op ε β} (hp : p.Uses P)
    (hf : ∀ a, (f a).Within P Q') : (p.bind f).Within P Q' :=
  Within.bind hp fun a _ => hf a

theorem Within.mono {Q' : α → Prop} (hp : p.Within P Q)
    (hP : ∀ {τ : Type} (op : Op τ), P op → P' op) (hQ : ∀ a, Q a → Q' a) : p.Within P' Q' := by
  induction p with
  | done r =>
    cases r with
    | ok a => exact hQ a hp
    | error e => trivial
  | call op k ih => exact ⟨hP op hp.1, fun a => ih a (hp.2 a)⟩

end Prog

theorem Steps.within {P : ∀ {τ : Type}, Op τ → Prop} {Q : α → Prop} {p p' : Prog Op ε α}
    {tr : List (Event Op ε)} (h : Steps p tr p') (hp : p.Within P Q) :
    p'.Within P Q ∧ ∀ ev ∈ tr, P ev.op := by
  induction h with
  | nil => exact ⟨hp, by simp⟩
  | ret _ ih =>
    obtain ⟨h₁, h₂⟩ := ih (hp.2 _)
    exact ⟨h₁, List.forall_mem_cons.mpr ⟨hp.1, h₂⟩⟩
  | raise => exact ⟨trivial, by simpa using hp.1⟩

/-! ## Programs that raise nothing of their own -/

namespace Prog

def Quiet : Prog Op ε α → Prop
  | .done (.ok _) => True
  | .done (.error _) => False
  | .call _ k => ∀ a, (k a).Quiet

theorem request_quiet {τ : Type} (op : Op τ) : (request op : Prog Op ε τ).Quiet := fun _ => trivial

theorem Quiet.bind {p : Prog Op ε α} {f : α → Prog Op ε β} (hp : p.Quiet)
    (hf : ∀ a, (f a).Quiet) : (p.bind f).Quiet := by
  induction p with
  | done r =>
    cases r with
    | ok a => exact hf a
    | error e => exact hp.elim
  | call op k ih => exact fun a => ih a (hp a)

/-- An exception of a quiet program is one that its last call was answered with. -/
theorem Quiet.error {p : Prog Op ε α} (hp : p.Quiet) {tr : List (Event Op ε)} {e : ε}
    (h : Finishes p tr (.error e)) :
    ∃ (tr' : List (Event Op ε)) (τ : Type) (op : Op τ), tr = tr' ++ [⟨op, .error e⟩] := by
  induction p generalizing tr with
  | done r =>
    obtain ⟨rfl, rfl⟩ := finishes_done.mp h
    exact hp.elim
  | call op k ih =>
    obtain ⟨a, tr', rfl, hk⟩ | ⟨e', rfl, he⟩ := finishes_call.mp h
    · obtain ⟨tr'', τ, op', rfl⟩ := ih a (hp a) hk
      exact ⟨⟨op, .ok a⟩ :: tr'', τ, op', rfl⟩
    · cases he; exact ⟨[], _, op, rfl⟩

end Prog

/-! ## Environments with a state -/

/-- What an environment may answer to a call, and what the call does to its state. -/
abbrev Env (Op : Type → Type) (ε W : Type) : Type 1 := W → Event Op ε → W → Prop

/-- The state of the environment along a trace. -/
inductive Drives {W : Type} (env : Env Op ε W) : W → List (Event Op ε) → W → Prop where
  | nil {w : W} : Drives env w [] w
  | cons {w w₁ w₂ : W} {ev : Event Op ε} {tr : List (Event Op ε)} :
      env w ev w₁ → Drives env w₁ tr w₂ → Drives env w (ev :: tr) w₂

namespace Drives

variable {W : Type} {env : Env Op ε W}

theorem snoc {w w₁ w₂ : W} {tr : List (Event Op ε)} {ev : Event Op ε}
    (h : Drives env w tr w₁) (hev : env w₁ ev w₂) : Drives env w (tr ++ [ev]) w₂ := by
  induction h with
  | nil => exact .cons hev .nil
  | cons h _ ih => exact .cons h (ih hev)

theorem nil_inv {w w' : W} (h : Drives env w [] w') : w' = w := by
  cases h; rfl

theorem cons_inv {w w' : W} {ev : Event Op ε} {tr : List (Event Op ε)}
    (h : Drives env w (ev :: tr) w') : ∃ w₁, env w ev w₁ ∧ Drives env w₁ tr w' := by
  cases h with
  | cons hev htr => exact ⟨_, hev, htr⟩

theorem append_inv {w w₂ : W} {tr₁ tr₂ : List (Event Op ε)}
    (h : Drives env w (tr₁ ++ tr₂) w₂) : ∃ w₁, Drives env w tr₁ w₁ ∧ Drives env w₁ tr₂ w₂ := by
  induction tr₁ generalizing w with
  | nil => exact ⟨w, .nil, h⟩
  | cons ev tr₁ ih =>
    cases h with
    | cons hev h =>
      obtain ⟨w₁, h₁, h₂⟩ := ih h
      exact ⟨w₁, .cons hev h₁, h₂⟩

/-- A property of the state that every event of the trace keeps. -/
theorem keeps {I : W → Prop} {w w' : W} {tr : List (Event Op ε)} (h : Drives env w tr w')
    (hI : ∀ ev ∈ tr, ∀ u u', env u ev u' → I u → I u') : I w → I w' := by
  induction h with
  | nil => exact id
  | @cons w w₁ w₂ ev tr hev _ ih =>
    intro hw
    exact ih (fun ev' h' => hI ev' (List.mem_cons_of_mem _ h'))
      (hI ev (List.mem_cons_self) w w₁ hev hw)

theorem mono {env' : Env Op ε W} {w w' : W} {tr : List (Event Op ε)} (h : Drives env w tr w')
    (hsub : ∀ u ev u', env u ev u' → env' u ev u') : Drives env' w tr w' := by
  induction h with
  | nil => exact .nil
  | cons hev _ ih => exact .cons (hsub _ _ _ hev) ih

end Drives

/-- In this environment the program can run to its end, and always returns such a value. -/
structure Prog.Succeeds {W : Type} (env : Env Op ε W) (w : W) (p : Prog Op ε α) (Q : α → Prop) :
    Prop where
  finishes : ∃ tr r w', Finishes p tr r ∧ Drives env w tr w'
  returns : ∀ tr r w', Finishes p tr r → Drives env w tr w' → ∃ a, r = .ok a ∧ Q a

/-- A program whose calls can all be answered without a change of the state runs to its end. -/
theorem Prog.Uses.finishes {W : Type} {env : Env Op ε W} {w : W} {p : Prog Op ε α}
    (h : p.Uses fun op => ∃ a, env w ⟨op, .ok a⟩ w) :
    ∃ tr r w', Finishes p tr r ∧ Drives env w tr w' := by
  induction p with
  | done r => exact ⟨[], r, w, .nil, .nil⟩
  | call op k ih =>
    obtain ⟨⟨a, ha⟩, hk⟩ := h
    obtain ⟨tr, r, w', hrun, hd⟩ := ih a (hk a)
    exact ⟨⟨op, .ok a⟩ :: tr, r, w', .ret hrun, .cons ha hd⟩

/-! ## Running a program on given answers -/

/-- One answer for whichever call comes next. -/
abbrev Answers (Op : Type → Type) (ε : Type) : Type 1 := {τ : Type} → Op τ → Except ε τ

namespace Prog

/-- Run on a list of answer functions, one for each call, until they are used up. -/
def run : Prog Op ε α → List (Answers Op ε) → List (Event Op ε) × Prog Op ε α
  | p, [] => ([], p)
  | .done r, _ :: _ => ([], .done r)
  | .call op k, f :: fs =>
    match f op with
    | .ok a => (⟨op, .ok a⟩ :: ((k a).run fs).1, ((k a).run fs).2)
    | .error e => ([⟨op, .error e⟩], .done (.error e))

theorem run_steps (p : Prog Op ε α) (fs : List (Answers Op ε)) :
    Steps p (p.run fs).1 (p.run fs).2 := by
  induction fs generalizing p with
  | nil => cases p <;> exact .nil
  | cons f fs ih =>
    cases p with
    | done r => exact .nil
    | call op k =>
      simp only [run]
      cases hf : f op with
      | ok a => exact .ret (ih (k a))
      | error e => exact .raise

end Prog

/-! ## Running a program in an environment that computes its answers -/

/-- An environment that computes its answers. -/
abbrev Simulator (Op : Type → Type) (ε W : Type) : Type 1 := W → {τ : Type} → Op τ → Except ε τ × W

namespace Prog

/-- The complete run of a program: its trace, its result and the state it leaves. -/
def simulate {W : Type} (sim : Simulator Op ε W) :
    Prog Op ε α → W → List (Event Op ε) × Except ε α × W
  | .done r, w => ([], r, w)
  | .call op k, w =>
    match sim w op with
    | (.ok a, w') =>
      (⟨op, .ok a⟩ :: ((k a).simulate sim w').1, ((k a).simulate sim w').2)
    | (.error e, w') => ([⟨op, .error e⟩], .error e, w')

theorem simulate_finishes {W : Type} {env : Env Op ε W} {sim : Simulator Op ε W}
    (hsim : ∀ w {τ : Type} (op : Op τ), env w ⟨op, (sim w op).1⟩ (sim w op).2)
    (p : Prog Op ε α) (w : W) :
    Finishes p (p.simulate sim w).1 (p.simulate sim w).2.1 ∧
      Drives env w (p.simulate sim w).1 (p.simulate sim w).2.2 := by
  induction p generalizing w with
  | done r => exact ⟨.nil, .nil⟩
  | call op k ih =>
    have hstep := hsim w op
    simp only [simulate]
    rcases hs : sim w op with ⟨_ | a, w'⟩
    · rw [hs] at hstep
      exact ⟨.raise, .cons hstep .nil⟩
    · rw [hs] at hstep
      obtain ⟨hrun, hd⟩ := ih a w'
      exact ⟨.ret hrun, .cons hstep hd⟩

theorem simulate_returns {W : Type} {env : Env Op ε W} {sim : Simulator Op ε W}
    (hsim : ∀ w {τ : Type} (op : Op τ), env w ⟨op, (sim w op).1⟩ (sim w op).2)
    {p : Prog Op ε α} {w : W} {a : α} (h : (p.simulate sim w).2.1 = .ok a) :
    Returns p (p.simulate sim w).1 a ∧
      Drives env w (p.simulate sim w).1 (p.simulate sim w).2.2 := by
  obtain ⟨hrun, hd⟩ := simulate_finishes hsim p w
  rw [h] at hrun
  exact ⟨hrun, hd⟩

/-- How a program ends, and the state it leaves. -/
def outcome {W : Type} (sim : Simulator Op ε W) (p : Prog Op ε α) (w : W) : Except ε α × W :=
  (p.simulate sim w).2

section Outcome

variable {W : Type} {sim : Simulator Op ε W} {w : W}

@[simp] theorem outcome_done (r : Except ε α) :
    (Prog.done r : Prog Op ε α).outcome sim w = (r, w) := rfl

@[simp] theorem outcome_raise (e : ε) :
    (raise e : Prog Op ε α).outcome sim w = (.error e, w) := rfl

theorem outcome_call {τ : Type} (op : Op τ) (k : τ → Prog Op ε α) :
    (Prog.call op k).outcome sim w =
      match sim w op with
      | (.ok a, w') => (k a).outcome sim w'
      | (.error e, w') => (.error e, w') := by
  rw [outcome, simulate]
  rcases sim w op with ⟨_ | a, w'⟩ <;> rfl

theorem outcome_bind (p : Prog Op ε α) (f : α → Prog Op ε β) :
    (p.bind f).outcome sim w =
      match p.outcome sim w with
      | (.ok a, w') => (f a).outcome sim w'
      | (.error e, w') => (.error e, w') := by
  induction p generalizing w with
  | done r => cases r <;> rfl
  | call op k ih =>
    rw [bind_call, outcome_call, outcome_call]
    rcases sim w op with ⟨_ | a, w'⟩
    · rfl
    · exact ih a

end Outcome

end Prog

end Effect
end KollaPowerOps
