import KollaPowerOps.Lib.Runs

/-!
# Lib.Triple

Rules of pre- and postconditions for programs that keep a state of their own and call out to an
environment with a state.

* `Prog.wp`   : the states from which every call is made where it may be and every normal return is
  as wanted, whatever the environment answers. `wp_steps` is its soundness.
* `Triple`    : the same for a program with a state, between a pre- and a postcondition.
* `Asks`      : from a state a program makes its calls where they may be made and returns a given
  value, with the state as it was.
* `Keeps`     : a program that keeps every assertion: it reads.
* `Happens`   : a step of a given kind occurs on the way of the environment; `Env.watch` is the
  environment that remembers it.
* `FailsIn`   : a program fails in a part of it.
-/

namespace KollaPowerOps
namespace Effect

variable {Op : Type → Type} {ε α β W σ : Type}

/-! ## Weakest preconditions -/

section Wp

variable {env : Env Op ε W} {P : W → ∀ {τ : Type}, Op τ → Prop}

def Prog.wp (env : Env Op ε W) (P : W → ∀ {τ : Type}, Op τ → Prop) (Q : α → W → Prop) :
    Prog Op ε α → W → Prop
  | .done (.ok a), w => Q a w
  | .done (.error _), _ => True
  | .call op k, w => P w op ∧ ∀ a w', env w ⟨op, .ok a⟩ w' → (k a).wp env P Q w'

theorem wp_mono {Q Q' : α → W → Prop} {p : Prog Op ε α} {w : W} (h : p.wp env P Q w)
    (hQ : ∀ a w', Q a w' → Q' a w') : p.wp env P Q' w := by
  induction p generalizing w with
  | done r =>
    cases r with
    | ok a => exact hQ a w h
    | error e => trivial
  | call op k ih => exact ⟨h.1, fun a w' hev => ih a (h.2 a w' hev)⟩

theorem wp_bind {Q : β → W → Prop} {p : Prog Op ε α} {f : α → Prog Op ε β} {w : W}
    (h : p.wp env P (fun a w' => (f a).wp env P Q w') w) : (p.bind f).wp env P Q w := by
  induction p generalizing w with
  | done r =>
    cases r with
    | ok a => exact h
    | error e => trivial
  | call op k ih => exact ⟨h.1, fun a w' hev => ih a (h.2 a w' hev)⟩

/-- What is left of a program on its way is as good as the whole. -/
theorem wp_steps {Q : α → W → Prop} {p q : Prog Op ε α} {tr : List (Event Op ε)} {w w' : W}
    (hsteps : Steps p tr q) (hd : Drives env w tr w') (h : p.wp env P Q w) : q.wp env P Q w' := by
  induction hsteps generalizing w with
  | nil =>
    cases hd.nil_inv
    exact h
  | ret _ ih =>
    obtain ⟨w₁, hev, hd⟩ := hd.cons_inv
    exact ih hd (h.2 _ w₁ hev)
  | raise => trivial

/-- The calls on a program's way are made where they may be. -/
theorem wp_calls {Q : α → W → Prop} {p q : Prog Op ε α} {tr : List (Event Op ε)} {w w' : W}
    (hsteps : Steps p tr q) (hd : Drives env w tr w') (h : p.wp env P Q w) :
    ∀ ev ∈ tr, ∃ u, P u ev.op := by
  induction hsteps generalizing w with
  | nil =>
    intro ev hev
    cases hev
  | ret _ ih =>
    obtain ⟨w₁, hev, hd⟩ := hd.cons_inv
    exact List.forall_mem_cons.mpr ⟨⟨w, h.1⟩, ih hd (h.2 _ w₁ hev)⟩
  | raise => exact List.forall_mem_singleton.mpr ⟨w, h.1⟩

/-- What every call keeps that is made where it may be, answered or not, holds all along the way. -/
theorem wp_invariant {I : W → Prop} {Q : α → W → Prop} {p q : Prog Op ε α} {tr : List (Event Op ε)}
    {w w' : W} (hstep : ∀ u ev u', I u → P u ev.op → env u ev u' → I u') (hsteps : Steps p tr q)
    (hd : Drives env w tr w') (h : p.wp env P Q w) (hI : I w) : I w' := by
  induction hsteps generalizing w with
  | nil =>
    cases hd.nil_inv
    exact hI
  | ret _ ih =>
    obtain ⟨w₁, hev, hd⟩ := hd.cons_inv
    exact ih hd (h.2 _ w₁ hev) (hstep w _ w₁ hI h.1 hev)
  | raise =>
    obtain ⟨w₁, hev, hd⟩ := hd.cons_inv
    cases hd.nil_inv
    exact hstep w _ _ hI h.1 hev

end Wp

/-! ## Triples -/

/-- From a state with `pre` the program makes its calls where they may be made, and where it returns,
`post` holds. -/
def Triple (env : Env Op ε W) (P : W → ∀ {τ : Type}, Op τ → Prop) (pre : W → σ → Prop)
    (m : StateT σ (Prog Op ε) α) (post : α → W → σ → Prop) : Prop :=
  ∀ w s, pre w s → (m.run s).wp env P (fun r w' => post r.1 w' r.2) w

/-- One call. -/
def ask {τ : Type} (op : Op τ) : StateT σ (Prog Op ε) τ := fun s => .call op fun a => pure (a, s)

/-- An exception of the program's own. -/
def fail (e : ε) : StateT σ (Prog Op ε) α := fun _ => Prog.raise e

/-- A computation that needs neither the environment nor the state. -/
def compute (x : Except ε α) : StateT σ (Prog Op ε) α := fun s => .done (x.map fun a => (a, s))

@[simp] theorem run_compute_ok (a : α) (f : α → StateT σ (Prog Op ε) β) (s : σ) :
    (compute (.ok a) >>= f).run s = (f a).run s := rfl

theorem Returns.andThen {m : StateT σ (Prog Op ε) α} {f : α → StateT σ (Prog Op ε) β} {s s' : σ} {a : α}
    {r : β × σ} {tr tr' : List (Event Op ε)} (h : Returns (m.run s) tr (a, s'))
    (h' : Returns ((f a).run s') tr' r) : Returns ((m >>= f).run s) (tr ++ tr') r :=
  returns_bind.mpr ⟨(a, s'), tr, tr', rfl, h, h'⟩

section Rules

variable {env : Env Op ε W} {P : W → ∀ {τ : Type}, Op τ → Prop} {pre pre' : W → σ → Prop}
  {m : StateT σ (Prog Op ε) α} {f : α → StateT σ (Prog Op ε) β} {post post' : α → W → σ → Prop}

theorem Triple.bind {last : β → W → σ → Prop} (hm : Triple env P pre m post)
    (hf : ∀ a, Triple env P (post a) (f a) last) : Triple env P pre (m >>= f) last := by
  intro w s h
  exact wp_bind (wp_mono (hm w s h) fun r w' hr => hf r.1 w' r.2 hr)

theorem Triple.then_return {post : W → σ → Prop} (hm : Triple env P pre m fun _ => post) (b : β) :
    Triple env P pre (m >>= fun _ => Pure.pure b) fun _ => post := by
  intro w s h
  exact wp_bind (hm w s h)

theorem Triple.with_pre (hm : Triple env P pre m post) (h : ∀ w s, pre' w s → pre w s) :
    Triple env P pre' m post := fun w s hw => hm w s (h w s hw)

theorem Triple.with_post (hm : Triple env P pre m post) (h : ∀ a w s, post a w s → post' a w s) :
    Triple env P pre m post' := fun w s hw => wp_mono (hm w s hw) fun r w' hr => h r.1 w' r.2 hr

theorem Triple.pure {a : α} (h : ∀ w s, pre w s → post a w s) :
    Triple env P pre (pure a : StateT σ (Prog Op ε) α) post := h

theorem Triple.ask {τ : Type} {op : Op τ} {post : τ → W → σ → Prop} (hP : ∀ w s, pre w s → P w op)
    (h : ∀ w s a w', pre w s → env w ⟨op, .ok a⟩ w' → post a w' s) :
    Triple env P pre (Effect.ask op) post :=
  fun w s hw => ⟨hP w s hw, fun a w' hev => h w s a w' hw hev⟩

theorem Triple.fail {e : ε} : Triple env P pre (fail e : StateT σ (Prog Op ε) α) post :=
  fun _ _ _ => trivial

theorem Triple.compute {x : Except ε α} (h : ∀ a w s, x = .ok a → pre w s → post a w s) :
    Triple env P pre (compute x : StateT σ (Prog Op ε) α) post := by
  intro w s hw
  cases x with
  | ok a => exact h a w s rfl hw
  | error e => trivial

theorem Triple.set {s : σ} {post : PUnit → W → σ → Prop} (h : ∀ w s', pre w s' → post ⟨⟩ w s) :
    Triple env P pre (set s : StateT σ (Prog Op ε) PUnit) post := h

theorem Triple.modify {g : σ → σ} {post : PUnit → W → σ → Prop}
    (h : ∀ w s, pre w s → post ⟨⟩ w (g s)) :
    Triple env P pre (modify g : StateT σ (Prog Op ε) PUnit) post := h

theorem Triple.get {post : σ → W → σ → Prop} (h : ∀ w s, pre w s → post s w s) :
    Triple env P pre (get : StateT σ (Prog Op ε) σ) post := h

theorem Triple.ite {q : Prop} [Decidable q] {m' : StateT σ (Prog Op ε) α}
    (h : q → Triple env P pre m post) (h' : ¬ q → Triple env P pre m' post) :
    Triple env P pre (if q then m else m') post := by
  split
  · exact h ‹_›
  · exact h' ‹_›

/-- A fact that is no matter of the state. -/
theorem Triple.of_fact {q : Prop} (h : q → Triple env P pre m post) :
    Triple env P (fun w s => q ∧ pre w s) m post := fun w s hw => h hw.1 w s hw.2

theorem Triple.of_false (h : ∀ w s, ¬ pre w s) : Triple env P pre m post :=
  fun w s hw => (h w s hw).elim

theorem Triple.or (hm : Triple env P pre m post) (hm' : Triple env P pre' m post) :
    Triple env P (fun w s => pre w s ∨ pre' w s) m post :=
  fun w s hw => hw.elim (hm w s) (hm' w s)

end Rules

/-! ## Programs that only ask -/

/-- As `wp`, and the program raises no exception of its own. -/
def Prog.sure (env : Env Op ε W) (P : W → ∀ {τ : Type}, Op τ → Prop) (Q : α → W → Prop) :
    Prog Op ε α → W → Prop
  | .done (.ok a), w => Q a w
  | .done (.error _), _ => False
  | .call op k, w => P w op ∧ ∀ a w', env w ⟨op, .ok a⟩ w' → (k a).sure env P Q w'

/-- From this state the program makes its calls where they may be made and, as long as they are
answered, returns `a`, with both states as they were. -/
def Asks (env : Env Op ε W) (P : W → ∀ {τ : Type}, Op τ → Prop) (w : W) (s : σ)
    (m : StateT σ (Prog Op ε) α) (a : α) : Prop :=
  (m.run s).sure env P (fun r w' => r = (a, s) ∧ w' = w) w

section Asks

variable {env : Env Op ε W} {P : W → ∀ {τ : Type}, Op τ → Prop} {w w' : W} {s : σ}

theorem Prog.sure_bind {Q : β → W → Prop} {p : Prog Op ε α} {f : α → Prog Op ε β}
    (h : p.sure env P (fun a w' => (f a).sure env P Q w') w) : (p.bind f).sure env P Q w := by
  induction p generalizing w with
  | done r =>
    cases r with
    | ok a => exact h
    | error e => exact h.elim
  | call op k ih => exact ⟨h.1, fun a w' hev => ih a (h.2 a w' hev)⟩

theorem Prog.sure_mono {Q Q' : α → W → Prop} {p : Prog Op ε α} (h : p.sure env P Q w)
    (hQ : ∀ a w', Q a w' → Q' a w') : p.sure env P Q' w := by
  induction p generalizing w with
  | done r =>
    cases r with
    | ok a => exact hQ a w h
    | error e => exact h.elim
  | call op k ih => exact ⟨h.1, fun a w' hev => ih a (h.2 a w' hev)⟩

theorem Prog.sure_wp {Q : α → W → Prop} {p : Prog Op ε α} (h : p.sure env P Q w) :
    p.wp env P Q w := by
  induction p generalizing w with
  | done r =>
    cases r with
    | ok a => exact h
    | error e => trivial
  | call op k ih => exact ⟨h.1, fun a w' hev => ih a (h.2 a w' hev)⟩

/-- A complete run all of whose calls were answered returns. -/
theorem Prog.sure_finishes {Q : α → W → Prop} {p : Prog Op ε α} {tr : List (Event Op ε)}
    {r : Except ε α} (h : p.sure env P Q w) (hrun : Finishes p tr r) (hd : Drives env w tr w')
    (hanswered : ∀ ev ∈ tr, ∃ a, ev.answer = .ok a) : ∃ a, r = .ok a ∧ Q a w' := by
  induction p generalizing w tr with
  | done r' =>
    obtain ⟨rfl, rfl⟩ := finishes_done.mp hrun
    cases hd.nil_inv
    cases r with
    | ok a => exact ⟨a, rfl, h⟩
    | error e => exact h.elim
  | call op k ih =>
    rcases finishes_call.mp hrun with ⟨a, tr', rfl, hk⟩ | ⟨e, rfl, rfl⟩
    · obtain ⟨w₁, hev, hd⟩ := hd.cons_inv
      exact ih a (h.2 a w₁ hev) hk hd fun ev hmem => hanswered ev (List.mem_cons_of_mem _ hmem)
    · obtain ⟨a, ha⟩ := hanswered _ List.mem_cons_self
      cases ha

theorem Asks.pure (a : α) : Asks env P w s (pure a : StateT σ (Prog Op ε) α) a := ⟨rfl, rfl⟩

theorem Asks.compute {x : Except ε α} {a : α} (h : x = .ok a) :
    Asks env P w s (compute x : StateT σ (Prog Op ε) α) a := by
  subst h
  exact ⟨rfl, rfl⟩

theorem Asks.bind {m : StateT σ (Prog Op ε) α} {f : α → StateT σ (Prog Op ε) β} {a : α} {b : β}
    (hm : Asks env P w s m a) (hf : Asks env P w s (f a) b) :
    Asks env P w s (m >>= f) b := by
  refine Prog.sure_bind (Prog.sure_mono hm ?_)
  rintro _ _ ⟨rfl, rfl⟩
  exact hf

theorem Asks.assoc {γ : Type} {m : StateT σ (Prog Op ε) α} {f : α → StateT σ (Prog Op ε) β}
    {g : β → StateT σ (Prog Op ε) γ} {c : γ} (h : Asks env P w s (m >>= fun a => f a >>= g) c) :
    Asks env P w s (m >>= f >>= g) c := by
  have hrun : (m >>= f >>= g).run s = (m >>= fun a => f a >>= g).run s := Prog.bind_assoc _ _ _
  rw [Asks, hrun]
  exact h

/-- A call that leaves the state, whatever it is answered. -/
theorem Asks.ask {τ : Type} {op : Op τ} {f : τ → StateT σ (Prog Op ε) β} {b : β} (hP : P w op)
    (h : ∀ a w', env w ⟨op, .ok a⟩ w' → w' = w ∧ Asks env P w s (f a) b) :
    Asks env P w s (Effect.ask op >>= f) b := by
  refine ⟨hP, fun a w' hev => ?_⟩
  obtain ⟨rfl, hf⟩ := h a w' hev
  exact hf

end Asks

/-! ## Programs that read -/

/-- Whatever holds before the program holds after it. -/
def Keeps (env : Env Op ε W) (P : W → ∀ {τ : Type}, Op τ → Prop) (m : StateT σ (Prog Op ε) α) : Prop :=
  ∀ pre : W → σ → Prop, Triple env P pre m fun _ => pre

section Keeps

variable {env : Env Op ε W} {P : W → ∀ {τ : Type}, Op τ → Prop} {m : StateT σ (Prog Op ε) α}
  {f : α → StateT σ (Prog Op ε) β}

theorem Keeps.bind (hm : Keeps env P m) (hf : ∀ a, Keeps env P (f a)) : Keeps env P (m >>= f) :=
  fun pre => (hm pre).bind fun a => hf a pre

theorem Keeps.pure (a : α) : Keeps env P (pure a : StateT σ (Prog Op ε) α) :=
  fun _ => Triple.pure fun _ _ h => h

theorem Keeps.fail (e : ε) : Keeps env P (fail e : StateT σ (Prog Op ε) α) := fun _ => Triple.fail

theorem Keeps.compute (x : Except ε α) : Keeps env P (compute x : StateT σ (Prog Op ε) α) :=
  fun _ => Triple.compute fun _ _ _ _ h => h

theorem Keeps.ite {q : Prop} [Decidable q] {m' : StateT σ (Prog Op ε) α}
    (h : q → Keeps env P m) (h' : ¬ q → Keeps env P m') : Keeps env P (if q then m else m') :=
  fun pre => Triple.ite (fun hq => h hq pre) fun hq => h' hq pre

theorem Keeps.ask {τ : Type} {op : Op τ} (hP : ∀ w, P w op)
    (henv : ∀ w a w', env w ⟨op, .ok a⟩ w' → w' = w) :
    Keeps env P (Effect.ask op : StateT σ (Prog Op ε) τ) :=
  fun _ => Triple.ask (fun w _ _ => hP w) fun w _ a w' h hev => henv w a w' hev ▸ h

end Keeps

/-! ## Steps of a kind -/

/-- On the way from `w` to `w'` there is a step with `p`. -/
inductive Happens (env : Env Op ε W) (p : W → Event Op ε → W → Prop) :
    W → List (Event Op ε) → W → Prop where
  | here {w w₁ w' : W} {ev : Event Op ε} {tr : List (Event Op ε)} :
      env w ev w₁ → p w ev w₁ → Drives env w₁ tr w' → Happens env p w (ev :: tr) w'
  | later {w w₁ w' : W} {ev : Event Op ε} {tr : List (Event Op ε)} :
      env w ev w₁ → Happens env p w₁ tr w' → Happens env p w (ev :: tr) w'

/-- The environment that remembers whether there has been a step with `p`. -/
def Env.watch (env : Env Op ε W) (p : W → Event Op ε → W → Prop) : Env Op ε (W × Bool) :=
  fun u ev u' => env u.1 ev u'.1 ∧ (u'.2 = true ↔ u.2 = true ∨ p u.1 ev u'.1)

section Watch

variable {env : Env Op ε W} {p : W → Event Op ε → W → Prop}

theorem Happens.drives {w w' : W} {tr : List (Event Op ε)} (h : Happens env p w tr w') :
    Drives env w tr w' := by
  induction h with
  | here hev _ hd => exact .cons hev hd
  | later hev _ ih => exact .cons hev ih

theorem drives_watch {w w' : W} {tr : List (Event Op ε)} (h : Drives env w tr w') :
    Drives (env.watch p) (w, true) tr (w', true) := by
  induction h with
  | nil => exact .nil
  | cons hev _ ih => exact .cons ⟨hev, by simp⟩ ih

open Classical in
theorem Happens.watch {w w' : W} {tr : List (Event Op ε)} (h : Happens env p w tr w') (b : Bool) :
    Drives (env.watch p) (w, b) tr (w', true) := by
  induction h generalizing b with
  | here hev hp hd => exact .cons ⟨hev, by simp [hp]⟩ (drives_watch hd)
  | @later w w₁ w' ev tr hev _ ih =>
    have hstep : env.watch p (w, b) ev (w₁, b || decide (p w ev w₁)) := ⟨hev, by simp⟩
    exact .cons hstep (ih _)

theorem happens_of_mem {w w' : W} {tr : List (Event Op ε)} (h : Drives env w tr w')
    {ev : Event Op ε} (hev : ev ∈ tr) (hp : ∀ u u', p u ev u') : Happens env p w tr w' := by
  induction h with
  | nil => cases hev
  | cons hstep hd ih =>
    rcases List.mem_cons.mp hev with rfl | hev
    · exact .here hstep (hp _ _) hd
    · exact .later hstep (ih hev)

end Watch

/-! ## Calls ahead -/

/-- While the environment stays as it is, the program can come to a call with `R`. -/
def CanCall (env : Env Op ε W) (w : W) (p : Prog Op ε α) (R : ∀ {τ : Type}, Op τ → Prop) : Prop :=
  ∃ (tr : List (Event Op ε)) (τ : Type) (op : Op τ) (k : τ → Prog Op ε α),
    Steps p tr (.call op k) ∧ Drives env w tr w ∧ R op

section CanCall

variable {env : Env Op ε W} {w : W} {R : ∀ {τ : Type}, Op τ → Prop} {τ : Type} {op : Op τ}
  {k : τ → Prog Op ε α}

theorem CanCall.here (h : R op) : CanCall env w (.call op k) R := ⟨[], τ, op, k, .nil, .nil, h⟩

theorem CanCall.later {a : τ} (hev : env w ⟨op, .ok a⟩ w) (h : CanCall env w (k a) R) :
    CanCall env w (.call op k) R := by
  obtain ⟨tr, τ', op', k', hsteps, hd, hR⟩ := h
  exact ⟨_, τ', op', k', .ret hsteps, .cons hev hd, hR⟩

theorem CanCall.mono {R' : ∀ {τ : Type}, Op τ → Prop} {p : Prog Op ε α} (h : CanCall env w p R)
    (hR : ∀ {τ : Type} (op : Op τ), R op → R' op) : CanCall env w p R' := by
  obtain ⟨tr, τ, op, k, hsteps, hd, hop⟩ := h
  exact ⟨tr, τ, op, k, hsteps, hd, hR op hop⟩

theorem CanCall.bind {p : Prog Op ε α} (h : CanCall env w p R) (f : α → Prog Op ε β) :
    CanCall env w (p.bind f) R := by
  obtain ⟨tr, τ, op, k, hsteps, hd, hR⟩ := h
  exact ⟨tr, τ, op, _, hsteps.bind f, hd, hR⟩

end CanCall

/-! ## Failures in a part -/

/-- Along the trace `m` gets to `part`, which fails, and `m` with it. -/
def FailsIn (m : StateT σ (Prog Op ε) α) (s : σ) (part : StateT σ (Prog Op ε) β)
    (tr : List (Event Op ε)) : Prop :=
  ∃ tr₁ tr₂ s' k e, tr = tr₁ ++ tr₂ ∧ Steps (m.run s) tr₁ ((part.run s').bind k) ∧
    Finishes (part.run s') tr₂ (.error e)

section FailsIn

variable {m : StateT σ (Prog Op ε) α} {part : StateT σ (Prog Op ε) β} {s : σ}
  {tr : List (Event Op ε)}

theorem FailsIn.finishes (h : FailsIn m s part tr) : ∃ e, Finishes (m.run s) tr (.error e) := by
  obtain ⟨tr₁, tr₂, s', k, e, rfl, h₁, h₂⟩ := h
  exact ⟨e, h₁.trans (finishes_bind.mpr (.inr ⟨e, h₂, rfl⟩))⟩

theorem FailsIn.here {e : ε} (h : Finishes (part.run s) tr (.error e)) : FailsIn part s part tr :=
  ⟨[], tr, s, pure, e, rfl, (Prog.bind_pure (part.run s)).symm ▸ .nil, h⟩

theorem FailsIn.bind (h : FailsIn m s part tr) {γ : Type} (f : α → StateT σ (Prog Op ε) γ) :
    FailsIn (m >>= f) s part tr := by
  obtain ⟨tr₁, tr₂, s', k, e, rfl, h₁, h₂⟩ := h
  refine ⟨tr₁, tr₂, s', fun x => (k x).bind fun r => (f r.1).run r.2, e, rfl, ?_, h₂⟩
  rw [← Prog.bind_assoc]
  exact h₁.bind _

theorem FailsIn.after {γ : Type} {f : α → StateT σ (Prog Op ε) γ} {a : α} {s' : σ}
    {tr' : List (Event Op ε)} (h : Returns (m.run s) tr (a, s')) (h' : FailsIn (f a) s' part tr') :
    FailsIn (m >>= f) s part (tr ++ tr') := by
  obtain ⟨tr₁, tr₂, s'', k, e, rfl, h₁, h₂⟩ := h'
  refine ⟨tr ++ tr₁, tr₂, s'', k, e, (List.append_assoc _ _ _).symm, ?_, h₂⟩
  exact (Steps.bind h fun r => (f r.1).run r.2).trans h₁

/-- No step with `p` is on the way to a failure in the part, if the part can still come to a call that
may only be made before such a step, and makes none itself. -/
theorem FailsIn.before {env : Env Op ε W} {p : W → Event Op ε → W → Prop}
    {P : W × Bool → ∀ {τ : Type}, Op τ → Prop} {P' : W → ∀ {τ : Type}, Op τ → Prop}
    {post : α → W × Bool → σ → Prop} {post' : β → W → σ → Prop}
    (hm : Triple (env.watch p) P (fun u _ => u.2 = false) m post)
    (hpart : ∀ s' u, CanCall (env.watch p) u (part.run s') fun op => P u op → u.2 = false)
    (huses : Triple env P' (fun _ _ => True) part post')
    (hsafe : ∀ w {τ : Type} (op : Op τ), P' w op → ∀ u x u', ¬ p u ⟨op, x⟩ u')
    (h : FailsIn m s part tr) {ev : Event Op ε} (hev : ev ∈ tr) (hp : ∀ u u', p u ev u')
    {w w' : W} (hd : Drives env w tr w') : False := by
  obtain ⟨tr₁, tr₂, s', k, e, rfl, h₁, h₂⟩ := h
  obtain ⟨w₁, hd₁, hd₂⟩ := hd.append_inv
  rcases List.mem_append.mp hev with hev | hev
  · have hw := (happens_of_mem hd₁ hev hp).watch false
    have hwp := wp_steps h₁ hw (hm (w, false) s rfl)
    obtain ⟨tr', τ, op, k', hsteps, hd', hop⟩ := (hpart s' (w₁, true)).bind k
    cases hop (wp_steps hsteps hd' hwp).1
  · obtain ⟨u, hu⟩ := wp_calls h₂ hd₂ (huses w₁ s' trivial) ev hev
    exact hsafe u ev.op hu w₁ ev.answer w' (hp w₁ w')

end FailsIn

end Effect
end KollaPowerOps
