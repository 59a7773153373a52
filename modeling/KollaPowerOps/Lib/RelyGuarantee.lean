import KollaPowerOps.Lib.Lanes
import KollaPowerOps.Lib.Triple

/-!
# Lib.RelyGuarantee

Any number of executions over one environment, call by call in any order, each of them checked by
itself.

* `Parallel`, `Parallel.Reach` : executions that share an environment, which also changes by itself
  between two calls. `Parallel.turns` runs them in a given order.
* `Env.relying`   : the environment as one execution sees it, with what the others may do in between.
* `RelyGuarantee` : what each execution relies on and which calls it makes, with the proofs that the
  calls of one keep what the others rely on.
* `RelyGuarantee.reach` : each execution is a run by itself in the environment that it relies on.
-/

namespace KollaPowerOps
namespace Effect

variable {Op : Type → Type} {ε W : Type}

/-- Before a call the environment may change within `R`. -/
def Env.relying (env : Env Op ε W) (R : W → W → Prop) : Env Op ε W :=
  fun w ev w' => ∃ u, R w u ∧ env u ev w'

end Effect

namespace TaskGraph

open Effect

variable {ι Task Act : Type} {Op : Type → Type} {ε α W : Type}

/-- A step is one of every environment that answers the call in the same way there. -/
theorem Step.mono [DecidableEq Task] {wf : Workflow Task Act} {prog : Task → Prog Op ε α}
    {env env' : Env Op ε W} {s s' : Run Task Op ε α W} {l : Option (Task × Event Op ε)}
    (h : Step wf prog env s l s') (henv : ∀ ev w, env s.world ev w → env' s.world ev w) :
    Step wf prog env' s l s' := by
  cases h with
  | call hactive hp hw => exact .call hactive hp (henv _ _ hw)
  | finish hactive hr => exact .finish hactive hr

theorem Step.call_world [DecidableEq Task] {wf : Workflow Task Act} {prog : Task → Prog Op ε α}
    {env : Env Op ε W} {s s' : Run Task Op ε α W} {t : Task} {ev : Event Op ε}
    (h : Step wf prog env s (some (t, ev)) s') : env s.world ev s'.world := by
  cases h with
  | call _ _ hw => exact hw

theorem Step.finish_world [DecidableEq Task] {wf : Workflow Task Act} {prog : Task → Prog Op ε α}
    {env : Env Op ε W} {s s' : Run Task Op ε α W} (h : Step wf prog env s none s') :
    s'.world = s.world := by
  cases h with
  | finish _ _ =>
    unfold Run.finish
    dsimp only
    split <;> rfl

/-- Executions of workflows, and the environment that they share. -/
structure Parallel (ι Task Act : Type) (Op : Type → Type) (ε α W : Type) where
  wf : ι → Workflow Task Act
  prog : ι → Task → Prog Op ε α
  env : Env Op ε W
  drift : W → W → Prop

/-- The environment, and each execution with the environment as it last saw it. -/
structure Shared (ι Task : Type) (Op : Type → Type) (ε α W : Type) where
  world : W
  runs : ι → Run Task Op ε α W

namespace Parallel

variable [DecidableEq ι] [DecidableEq Task]

inductive Step (S : Parallel ι Task Act Op ε α W) :
    Shared ι Task Op ε α W → Shared ι Task Op ε α W → Prop where
  | call {c : Shared ι Task Op ε α W} {i : ι} {t : Task} {ev : Event Op ε}
      {run : Run Task Op ε α W} :
      TaskGraph.Step (S.wf i) (S.prog i) (fun _ => S.env c.world) (c.runs i) (some (t, ev)) run →
      Step S c ⟨run.world, Function.update c.runs i run⟩
  | finish {c : Shared ι Task Op ε α W} {i : ι} {run : Run Task Op ε α W} :
      TaskGraph.Step (S.wf i) (S.prog i) (fun _ => S.env c.world) (c.runs i) none run →
      Step S c ⟨c.world, Function.update c.runs i run⟩
  | drift {c : Shared ι Task Op ε α W} {w : W} : S.drift c.world w → Step S c ⟨w, c.runs⟩

def init (S : Parallel ι Task Act Op ε α W) (w₀ : W) : Shared ι Task Op ε α W :=
  ⟨w₀, fun i => Run.init (S.wf i) (S.prog i) w₀⟩

inductive Reach (S : Parallel ι Task Act Op ε α W) (w₀ : W) : Shared ι Task Op ε α W → Prop where
  | init : Reach S w₀ (S.init w₀)
  | step {c c' : Shared ι Task Op ε α W} : Reach S w₀ c → Step S c c' → Reach S w₀ c'

/-- The next step of one execution, where the environment computes its answers. -/
def turn (S : Parallel ι Task Act Op ε α W) (sim : Simulator Op ε W) (c : Shared ι Task Op ε α W)
    (i : ι) : Shared ι Task Op ε α W :=
  let run := (c.runs i).tick (S.wf i) (S.prog i) fun _ => sim c.world
  match (c.runs i).label fun _ => sim c.world with
  | some _ => ⟨run.world, Function.update c.runs i run⟩
  | none => ⟨c.world, Function.update c.runs i run⟩

def turns (S : Parallel ι Task Act Op ε α W) (sim : Simulator Op ε W) (c : Shared ι Task Op ε α W)
    (is : List ι) : Shared ι Task Op ε α W :=
  is.foldl (S.turn sim) c

theorem turn_reach {S : Parallel ι Task Act Op ε α W} {sim : Simulator Op ε W} {w₀ : W}
    (hsim : ∀ w {τ : Type} (op : Op τ), S.env w ⟨op, (sim w op).1⟩ (sim w op).2)
    {c : Shared ι Task Op ε α W} (h : S.Reach w₀ c) (i : ι) : S.Reach w₀ (S.turn sim c i) := by
  by_cases hend : (c.runs i).active = []
  · have hlabel : ((c.runs i).label fun _ => sim c.world) = none := by
      unfold Run.label
      rw [hend]
    have htick : ((c.runs i).tick (S.wf i) (S.prog i) fun _ => sim c.world) = c.runs i := by
      unfold Run.tick
      rw [hend]
    have hsame : S.turn sim c i = c := by
      simp only [turn, hlabel, htick, Function.update_eq_self]
    rw [hsame]
    exact h
  · have hs : TaskGraph.Step (S.wf i) (S.prog i) (fun _ => S.env c.world) (c.runs i) _ _ :=
      Run.tick_step (fun _ => sim c.world) (fun _ _ op => hsim c.world op) hend
    simp only [turn]
    cases hl : (c.runs i).label fun _ => sim c.world with
    | none => rw [hl] at hs; exact h.step (.finish hs)
    | some x => rw [hl] at hs; exact h.step (.call hs)

theorem turns_reach {S : Parallel ι Task Act Op ε α W} {sim : Simulator Op ε W} {w₀ : W}
    (hsim : ∀ w {τ : Type} (op : Op τ), S.env w ⟨op, (sim w op).1⟩ (sim w op).2) (is : List ι) :
    ∀ {c : Shared ι Task Op ε α W}, S.Reach w₀ c → S.Reach w₀ (S.turns sim c is) := by
  induction is with
  | nil => exact fun h => h
  | cons i is ih => exact fun h => ih (turn_reach hsim h i)

end Parallel

/-- What the executions rely on, and what they guarantee one another. -/
structure RelyGuarantee [DecidableEq Task] (S : Parallel ι Task Act Op ε α W) where
  lanes : ∀ i, Lanes (S.wf i)
  sound : W → Prop
  rely : ι → W → W → Prop
  calls : ι → W → ∀ {τ : Type}, Op τ → Prop
  frame : W → W → Prop
  rely_refl : ∀ i w, rely i w w
  rely_trans : ∀ i u v w, rely i u v → rely i v w → rely i u w
  frame_refl : ∀ w, frame w w
  frame_trans : ∀ u v w, frame u v → frame v w → frame u w
  sound_rely : ∀ i w w', sound w → rely i w w' → sound w'
  calls_rely : ∀ i w w' {τ : Type} (op : Op τ), rely i w w' → calls i w op → calls i w' op
  allowed : ∀ i t w, sound w →
    (S.prog i t).wp (S.env.relying (rely i)) (calls i) (fun _ _ => True) w
  guarantee : ∀ i w ev w', sound w → calls i w ev.op → S.env w ev w' →
    sound w' ∧ frame w w' ∧ ∀ j, j ≠ i → rely j w w'
  drift : ∀ w w', sound w → S.drift w w' → sound w' ∧ frame w w' ∧ ∀ i, rely i w w'

namespace RelyGuarantee

variable [DecidableEq Task] {S : Parallel ι Task Act Op ε α W} (G : RelyGuarantee S) {i : ι} {w w' w₀ : W}

/-- The environment as an execution sees it. -/
abbrev env (i : ι) : Env Op ε W := S.env.relying (G.rely i)

theorem sound_step {u u' : W} {ev : Event Op ε} (hu : G.sound u) (hcall : G.calls i u ev.op)
    (h : G.env i u ev u') : G.sound u' := by
  obtain ⟨v, hrely, hev⟩ := h
  exact (G.guarantee i v ev u' (G.sound_rely i u v hu hrely) (G.calls_rely i u v ev.op hrely hcall)
    hev).1

theorem sound_steps {t : Task} {tr : List (Event Op ε)} {q : Prog Op ε α} (hw : G.sound w)
    (hsteps : Steps (S.prog i t) tr q) (hd : Drives (G.env i) w tr w') : G.sound w' :=
  wp_invariant (fun _ _ _ hu hcall hev => G.sound_step hu hcall hev) hsteps hd (G.allowed i t w hw) hw

theorem sound_chain {h : List (Record Task Op ε α W)} (hw : G.sound w)
    (hc : Chain (S.prog i) (G.env i) w h w') : G.sound w' :=
  hc.keeps (fun _ _ hran hsound => G.sound_steps hsound hran.steps hran.drives) hw

/-- The one active task of an execution, with all that is left of it. -/
theorem active_wp {s : Run Task Op ε α W} {a : Active Task Op ε α W} (hw : G.sound w₀)
    (h : TaskGraph.Reach (S.wf i) (S.prog i) (G.env i) w₀ s) (ha : a ∈ s.active) :
    G.sound s.world ∧ a.rest.wp (G.env i) (G.calls i) (fun _ _ => True) s.world := by
  have hgoing : ∀ b : Active Task Op ε α W, b.Going (S.prog i) (G.env i) s.world →
      Chain (S.prog i) (G.env i) w₀ s.history b.before →
      G.sound s.world ∧ b.rest.wp (G.env i) (G.calls i) (fun _ _ => True) s.world := by
    intro b hg hc
    have hbefore : G.sound b.before := G.sound_chain hw hc
    exact ⟨G.sound_steps hbefore hg.steps hg.drives,
      wp_steps hg.steps hg.drives (G.allowed i b.task b.before hbefore)⟩
  cases (G.lanes i).reach_shape h with
  | forward _ b _ hb _ _ hc hg =>
    rw [hb] at ha
    obtain rfl := List.mem_singleton.mp ha
    exact hgoing a hg hc
  | cleanup _ _ _ _ _ b _ hb _ _ _ _ _ hc hg =>
    rw [hb] at ha
    obtain rfl := List.mem_singleton.mp ha
    exact hgoing a hg hc
  | done hb => rw [hb] at ha; cases ha
  | stuck _ _ _ hb => rw [hb] at ha; cases ha
  | cleaned _ _ _ _ hb => rw [hb] at ha; cases ha

/-- The calls of an execution are the ones that it may make. -/
theorem call_allowed {env' : Env Op ε W} {s s' : Run Task Op ε α W} {t : Task} {ev : Event Op ε}
    (hw : G.sound w₀) (h : TaskGraph.Reach (S.wf i) (S.prog i) (G.env i) w₀ s)
    (hs : TaskGraph.Step (S.wf i) (S.prog i) env' s (some (t, ev)) s') :
    G.sound s.world ∧ G.calls i s.world ev.op := by
  cases hs with
  | @call l₁ l₂ a _ p w hactive hp _ =>
    have ha : a ∈ s.active := hactive ▸ List.mem_append_right l₁ List.mem_cons_self
    obtain ⟨hsound, hwp⟩ := G.active_wp hw h ha
    refine ⟨hsound, ?_⟩
    generalize hrest : a.rest = rest at hp hwp
    cases hp with
    | ret _ => exact hwp.1
    | raise => exact hwp.1

/-- What holds of executions over one environment. -/
structure Holds (w₀ : W) (c : Shared ι Task Op ε α W) : Prop where
  sound : G.sound c.world
  frame : G.frame w₀ c.world
  run : ∀ i, TaskGraph.Reach (S.wf i) (S.prog i) (G.env i) w₀ (c.runs i)
  rely : ∀ i, G.rely i (c.runs i).world c.world

theorem holds_init (hw : G.sound w₀) : G.Holds w₀ (S.init w₀) :=
  ⟨hw, G.frame_refl w₀, fun _ => .init, fun i => G.rely_refl i w₀⟩

variable [DecidableEq ι]

theorem holds_step {c c' : Shared ι Task Op ε α W} (hw : G.sound w₀) (h : G.Holds w₀ c)
    (hs : S.Step c c') : G.Holds w₀ c' := by
  cases hs with
  | @call i t ev run hstep =>
    have henv : S.env c.world ev run.world := hstep.call_world
    obtain ⟨_, hcall⟩ := G.call_allowed hw (h.run i) hstep
    obtain ⟨hsound, hframe, hothers⟩ := G.guarantee i c.world ev run.world h.sound
      (G.calls_rely i _ _ ev.op (h.rely i) hcall) henv
    have hrun : TaskGraph.Reach (S.wf i) (S.prog i) (G.env i) w₀ run :=
      (h.run i).step (hstep.mono fun _ _ hev => ⟨c.world, h.rely i, hev⟩)
    have hrely : ∀ j, j ≠ i → G.rely j (c.runs j).world run.world :=
      fun j hj => G.rely_trans j _ _ _ (h.rely j) (hothers j hj)
    exact ⟨hsound, G.frame_trans _ _ _ h.frame hframe,
      (Function.forall_update_iff c.runs fun j r =>
        TaskGraph.Reach (S.wf j) (S.prog j) (G.env j) w₀ r).mpr ⟨hrun, fun j _ => h.run j⟩,
      (Function.forall_update_iff c.runs fun j r => G.rely j r.world run.world).mpr
        ⟨G.rely_refl i _, hrely⟩⟩
  | @finish i run hstep =>
    have hrun : TaskGraph.Reach (S.wf i) (S.prog i) (G.env i) w₀ run :=
      (h.run i).step (hstep.mono fun _ _ hev => ⟨c.world, h.rely i, hev⟩)
    have hrely : G.rely i run.world c.world := hstep.finish_world ▸ h.rely i
    exact ⟨h.sound, h.frame,
      (Function.forall_update_iff c.runs fun j r =>
        TaskGraph.Reach (S.wf j) (S.prog j) (G.env j) w₀ r).mpr ⟨hrun, fun j _ => h.run j⟩,
      (Function.forall_update_iff c.runs fun j r => G.rely j r.world c.world).mpr
        ⟨hrely, fun j _ => h.rely j⟩⟩
  | drift hdrift =>
    obtain ⟨hsound, hframe, hall⟩ := G.drift _ _ h.sound hdrift
    exact ⟨hsound, G.frame_trans _ _ _ h.frame hframe, h.run,
      fun i => G.rely_trans i _ _ _ (h.rely i) (hall i)⟩

/-- **Each execution by itself**: in any interleaving an execution is a run of its workflow in the
environment that it relies on, and what has happened since its last call is within what it relies
on. -/
theorem reach {c : Shared ι Task Op ε α W} (hw : G.sound w₀) (h : S.Reach w₀ c) : G.Holds w₀ c := by
  induction h with
  | init => exact G.holds_init hw
  | step _ hs ih => exact G.holds_step hw ih hs

end RelyGuarantee

end TaskGraph
end KollaPowerOps
