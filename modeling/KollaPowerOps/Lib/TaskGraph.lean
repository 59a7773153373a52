import KollaPowerOps.Lib.Effect

/-!
# Lib.TaskGraph

Direct workflows: tasks joined by on-success, on-error and on-complete edges, as an engine runs
them.

* `Workflow` : the tasks in their written order, each with its action and its edges.
* `Run`      : what an engine knows of one execution: the tasks that are active, each with the
  calls it has made so far, and the tasks that have finished.
* `Step`     : one call of one active task, or the end of one task and the start of its
  successors. Several active tasks interleave call by call.
* `Reach`    : the states of an execution under an environment.

The engine command `fail` ends the execution at once. A task that ends in error and has no
on-error edge leaves an unhandled error, which fails the execution when nothing is active any more.
-/

namespace KollaPowerOps
namespace TaskGraph

open Effect

/-- What an edge names: a task, or the engine command `fail`. -/
inductive Command (Task : Type) where
  | task (t : Task)
  | fail
  deriving DecidableEq

structure TaskSpec (Task Act : Type) where
  action : Act
  onSuccess : List (Command Task) := []
  onError : List (Command Task) := []
  onComplete : List (Command Task) := []

structure Workflow (Task Act : Type) where
  tasks : List (Task × TaskSpec Task Act)

namespace Workflow

variable {Task Act : Type} [DecidableEq Task]

def spec? (wf : Workflow Task Act) (t : Task) : Option (TaskSpec Task Act) := wf.tasks.lookup t

/-- What the engine starts after a task has ended, with success or in error. -/
def successors (wf : Workflow Task Act) (t : Task) (ok : Bool) : List (Command Task) :=
  match wf.spec? t with
  | none => []
  | some s => (if ok then s.onSuccess else s.onError) ++ s.onComplete

/-- An error of this task does not by itself fail the execution. -/
def handlesError (wf : Workflow Task Act) (t : Task) : Bool :=
  match wf.spec? t with
  | none => false
  | some s => !s.onError.isEmpty

/-- The tasks that no edge names. -/
def starts (wf : Workflow Task Act) : List Task :=
  let named := wf.tasks.flatMap fun (_, s) => s.onSuccess ++ s.onError ++ s.onComplete
  (wf.tasks.map Prod.fst).filter fun t => !named.contains (.task t)

end Workflow

section Engine

variable {Task Act : Type} [DecidableEq Task] {Op : Type → Type} {ε α W : Type}

/-- A task under way: the state of the environment when it started, its calls so far, and the
rest of its action. -/
structure Active (Task : Type) (Op : Type → Type) (ε α W : Type) where
  task : Task
  before : W
  trace : List (Event Op ε)
  rest : Prog Op ε α

/-- A task that has ended. -/
structure Record (Task : Type) (Op : Type → Type) (ε α W : Type) where
  task : Task
  before : W
  trace : List (Event Op ε)
  result : Except ε α
  after : W

def Record.ok (r : Record Task Op ε α W) : Bool :=
  match r.result with
  | .ok _ => true
  | .error _ => false

structure Run (Task : Type) (Op : Type → Type) (ε α W : Type) where
  active : List (Active Task Op ε α W)
  history : List (Record Task Op ε α W)
  failed : Bool
  world : W

/-- Start the tasks that a list of commands names. -/
def spawn (prog : Task → Prog Op ε α) (w : W) (cmds : List (Command Task)) :
    List (Active Task Op ε α W) :=
  cmds.filterMap fun
    | .task t => some ⟨t, w, [], prog t⟩
    | .fail => none

/-- The state in which an execution starts. -/
def Run.init (wf : Workflow Task Act) (prog : Task → Prog Op ε α) (w : W) :
    Run Task Op ε α W :=
  ⟨spawn prog w (wf.starts.map .task), [], false, w⟩

/-- The execution has stopped. -/
def Run.ended (s : Run Task Op ε α W) : Prop := s.active = []

/-- The execution has stopped in the state ERROR. -/
def Run.error (wf : Workflow Task Act) (s : Run Task Op ε α W) : Prop :=
  s.ended ∧ (s.failed = true ∨ ∃ r ∈ s.history, r.ok = false ∧ wf.handlesError r.task = false)

/-- The run after task `r` has ended, with `rest` still active. -/
def Run.finish (wf : Workflow Task Act) (prog : Task → Prog Op ε α)
    (s : Run Task Op ε α W) (rest : List (Active Task Op ε α W))
    (r : Record Task Op ε α W) : Run Task Op ε α W :=
  let cmds := wf.successors r.task r.ok
  if .fail ∈ cmds then
    { s with active := [], history := s.history ++ [r], failed := true }
  else
    { s with active := rest ++ spawn prog s.world cmds, history := s.history ++ [r] }

/-- One step of an execution. A label names the task and the event of a call. -/
inductive Step (wf : Workflow Task Act) (prog : Task → Prog Op ε α) (env : Env Op ε W) :
    Run Task Op ε α W → Option (Task × Event Op ε) → Run Task Op ε α W → Prop where
  | call {s : Run Task Op ε α W} {l₁ l₂ : List (Active Task Op ε α W)}
      {a : Active Task Op ε α W} {ev : Event Op ε} {p : Prog Op ε α} {w : W} :
      s.active = l₁ ++ a :: l₂ → Steps a.rest [ev] p → env s.world ev w →
      Step wf prog env s (some (a.task, ev))
        { s with
          active := l₁ ++ { a with trace := a.trace ++ [ev], rest := p } :: l₂
          world := w }
  | finish {s : Run Task Op ε α W} {l₁ l₂ : List (Active Task Op ε α W)}
      {a : Active Task Op ε α W} {r : Except ε α} :
      s.active = l₁ ++ a :: l₂ → a.rest = .done r →
      Step wf prog env s none
        (s.finish wf prog (l₁ ++ l₂) ⟨a.task, a.before, a.trace, r, s.world⟩)

/-- The states an execution can reach from the environment state `w₀`. -/
inductive Reach (wf : Workflow Task Act) (prog : Task → Prog Op ε α) (env : Env Op ε W)
    (w₀ : W) : Run Task Op ε α W → Prop where
  | init : Reach wf prog env w₀ (Run.init wf prog w₀)
  | step {s s' : Run Task Op ε α W} {l : Option (Task × Event Op ε)} :
      Reach wf prog env w₀ s → Step wf prog env s l s' → Reach wf prog env w₀ s'

/-! ## The calls of an execution -/

/-- The calls that an execution has made. -/
def Run.events (s : Run Task Op ε α W) : List (Event Op ε) :=
  s.history.flatMap Record.trace ++ s.active.flatMap Active.trace

omit [DecidableEq Task] in
theorem Run.mem_events {s : Run Task Op ε α W} {ev : Event Op ε} :
    ev ∈ s.events ↔ (∃ r ∈ s.history, ev ∈ r.trace) ∨ ∃ a ∈ s.active, ev ∈ a.trace := by
  rw [Run.events, List.mem_append, List.mem_flatMap, List.mem_flatMap]

omit [DecidableEq Task] in
theorem spawn_trace {prog : Task → Prog Op ε α} {w : W} {cmds : List (Command Task)}
    {a : Active Task Op ε α W} (ha : a ∈ spawn prog w cmds) :
    a.trace = [] ∧ a.rest = prog a.task := by
  obtain ⟨cmd, _, hcmd⟩ := List.mem_filterMap.mp ha
  cases cmd with
  | task t => cases hcmd; exact ⟨rfl, rfl⟩
  | fail => cases hcmd

/-- The active tasks after a task has ended: others that were active, and new ones. -/
theorem Run.finish_active {wf : Workflow Task Act} {prog : Task → Prog Op ε α}
    {s : Run Task Op ε α W} {rest : List (Active Task Op ε α W)} {r : Record Task Op ε α W}
    {a : Active Task Op ε α W} (ha : a ∈ (s.finish wf prog rest r).active) :
    a ∈ rest ∨ a.trace = [] ∧ a.rest = prog a.task := by
  unfold Run.finish at ha
  dsimp only at ha
  split at ha
  · cases ha
  · rcases List.mem_append.mp ha with ha | ha
    · exact .inl ha
    · exact .inr (spawn_trace ha)

theorem Run.finish_history {wf : Workflow Task Act} {prog : Task → Prog Op ε α}
    {s : Run Task Op ε α W} {rest : List (Active Task Op ε α W)} {r : Record Task Op ε α W} :
    (s.finish wf prog rest r).history = s.history ++ [r] := by
  unfold Run.finish
  dsimp only
  split <;> rfl

/-- A step adds its own call to the calls of the execution, and nothing else. -/
theorem Step.events {wf : Workflow Task Act} {prog : Task → Prog Op ε α} {env : Env Op ε W}
    {s s' : Run Task Op ε α W} {l : Option (Task × Event Op ε)} (h : Step wf prog env s l s')
    {ev : Event Op ε} (hev : ev ∈ s'.events) : ev ∈ s.events ∨ ∃ t, l = some (t, ev) := by
  rw [Run.mem_events] at hev ⊢
  cases h with
  | @call l₁ l₂ a new p w hactive _ _ =>
    rcases hev with hhistory | ⟨b, hb, hev⟩
    · exact .inl (.inl hhistory)
    · rcases List.mem_append.mp hb with hb | hb
      · exact .inl (.inr ⟨b, hactive ▸ List.mem_append_left _ hb, hev⟩)
      · rcases List.mem_cons.mp hb with rfl | hb
        · rcases List.mem_append.mp hev with hev | hev
          · exact .inl (.inr ⟨a, hactive ▸ by simp, hev⟩)
          · rw [List.mem_singleton.mp hev]
            exact .inr ⟨a.task, rfl⟩
        · exact .inl (.inr ⟨b, hactive ▸ by simp [hb], hev⟩)
  | @finish l₁ l₂ a r hactive hr =>
    rcases hev with ⟨rec, hrec, hev⟩ | ⟨b, hb, hev⟩
    · rw [Run.finish_history] at hrec
      rcases List.mem_append.mp hrec with hrec | hrec
      · exact .inl (.inl ⟨rec, hrec, hev⟩)
      · rw [List.mem_singleton.mp hrec] at hev
        exact .inl (.inr ⟨a, hactive ▸ by simp, hev⟩)
    · rcases Run.finish_active hb with hb | ⟨hnew, _⟩
      · refine .inl (.inr ⟨b, ?_, hev⟩)
        rw [hactive]
        rcases List.mem_append.mp hb with hb | hb <;> simp [hb]
      · rw [hnew] at hev
        cases hev

/-- Every task has got to where it is by its own calls. -/
structure Run.Going (prog : Task → Prog Op ε α) (s : Run Task Op ε α W) : Prop where
  active : ∀ a ∈ s.active, Steps (prog a.task) a.trace a.rest
  history : ∀ r ∈ s.history, Steps (prog r.task) r.trace (.done r.result)

theorem Reach.going {wf : Workflow Task Act} {prog : Task → Prog Op ε α} {env : Env Op ε W}
    {w₀ : W} {s : Run Task Op ε α W} (h : Reach wf prog env w₀ s) : s.Going prog := by
  have hnew : ∀ {a : Active Task Op ε α W}, a.trace = [] ∧ a.rest = prog a.task →
      Steps (prog a.task) a.trace a.rest := by
    rintro a ⟨htrace, hrest⟩
    rw [htrace, hrest]
    exact .nil
  induction h with
  | init => exact ⟨fun a ha => hnew (spawn_trace ha), fun r hr => by cases hr⟩
  | step _ hs ih =>
    cases hs with
    | @call l₁ l₂ a ev p w hactive hp _ =>
      refine ⟨fun b hb => ?_, ih.history⟩
      rcases List.mem_append.mp hb with hb | hb
      · exact ih.active b (hactive ▸ List.mem_append_left _ hb)
      · rcases List.mem_cons.mp hb with rfl | hb
        · exact (ih.active a (hactive ▸ by simp)).trans hp
        · exact ih.active b (hactive ▸ by simp [hb])
    | @finish l₁ l₂ a r hactive hr =>
      have ha : Steps (prog a.task) a.trace (.done r) := hr ▸ ih.active a (hactive ▸ by simp)
      refine ⟨fun b hb => ?_, fun rec hrec => ?_⟩
      · rcases Run.finish_active hb with hb | hb
        · refine ih.active b ?_
          rw [hactive]
          rcases List.mem_append.mp hb with hb | hb <;> simp [hb]
        · exact hnew hb
      · rw [Run.finish_history] at hrec
        rcases List.mem_append.mp hrec with hrec | hrec
        · exact ih.history rec hrec
        · rw [List.mem_singleton.mp hrec]
          exact ha

/-- A call continues the calls that its task has made. -/
theorem Reach.call_steps {wf : Workflow Task Act} {prog : Task → Prog Op ε α} {env : Env Op ε W}
    {w₀ : W} {s s' : Run Task Op ε α W} {t : Task} {ev : Event Op ε}
    (h : Reach wf prog env w₀ s) (hs : Step wf prog env s (some (t, ev)) s') :
    ∃ tr p, Steps (prog t) (tr ++ [ev]) p ∧ ∀ old ∈ tr, old ∈ s.events := by
  cases hs with
  | @call l₁ l₂ a _ p w hactive hp _ =>
    have ha : a ∈ s.active := hactive ▸ by simp
    exact ⟨a.trace, p, (h.going.active a ha).trans hp, fun old hold =>
      Run.mem_events.mpr (.inr ⟨a, ha, hold⟩)⟩

/-! ## Running an execution -/

/-- What is left of a program after one call and its answer. -/
def answer {τ : Type} (k : τ → Prog Op ε α) : Except ε τ → Prog Op ε α
  | .ok a => k a
  | .error e => .done (.error e)

/-- The next step of the first active task. -/
def Run.tick (wf : Workflow Task Act) (prog : Task → Prog Op ε α) (sim : Simulator Op ε W)
    (s : Run Task Op ε α W) : Run Task Op ε α W :=
  match s.active with
  | [] => s
  | a :: rest =>
    match a.rest with
    | .done r => s.finish wf prog rest ⟨a.task, a.before, a.trace, r, s.world⟩
    | .call op k =>
      { s with
        active :=
          { a with
            trace := a.trace ++ [⟨op, (sim s.world op).1⟩]
            rest := answer k (sim s.world op).1 } :: rest
        world := (sim s.world op).2 }

/-- The label of that step. -/
def Run.label (sim : Simulator Op ε W) (s : Run Task Op ε α W) : Option (Task × Event Op ε) :=
  match s.active with
  | [] => none
  | a :: _ =>
    match a.rest with
    | .done _ => none
    | .call op _ => some (a.task, ⟨op, (sim s.world op).1⟩)

/-- Some steps of an execution. -/
def Run.ticks (wf : Workflow Task Act) (prog : Task → Prog Op ε α) (sim : Simulator Op ε W) :
    Nat → Run Task Op ε α W → Run Task Op ε α W
  | 0, s => s
  | n + 1, s => Run.ticks wf prog sim n (s.tick wf prog sim)

theorem Steps.answer {τ : Type} {op : Op τ} {k : τ → Prog Op ε α} (x : Except ε τ) :
    Steps (.call op k) [⟨op, x⟩] (answer k x) := by
  cases x with
  | ok a => exact .ret .nil
  | error e => exact .raise

theorem Run.tick_step {wf : Workflow Task Act} {prog : Task → Prog Op ε α} {env : Env Op ε W}
    (sim : Simulator Op ε W) {s : Run Task Op ε α W}
    (hsim : ∀ w {τ : Type} (op : Op τ), env w ⟨op, (sim w op).1⟩ (sim w op).2)
    (hact : s.active ≠ []) : Step wf prog env s (s.label sim) (s.tick wf prog sim) := by
  unfold Run.tick Run.label
  split
  · exact absurd ‹_› hact
  · rename_i a rest hactive
    have hfirst : s.active = [] ++ a :: rest := hactive
    split
    · rename_i r hr
      exact .finish hfirst hr
    · rename_i τ op k hcall
      have hsteps : Steps a.rest [⟨op, (sim s.world op).1⟩] (answer k (sim s.world op).1) := by
        rw [hcall]; exact Steps.answer _
      exact .call hfirst hsteps (hsim s.world op)

theorem Run.tick_reach {wf : Workflow Task Act} {prog : Task → Prog Op ε α} {env : Env Op ε W}
    {sim : Simulator Op ε W} {w₀ : W} {s : Run Task Op ε α W}
    (hsim : ∀ w {τ : Type} (op : Op τ), env w ⟨op, (sim w op).1⟩ (sim w op).2)
    (h : Reach wf prog env w₀ s) : Reach wf prog env w₀ (s.tick wf prog sim) := by
  by_cases hact : s.active = []
  · unfold Run.tick; rw [hact]; exact h
  · exact h.step (Run.tick_step sim hsim hact)

theorem Run.ticks_reach {wf : Workflow Task Act} {prog : Task → Prog Op ε α} {env : Env Op ε W}
    {sim : Simulator Op ε W} {w₀ : W}
    (hsim : ∀ w {τ : Type} (op : Op τ), env w ⟨op, (sim w op).1⟩ (sim w op).2) (n : Nat) :
    ∀ s : Run Task Op ε α W, Reach wf prog env w₀ s →
      Reach wf prog env w₀ (s.ticks wf prog sim n) := by
  induction n with
  | zero => exact fun _ h => h
  | succ n ih => exact fun s h => ih _ (Run.tick_reach hsim h)

end Engine

end TaskGraph
end KollaPowerOps
