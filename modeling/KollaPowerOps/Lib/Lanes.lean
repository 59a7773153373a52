import KollaPowerOps.Lib.TaskGraph

/-!
# Lib.Lanes

Workflows with one lane of successes and one lane of clean-up. Every task of the success lane
leads, when it succeeds, to the next one; when it fails, the execution ends there or moves over
to the clean-up lane, which it then runs to its end.

`Lanes` carries the shape of the edges, so that it is checked once for each workflow, by
evaluation. `Lanes.reach_shape` says what the state of any execution looks like: which tasks have
ended, in which order and how, and that each of them ran its action to the end, each from where
the one before it left the environment.
-/

namespace KollaPowerOps
namespace TaskGraph

open Effect

/-- The edges of `wf` form a success lane and a clean-up lane. -/
structure Lanes {Task Act : Type} [DecidableEq Task] (wf : Workflow Task Act) where
  spine : List Task
  tail : List Task
  nodup : (spine ++ tail).Nodup
  starts : wf.starts = spine.take 1
  spine_pos : 0 < spine.length
  forward : ∀ i (h : i < spine.length),
    wf.successors spine[i] true = (spine[i + 1]?).toList.map .task
  sideways : ∀ i (h : i < spine.length),
    wf.successors spine[i] false = [.fail] ∨ wf.successors spine[i] false = [] ∨
      wf.successors spine[i] false = (tail[0]?).toList.map .task
  cleanup : ∀ j (h : j < tail.length) (ok : Bool),
    wf.successors tail[j] ok = match tail[j + 1]? with | some t => [.task t] | none => [.fail]

section

variable {Task : Type} {Op : Type → Type} {ε α W : Type} {prog : Task → Prog Op ε α}
  {env : Env Op ε W}

/-- The record starts in `w` and ran its action to the end. -/
structure Record.Ran (prog : Task → Prog Op ε α) (env : Env Op ε W)
    (r : Record Task Op ε α W) (w : W) : Prop where
  before : r.before = w
  steps : Steps (prog r.task) r.trace (.done r.result)
  drives : Drives env w r.trace r.after

/-- The records follow one another from `w` to `w'`. -/
def Chain (prog : Task → Prog Op ε α) (env : Env Op ε W) (w : W) :
    List (Record Task Op ε α W) → W → Prop
  | [], w' => w' = w
  | r :: h, w' => r.Ran prog env w ∧ Chain prog env r.after h w'

theorem chain_append {h₁ h₂ : List (Record Task Op ε α W)} {w w' : W} :
    Chain prog env w (h₁ ++ h₂) w' ↔ ∃ u, Chain prog env w h₁ u ∧ Chain prog env u h₂ w' := by
  induction h₁ generalizing w with
  | nil => simp [Chain]
  | cons r h₁ ih => simp only [List.cons_append, Chain, ih]; grind

theorem Chain.ran {h : List (Record Task Op ε α W)} {w w' : W}
    (hc : Chain prog env w h w') : ∀ r ∈ h, r.Ran prog env r.before := by
  induction h generalizing w with
  | nil => simp
  | cons r h ih =>
    obtain ⟨hr, hc⟩ := hc
    refine List.forall_mem_cons.mpr ⟨?_, ih hc⟩
    rw [hr.before]; exact hr

/-- A property of the environment that every record of a chain keeps. -/
theorem Chain.keeps {I : W → Prop} {h : List (Record Task Op ε α W)} {w w' : W}
    (hc : Chain prog env w h w') (hI : ∀ r ∈ h, r.Ran prog env r.before → I r.before → I r.after)
    (hw : I w) : I w' := by
  induction h generalizing w with
  | nil => rw [show w' = w from hc]; exact hw
  | cons r h ih =>
    obtain ⟨hr, hc⟩ := hc
    have hb := hr.before
    refine ih hc (fun r' hr' => hI r' (List.mem_cons_of_mem _ hr')) ?_
    exact hI r List.mem_cons_self (by rw [hb]; exact hr) (by rw [hb]; exact hw)

/-- A property that one record of a chain brings about and the later ones keep. -/
theorem Chain.establishes {I : W → Prop} {h₁ h₂ : List (Record Task Op ε α W)}
    {r : Record Task Op ε α W} {w w' : W} (hc : Chain prog env w (h₁ ++ r :: h₂) w')
    (hr : r.Ran prog env r.before → I r.after)
    (hI : ∀ r' ∈ h₂, r'.Ran prog env r'.before → I r'.before → I r'.after) : I w' := by
  have hran := hc.ran r (by simp)
  obtain ⟨u, _, _, hc₂⟩ := chain_append.mp hc
  exact hc₂.keeps hI (hr hran)

/-- The task has got from its action to `a.rest` by the calls of its trace. -/
structure Active.Going (prog : Task → Prog Op ε α) (env : Env Op ε W)
    (a : Active Task Op ε α W) (w : W) : Prop where
  steps : Steps (prog a.task) a.trace a.rest
  drives : Drives env a.before a.trace w

theorem Active.Going.start (t : Task) (w : W) :
    Active.Going prog env (⟨t, w, [], prog t⟩ : Active Task Op ε α W) w :=
  ⟨.nil, .nil⟩

theorem Active.Going.call {a : Active Task Op ε α W} {w w' : W} {ev : Event Op ε}
    {p : Prog Op ε α} (h : a.Going prog env w) (hp : Steps a.rest [ev] p)
    (hw : env w ev w') :
    Active.Going prog env { a with trace := a.trace ++ [ev], rest := p } w' :=
  ⟨h.steps.trans hp, h.drives.snoc hw⟩

theorem Active.Going.finish {a : Active Task Op ε α W} {w₀ w : W} {r : Except ε α}
    {h : List (Record Task Op ε α W)} (hc : Chain prog env w₀ h a.before)
    (ha : a.Going prog env w) (hr : a.rest = .done r) :
    Chain prog env w₀ (h ++ [⟨a.task, a.before, a.trace, r, w⟩]) w := by
  have hsteps := ha.steps
  rw [hr] at hsteps
  exact chain_append.mpr ⟨a.before, hc, ⟨rfl, hsteps, ha.drives⟩, rfl⟩

end

namespace Lanes

variable {Task Act : Type} [DecidableEq Task] {Op : Type → Type} {ε α W : Type}
  {wf : Workflow Task Act} {prog : Task → Prog Op ε α} {env : Env Op ε W} {w₀ : W}

/-- The first `i` tasks of the success lane have ended with success. -/
structure Passed (L : Lanes wf) (i : Nat) (h : List (Record Task Op ε α W)) : Prop where
  tasks : h.map (·.task) = L.spine.take i
  ok : ∀ r ∈ h, r.ok = true

/-- Task `i` of the success lane has ended in error after the ones before it succeeded. -/
structure Broke (L : Lanes wf) (i : Nat) (good : List (Record Task Op ε α W))
    (bad : Record Task Op ε α W) : Prop where
  passed : L.Passed i good
  task : L.spine[i]? = some bad.task
  error : bad.ok = false

/-- What the state of an execution looks like. -/
inductive Shape (L : Lanes wf) (prog : Task → Prog Op ε α) (env : Env Op ε W) (w₀ : W)
    (s : Run Task Op ε α W) : Prop where
  | forward (i : Nat) (a : Active Task Op ε α W) :
      L.spine[i]? = some a.task → s.active = [a] → s.failed = false → L.Passed i s.history →
      Chain prog env w₀ s.history a.before → a.Going prog env s.world → Shape L prog env w₀ s
  | done :
      s.active = [] → s.failed = false → L.Passed L.spine.length s.history →
      Chain prog env w₀ s.history s.world → Shape L prog env w₀ s
  | stuck (i : Nat) (good : List (Record Task Op ε α W)) (bad : Record Task Op ε α W) :
      s.active = [] → s.history = good ++ [bad] → L.Broke i good bad →
      (s.failed = true ∧ wf.successors bad.task false = [.fail] ∨
        s.failed = false ∧ wf.successors bad.task false = []) →
      Chain prog env w₀ s.history s.world → Shape L prog env w₀ s
  | cleanup (i j : Nat) (good later : List (Record Task Op ε α W))
      (bad : Record Task Op ε α W) (a : Active Task Op ε α W) :
      L.tail[j]? = some a.task → s.active = [a] → s.failed = false →
      s.history = good ++ bad :: later → L.Broke i good bad →
      wf.successors bad.task false = (L.tail[0]?).toList.map .task →
      later.map (·.task) = L.tail.take j →
      Chain prog env w₀ s.history a.before → a.Going prog env s.world → Shape L prog env w₀ s
  | cleaned (i : Nat) (good later : List (Record Task Op ε α W))
      (bad : Record Task Op ε α W) :
      s.active = [] → s.failed = true → s.history = good ++ bad :: later → L.Broke i good bad →
      wf.successors bad.task false = (L.tail[0]?).toList.map .task →
      later.map (·.task) = L.tail → Chain prog env w₀ s.history s.world → Shape L prog env w₀ s

theorem Passed.snoc {L : Lanes wf} {i : Nat} {h : List (Record Task Op ε α W)}
    {r : Record Task Op ε α W} (hp : L.Passed i h) (ht : L.spine[i]? = some r.task)
    (hr : r.ok = true) : L.Passed (i + 1) (h ++ [r]) := by
  constructor
  · rw [List.map_append, hp.tasks, List.take_add_one, ht]; rfl
  · intro r' hr'
    rcases List.mem_append.mp hr' with hr' | hr'
    · exact hp.ok r' hr'
    · rw [List.mem_singleton] at hr'; rw [hr']; exact hr

omit [DecidableEq Task] in
/-- The only active task is the one a step can be about. -/
theorem active_single {a a' : Active Task Op ε α W} {l₁ l₂ : List (Active Task Op ε α W)}
    (h : [a] = l₁ ++ a' :: l₂) : l₁ = [] ∧ l₂ = [] ∧ a' = a := by
  cases l₁ with
  | nil => simp only [List.nil_append, List.cons.injEq] at h; exact ⟨rfl, h.2.symm, h.1.symm⟩
  | cons b l₁ => simp at h

theorem shape_init (L : Lanes wf) : L.Shape prog env w₀ (Run.init wf prog w₀) := by
  obtain ⟨t, hs⟩ : ∃ t, L.spine[0]? = some t :=
    ⟨L.spine.get ⟨0, L.spine_pos⟩, List.getElem?_eq_getElem L.spine_pos⟩
  refine .forward 0 ⟨t, w₀, [], prog t⟩ hs ?_ rfl ⟨by simp [Run.init], by simp [Run.init]⟩ rfl
    (.start t w₀)
  have htake : L.spine.take 1 = [t] := by rw [List.take_add_one, hs]; rfl
  simp [Run.init, L.starts, htake, spawn]

/-- How a task of the success lane that ends moves the execution on. -/
theorem shape_forward_finish (L : Lanes wf) {i : Nat} {a : Active Task Op ε α W}
    {s : Run Task Op ε α W} {r : Except ε α} (hi : L.spine[i]? = some a.task)
    (hf : s.failed = false) (hp : L.Passed i s.history)
    (hc : Chain prog env w₀ s.history a.before) (hg : a.Going prog env s.world)
    (hr : a.rest = .done r) :
    L.Shape prog env w₀ (s.finish wf prog [] ⟨a.task, a.before, a.trace, r, s.world⟩) := by
  have hc' := hg.finish hc hr
  obtain ⟨hlt, hget⟩ := List.getElem?_eq_some_iff.mp hi
  generalize hrec : (⟨a.task, a.before, a.trace, r, s.world⟩ : Record Task Op ε α W) = rec at hc' ⊢
  have htask : rec.task = a.task := by rw [← hrec]
  have hi' : L.spine[i]? = some rec.task := by rw [htask]; exact hi
  cases hok : rec.ok with
  | true =>
    have hsucc : wf.successors rec.task rec.ok = (L.spine[i + 1]?).toList.map .task := by
      rw [hok, htask, ← hget]; exact L.forward i hlt
    have hp' := hp.snoc hi' hok
    cases hn : L.spine[i + 1]? with
    | some t =>
      rw [hn] at hsucc
      refine .forward (i + 1) ⟨t, s.world, [], prog t⟩ hn ?_ ?_ ?_ ?_ ?_
      all_goals simp only [Run.finish, hsucc]
      all_goals simp [spawn, hf, hp', hc', Active.Going.start]
    | none =>
      rw [hn] at hsucc
      have hlen : i + 1 = L.spine.length := by
        have := List.getElem?_eq_none_iff.mp hn; omega
      rw [hlen] at hp'
      refine .done ?_ ?_ ?_ ?_
      all_goals simp only [Run.finish, hsucc]
      all_goals simp [spawn, hf, hp', hc']
  | false =>
    have hb : L.Broke i s.history rec := ⟨hp, hi', hok⟩
    have hside := L.sideways i hlt
    rw [hget, ← htask, ← hok] at hside
    rcases hside with hs | hs | hs
    · refine .stuck i s.history rec ?_ ?_ hb (.inl ⟨?_, by rw [← hok]; exact hs⟩) ?_
      all_goals simp only [Run.finish, hs]
      all_goals simp [hc']
    · refine .stuck i s.history rec ?_ ?_ hb (.inr ⟨?_, by rw [← hok]; exact hs⟩) ?_
      all_goals simp only [Run.finish, hs]
      all_goals simp [spawn, hf, hc']
    · cases hn : L.tail[0]? with
      | some t =>
        have hs' := hs
        rw [hn] at hs'
        refine .cleanup i 0 s.history [] rec ⟨t, s.world, [], prog t⟩ hn ?_ ?_ ?_ hb
          (by rw [← hok]; exact hs) (by simp) ?_ ?_
        all_goals simp only [Run.finish, hs']
        all_goals simp [spawn, hf, hc', Active.Going.start]
      | none =>
        rw [hn] at hs
        refine .stuck i s.history rec ?_ ?_ hb (.inr ⟨?_, by rw [← hok]; exact hs⟩) ?_
        all_goals simp only [Run.finish, hs]
        all_goals simp [spawn, hf, hc']

/-- How a task of the clean-up lane that ends, however it ends, moves the execution on. -/
theorem shape_cleanup_finish (L : Lanes wf) {i j : Nat} {good later : List (Record Task Op ε α W)}
    {bad : Record Task Op ε α W} {a : Active Task Op ε α W} {s : Run Task Op ε α W}
    {r : Except ε α} (hj : L.tail[j]? = some a.task) (hf : s.failed = false)
    (hh : s.history = good ++ bad :: later) (hb : L.Broke i good bad)
    (hs : wf.successors bad.task false = (L.tail[0]?).toList.map .task)
    (hl : later.map (·.task) = L.tail.take j) (hc : Chain prog env w₀ s.history a.before)
    (hg : a.Going prog env s.world) (hr : a.rest = .done r) :
    L.Shape prog env w₀ (s.finish wf prog [] ⟨a.task, a.before, a.trace, r, s.world⟩) := by
  have hc' := hg.finish hc hr
  obtain ⟨hlt, hget⟩ := List.getElem?_eq_some_iff.mp hj
  generalize hrec : (⟨a.task, a.before, a.trace, r, s.world⟩ : Record Task Op ε α W) = rec at hc' ⊢
  have htask : rec.task = a.task := by rw [← hrec]
  have hl' : (later ++ [rec]).map (·.task) = L.tail.take (j + 1) := by
    rw [List.map_append, hl, List.take_add_one, hj, ← htask]; rfl
  have hh' : s.history ++ [rec] = good ++ bad :: (later ++ [rec]) := by simp [hh]
  have hsucc := L.cleanup j hlt rec.ok
  rw [hget, ← htask] at hsucc
  cases hn : L.tail[j + 1]? with
  | some t =>
    rw [hn] at hsucc
    refine .cleanup i (j + 1) good (later ++ [rec]) bad ⟨t, s.world, [], prog t⟩ hn ?_ ?_ ?_ hb hs
      hl' ?_ ?_
    all_goals simp only [Run.finish, hsucc]
    all_goals simp [spawn, hf, hc', ← hh', Active.Going.start]
  | none =>
    rw [hn] at hsucc
    have hlen : j + 1 = L.tail.length := by
      have := List.getElem?_eq_none_iff.mp hn; omega
    rw [hlen, List.take_length] at hl'
    refine .cleaned i good (later ++ [rec]) bad ?_ ?_ ?_ hb hs hl' ?_
    all_goals simp only [Run.finish, hsucc]
    all_goals simp [hc', ← hh']

theorem shape_step (L : Lanes wf) {s s' : Run Task Op ε α W}
    {l : Option (Task × Event Op ε)} (h : L.Shape prog env w₀ s)
    (hs : Step wf prog env s l s') : L.Shape prog env w₀ s' := by
  cases hs with
  | @call l₁ l₂ a' ev p w hact hp hw =>
    cases h with
    | forward i a hi ha hf hpass hc hg =>
      obtain ⟨rfl, rfl, rfl⟩ := active_single (ha.symm.trans hact)
      exact .forward i { a' with trace := a'.trace ++ [ev], rest := p } hi rfl hf hpass hc
        (hg.call hp hw)
    | cleanup i j good later bad a hj ha hf hh hb hsucc hl hc hg =>
      obtain ⟨rfl, rfl, rfl⟩ := active_single (ha.symm.trans hact)
      exact .cleanup i j good later bad { a' with trace := a'.trace ++ [ev], rest := p } hj rfl hf hh
        hb hsucc hl hc (hg.call hp hw)
    | done ha => simp [ha] at hact
    | stuck _ _ _ ha => simp [ha] at hact
    | cleaned _ _ _ _ ha => simp [ha] at hact
  | @finish l₁ l₂ a' r hact hr =>
    cases h with
    | forward i a hi ha hf hpass hc hg =>
      obtain ⟨rfl, rfl, rfl⟩ := active_single (ha.symm.trans hact)
      exact L.shape_forward_finish hi hf hpass hc hg hr
    | cleanup i j good later bad a hj ha hf hh hb hsucc hl hc hg =>
      obtain ⟨rfl, rfl, rfl⟩ := active_single (ha.symm.trans hact)
      exact L.shape_cleanup_finish hj hf hh hb hsucc hl hc hg hr
    | done ha => simp [ha] at hact
    | stuck _ _ _ ha => simp [ha] at hact
    | cleaned _ _ _ _ ha => simp [ha] at hact

theorem reach_shape (L : Lanes wf) {s : Run Task Op ε α W}
    (h : Reach wf prog env w₀ s) : L.Shape prog env w₀ s := by
  induction h with
  | init => exact L.shape_init
  | step _ hs ih => exact L.shape_step ih hs

/-! ## What a call tells about the run before it -/

/-- A call of a success-lane task: the tasks before it all ended with success. -/
structure CallForward (L : Lanes wf) (prog : Task → Prog Op ε α) (env : Env Op ε W)
    (w₀ : W) (s : Run Task Op ε α W) (t : Task) (i : Nat) : Prop where
  task : L.spine[i]? = some t
  passed : L.Passed i s.history
  chain : ∃ w, Chain prog env w₀ s.history w

/-- A call of a clean-up task: some task of the success lane has ended in error. -/
structure CallCleanup (L : Lanes wf) (prog : Task → Prog Op ε α) (env : Env Op ε W)
    (w₀ : W) (s : Run Task Op ε α W) (t : Task) (i j : Nat) : Prop where
  task : L.tail[j]? = some t
  broke : ∃ good bad later, s.history = good ++ bad :: later ∧ L.Broke i good bad ∧
    wf.successors bad.task false = (L.tail[0]?).toList.map .task
  chain : ∃ w, Chain prog env w₀ s.history w

theorem reach_call (L : Lanes wf) {s s' : Run Task Op ε α W} {t : Task}
    {ev : Event Op ε} (h : Reach wf prog env w₀ s) (hs : Step wf prog env s (some (t, ev)) s') :
    (∃ tr p, Steps (prog t) (tr ++ [ev]) p) ∧
      ((∃ i, L.CallForward prog env w₀ s t i) ∨ ∃ i j, L.CallCleanup prog env w₀ s t i j) := by
  cases hs with
  | @call l₁ l₂ a' _ p w hact hp hw =>
    cases L.reach_shape h with
    | forward i a hi ha hf hpass hc hg =>
      obtain ⟨rfl, rfl, rfl⟩ := active_single (ha.symm.trans hact)
      exact ⟨⟨_, p, hg.steps.trans hp⟩, .inl ⟨i, hi, hpass, _, hc⟩⟩
    | cleanup i j good later bad a hj ha hf hh hb hsucc hl hc hg =>
      obtain ⟨rfl, rfl, rfl⟩ := active_single (ha.symm.trans hact)
      exact ⟨⟨_, p, hg.steps.trans hp⟩, .inr ⟨i, j, hj, ⟨good, bad, later, hh, hb, hsucc⟩, _, hc⟩⟩
    | done ha => simp [ha] at hact
    | stuck _ _ _ ha => simp [ha] at hact
    | cleaned _ _ _ _ ha => simp [ha] at hact

end Lanes

end TaskGraph
end KollaPowerOps
