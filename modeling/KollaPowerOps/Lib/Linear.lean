import Mathlib.Data.List.Induction
import Mathlib.Data.List.Perm.Subperm
import Mathlib.Logic.Function.Basic

/-!
# Lib.Linear

The linear strategy of a play: a task runs on all its hosts, in any order, before the next task
starts; a host on which a task fails leaves the play.

* `Groups`     : the groups that `group_by` fills while the play is running.
* `Notices`    : what was notified on which host.
* `Block`      : tasks that are included together. The condition of the block is decided once, for
  every host, when the block is reached; the condition of a task when the task is reached.
* `Moment`     : the states a run of the play goes through.
* `Always`     : what holds at every moment, with one rule for tasks and one for blocks.
-/

namespace KollaPowerOps
namespace Linear

variable {H σ : Type} [DecidableEq H]

/-- The hosts of a group stand in the order they were added; a group without hosts is not defined. -/
abbrev Groups (K H : Type) := K → List H

namespace Groups

variable {K : Type} [DecidableEq K]

def none : Groups K H := fun _ => []

/-- `group_by`. -/
def add (g : Groups K H) (key : K) (h : H) : Groups K H := Function.update g key (g key ++ [h])

omit [DecidableEq H] in
theorem mem_add {g : Groups K H} {key key' : K} {h x : H} :
    x ∈ g.add key h key' ↔ x ∈ g key' ∨ key' = key ∧ x = h := by
  rw [add]
  by_cases hkey : key' = key
  · subst hkey
    simp
  · rw [Function.update_of_ne hkey]
    simp [hkey]

omit [DecidableEq H] in
@[simp] theorem add_of_ne (g : Groups K H) {key key' : K} (hne : key' ≠ key) (h : H) :
    g.add key h key' = g key' := Function.update_of_ne hne ..

omit [DecidableEq H] in
@[simp] theorem add_self (g : Groups K H) (key : K) (h : H) : g.add key h key = g key ++ [h] :=
  Function.update_self ..

end Groups

/-- The handlers, or topics of handlers, that were notified on a host. -/
abbrev Notices (T H : Type) := T → H → Bool

namespace Notices

variable {T : Type} [DecidableEq T]

def none : Notices T H := fun _ _ => false

def notify (n : Notices T H) (topic : T) (h : H) : Notices T H :=
  Function.update n topic (Function.update (n topic) h true)

theorem notify_iff {n : Notices T H} {topic topic' : T} {h x : H} :
    n.notify topic h topic' x = true ↔ n topic' x = true ∨ topic' = topic ∧ x = h := by
  rw [notify]
  by_cases htopic : topic' = topic
  · subst htopic
    by_cases hx : x = h
    · simp [hx]
    · simp [hx]
  · rw [Function.update_of_ne htopic]
    simp [htopic]

/-- Nothing listens to the other topics. -/
theorem notify_quiet {n : Notices T H} {topic topic' : T} (hne : topic' ≠ topic) {h x : H}
    (hquiet : n topic' x = false) : n.notify topic h topic' x = false := by
  rw [Bool.eq_false_iff, Ne, notify_iff, hquiet]
  simp [hne]

end Notices

/-- The hosts that are still in the play, and what the tasks read and change. -/
structure Play (H σ : Type) where
  active : List H
  state : σ

/-- `run` is what the task does on a host, whether it succeeds there or not. -/
structure Task (H σ : Type) where
  when : σ → H → Bool := fun _ _ => true
  run : H → σ → σ
  succeeds : σ → H → Bool := fun _ _ => true
  anyErrorsFatal : Bool := false

structure Block (H σ : Type) where
  when : σ → H → Bool := fun _ _ => true
  tasks : List (Task H σ)

namespace Task

variable (t : Task H σ)

def selected (p : Play H σ) : List H := p.active.filter (t.when p.state)

def after (p : Play H σ) (h : H) : Play H σ where
  active := if t.succeeds p.state h then p.active else p.active.filter (· ≠ h)
  state := t.run h p.state

/-- The task has run on these hosts, in this order. -/
def perform (p : Play H σ) (done : List H) : Play H σ := done.foldl t.after p

/-- The task has run on all its hosts. -/
def finish (p : Play H σ) (done : List H) : Play H σ :=
  if t.anyErrorsFatal ∧ (t.perform p done).active ≠ p.active then
    { t.perform p done with active := [] }
  else t.perform p done

theorem perform_snoc (p : Play H σ) (done : List H) (h : H) :
    t.perform p (done ++ [h]) = t.after (t.perform p done) h := by
  rw [perform, List.foldl_append]
  rfl

/-- The task where it is included for some hosts only. -/
def on (hosts : List H) : Task H σ := { t with when := fun s h => hosts.contains h && t.when s h }

/-- The task in a block with a condition, which is decided again for every task. -/
def within (cond : σ → H → Bool) : Task H σ := { t with when := fun s h => cond s h && t.when s h }

omit [DecidableEq H] in
theorem selected_all {p : Play H σ} (hwhen : ∀ s h, t.when s h = true) : t.selected p = p.active :=
  List.filter_eq_self.mpr fun h _ => hwhen p.state h

variable {t} in
theorem mem_selected_on {hosts : List H} {p : Play H σ} {h : H} :
    h ∈ (t.on hosts).selected p ↔ h ∈ p.active ∧ h ∈ hosts ∧ t.when p.state h = true := by
  rw [selected, List.mem_filter, on, Bool.and_eq_true, List.contains_iff_mem]

end Task

def Block.selected (b : Block H σ) (p : Play H σ) : List H := p.active.filter (b.when p.state)

def Block.enter (b : Block H σ) (p : Play H σ) : List (Task H σ) :=
  b.tasks.map (Task.on · (b.selected p))

/-- `Moment ts bs p m`: play `p`, with the tasks `ts` and then the blocks `bs` to come, can be seen
as `m`. -/
inductive Moment : List (Task H σ) → List (Block H σ) → Play H σ → Play H σ → Prop where
  | now {ts : List (Task H σ)} {bs : List (Block H σ)} {p : Play H σ} : Moment ts bs p p
  | during {t : Task H σ} {ts : List (Task H σ)} {bs : List (Block H σ)} {p : Play H σ}
      {done : List H} : done.Subperm (t.selected p) → Moment (t :: ts) bs p (t.perform p done)
  | next {t : Task H σ} {ts : List (Task H σ)} {bs : List (Block H σ)} {p m : Play H σ}
      {done : List H} : done.Perm (t.selected p) → Moment ts bs (t.finish p done) m →
      Moment (t :: ts) bs p m
  | enter {b : Block H σ} {bs : List (Block H σ)} {p m : Play H σ} :
      Moment (b.enter p) bs p m → Moment [] (b :: bs) p m

/-- The safety predicate holds at every moment from here on. -/
def Always (Safe : Play H σ → Prop) (ts : List (Task H σ)) (bs : List (Block H σ))
    (p : Play H σ) : Prop := ∀ m, Moment ts bs p m → Safe m

section Rules

variable {Safe : Play H σ → Prop} {t : Task H σ} {ts : List (Task H σ)} {b : Block H σ}
  {bs : List (Block H σ)} {p : Play H σ}

theorem always_nil (h : Safe p) : Always Safe [] [] p := by
  intro m hm
  cases hm
  exact h

theorem always_enter (h : Always Safe (b.enter p) bs p) : Always Safe [] (b :: bs) p := by
  intro m hm
  cases hm with
  | now => exact h p .now
  | enter hm => exact h m hm

/-- `J` holds of the hosts a task has run on and the play it has made of them. -/
theorem perform_induct {J : List H → Play H σ → Prop} (hstart : J [] p)
    (hstep : ∀ done h q, h ∈ t.selected p → h ∉ done → J done q → J (done ++ [h]) (t.after q h))
    {done : List H} (hdone : done.Nodup) (hsub : ∀ h ∈ done, h ∈ t.selected p) :
    J done (t.perform p done) := by
  induction done using List.reverseRecOn with
  | nil => exact hstart
  | append_singleton done h ih =>
    rw [Task.perform_snoc]
    have hnot : h ∉ done := fun hmem => (List.nodup_append.mp hdone).2.2 h hmem h
      (List.mem_singleton.mpr rfl) rfl
    refine hstep done h _ (hsub h (by simp)) hnot ?_
    exact ih (List.nodup_append.mp hdone).1 fun x hx => hsub x (List.mem_append_left _ hx)

/-- What holds while a task is running on its hosts, and what it leaves for the next. -/
theorem always_task (hnodup : p.active.Nodup)
    (hsafe : ∀ done, done.Nodup → (∀ h ∈ done, h ∈ t.selected p) → Safe (t.perform p done))
    (hnext : ∀ done, done.Perm (t.selected p) → Always Safe ts bs (t.finish p done)) :
    Always Safe (t :: ts) bs p := by
  intro m hm
  have hsel : (t.selected p).Nodup := hnodup.filter _
  cases hm with
  | now => exact hsafe [] List.nodup_nil (by simp)
  | during hdone =>
    obtain ⟨l, hperm, hsub⟩ := hdone
    have hl : l.Nodup := hsel.sublist hsub
    exact hsafe _ (hperm.nodup_iff.mp hl) fun h hh => hsub.subset (hperm.mem_iff.mpr hh)
  | next hdone hm => exact hnext _ hdone m hm

/-- A task that runs on no host changes nothing. -/
theorem always_idle (hidle : t.selected p = []) (h : Always Safe ts bs p) :
    Always Safe (t :: ts) bs p := by
  have hfinish : t.finish p [] = p := by simp [Task.finish, Task.perform]
  intro m hm
  cases hm with
  | now => exact h p .now
  | during hdone =>
    rw [hidle] at hdone
    rw [List.subperm_nil.mp hdone]
    exact h p .now
  | next hdone hm =>
    rw [hidle] at hdone
    rw [List.perm_nil.mp hdone, hfinish] at hm
    exact h m hm

theorem idle_on {l : List H} (hl : l = []) (t : Task H σ) (p : Play H σ) :
    (t.on l).selected p = [] := by
  simp [Task.selected, Task.on, hl]

/-- So does a block that is included for no host. -/
theorem always_skip (hidle : b.selected p = []) (h : Always Safe [] bs p) :
    Always Safe [] (b :: bs) p := by
  refine always_enter ?_
  have hall : ∀ ts : List (Task H σ), Always Safe (ts.map (Task.on · (b.selected p))) bs p := by
    intro ts
    induction ts with
    | nil => exact h
    | cons t ts ih => exact always_idle (idle_on hidle t p) ih
  exact hall b.tasks

/-- Nothing happens any more in a play that has stopped. -/
theorem always_stopped {s : σ} (h : Safe ⟨[], s⟩) : Always Safe [] bs ⟨[], s⟩ := by
  induction bs with
  | nil => exact always_nil h
  | cons b bs ih => exact always_skip rfl ih

/-- What a task has done on some of its hosts, if it succeeds on each of them. -/
theorem perform_fine {J : List H → σ → Prop}
    (hok : ∀ done h s, h ∈ t.selected p → h ∉ done → J done s → t.succeeds s h = true)
    (hstart : J [] p.state)
    (hstep : ∀ done h s, h ∈ t.selected p → h ∉ done → J done s → J (done ++ [h]) (t.run h s))
    {done : List H} (hdone : done.Nodup) (hsub : ∀ h ∈ done, h ∈ t.selected p) :
    (t.perform p done).active = p.active ∧ J done (t.perform p done).state := by
  refine perform_induct (J := fun done q => q.active = p.active ∧ J done q.state)
    ⟨rfl, hstart⟩ ?_ hdone hsub
  intro done h q hh hnot hq
  refine ⟨?_, hstep done h q.state hh hnot hq.2⟩
  rw [Task.after, hok done h q.state hh hnot hq.2, if_pos rfl]
  exact hq.1

theorem perform_run {J : List H → σ → Prop} (hok : ∀ s h, t.succeeds s h = true)
    (hstart : J [] p.state)
    (hstep : ∀ done h s, h ∈ t.selected p → h ∉ done → J done s → J (done ++ [h]) (t.run h s))
    {done : List H} (hdone : done.Nodup) (hsub : ∀ h ∈ done, h ∈ t.selected p) :
    (t.perform p done).active = p.active ∧ J done (t.perform p done).state :=
  perform_fine (fun _ h s _ _ _ => hok s h) hstart hstep hdone hsub

theorem finish_of_active {done : List H} (h : (t.perform p done).active = p.active) :
    t.finish p done = ⟨p.active, (t.perform p done).state⟩ := by
  rw [Task.finish, if_neg (fun hne => hne.2 h), ← h]

/-- A task that succeeds everywhere, with what holds of the hosts it has run on and the state. -/
theorem always_run {Safe : σ → Prop} {J : List H → σ → Prop}
    (hok : ∀ s h, t.succeeds s h = true) (hnodup : p.active.Nodup) (hstart : J [] p.state)
    (hstep : ∀ done h s, h ∈ t.selected p → h ∉ done → J done s → J (done ++ [h]) (t.run h s))
    (hsafe : ∀ done s, (∀ h ∈ done, h ∈ t.selected p) → J done s → Safe s)
    (hnext : ∀ done s, done.Perm (t.selected p) → J done s →
      Always (fun q => Safe q.state) ts bs ⟨p.active, s⟩) :
    Always (fun q => Safe q.state) (t :: ts) bs p := by
  refine always_task hnodup ?_ ?_
  · intro done hdone hsub
    exact hsafe done _ hsub (perform_run hok hstart hstep hdone hsub).2
  · intro done hperm
    have hsel : (t.selected p).Nodup := hnodup.filter _
    obtain ⟨hactive, hend⟩ := perform_run hok hstart hstep (hperm.nodup_iff.mpr hsel)
      fun h hh => hperm.mem_iff.mp hh
    rw [finish_of_active hactive]
    exact hnext done _ hperm hend

/-- A task that keeps what holds before it. -/
theorem always_keep {Safe P : σ → Prop} (hok : ∀ s h, t.succeeds s h = true)
    (hnodup : p.active.Nodup) (hstart : P p.state)
    (hstep : ∀ h s, h ∈ t.selected p → P s → P (t.run h s)) (hsafe : ∀ s, P s → Safe s)
    (hnext : ∀ s, P s → Always (fun q => Safe q.state) ts bs ⟨p.active, s⟩) :
    Always (fun q => Safe q.state) (t :: ts) bs p :=
  always_run (J := fun _ s => P s) hok hnodup hstart (fun _ h s hh _ hs => hstep h s hh hs)
    (fun _ s _ hs => hsafe s hs) (fun _ s _ hs => hnext s hs)

/-- The task succeeds everywhere and keeps what holds before it. -/
def Task.Keeps (P : σ → Prop) (t : Task H σ) : Prop :=
  (∀ s h, t.succeeds s h = true) ∧ ∀ h s, P s → P (t.run h s)

theorem always_tasks {Safe P : σ → Prop} (hnodup : p.active.Nodup) (hsafe : ∀ s, P s → Safe s)
    (hts : ∀ t ∈ ts, t.Keeps P) (hstart : P p.state)
    (hnext : ∀ s, P s → Always (fun q => Safe q.state) [] bs ⟨p.active, s⟩) :
    Always (fun q => Safe q.state) ts bs p := by
  obtain ⟨active, s⟩ := p
  induction ts generalizing s with
  | nil => exact hnext s hstart
  | cons t ts ih =>
    have ht := hts t List.mem_cons_self
    exact always_keep ht.1 hnodup hstart (fun h s _ => ht.2 h s) hsafe
      fun s' hs' =>
        ih (fun t' ht' => hts t' (List.mem_cons_of_mem _ ht')) s' hnodup hs' hnext

/-- A play all of whose tasks keep what holds before them. -/
theorem always_blocks {Safe P : σ → Prop} (hnodup : p.active.Nodup) (hsafe : ∀ s, P s → Safe s)
    (hbs : ∀ b ∈ bs, ∀ t ∈ b.tasks, t.Keeps P) (hstart : P p.state) :
    Always (fun q => Safe q.state) [] bs p := by
  obtain ⟨active, s⟩ := p
  induction bs generalizing s with
  | nil => exact always_nil (hsafe s hstart)
  | cons b bs ih =>
    have hb := hbs b List.mem_cons_self
    refine always_enter (always_tasks hnodup hsafe (fun t ht => ?_) hstart fun s' hs' => ?_)
    · obtain ⟨t', ht', rfl⟩ := List.mem_map.mp ht
      exact hb t' ht'
    · exact ih (fun b' hb' => hbs b' (List.mem_cons_of_mem _ hb')) s' hnodup hs'

/-- A play on some hosts that keeps what holds before it, whichever of its steps fail. -/
theorem always_among {Safe P : σ → Prop} {hosts : List H} (hactive : ∀ h ∈ p.active, h ∈ hosts)
    (hnodup : p.active.Nodup) (hsafe : ∀ s, P s → Safe s)
    (hbs : ∀ b ∈ bs, ∀ t ∈ b.tasks, ∀ s₀ h s, h ∈ hosts → P s₀ → t.when s₀ h = true → P s →
      P (t.run h s)) (hstart : P p.state) : Always (fun q => Safe q.state) [] bs p := by
  have htasks : ∀ ts : List (Task H σ),
      (∀ t ∈ ts, ∀ s₀ h s, h ∈ hosts → P s₀ → t.when s₀ h = true → P s → P (t.run h s)) →
      ∀ bs' p, (∀ p, (∀ h ∈ p.active, h ∈ hosts) → p.active.Nodup → P p.state →
        Always (fun q => Safe q.state) [] bs' p) →
        (∀ h ∈ p.active, h ∈ hosts) → p.active.Nodup → P p.state →
          Always (fun q => Safe q.state) ts bs' p := by
    intro ts
    induction ts with
    | nil => exact fun _ bs' p hrest hactive hnodup hs => hrest p hactive hnodup hs
    | cons t ts ih =>
      intro hts bs' p hrest hactive hnodup hs
      have hperform : ∀ done : List H, done.Nodup → (∀ h ∈ done, h ∈ t.selected p) →
          (∀ h ∈ (t.perform p done).active, h ∈ hosts) ∧ (t.perform p done).active.Nodup ∧
            P (t.perform p done).state := by
        intro done hdone hsub
        refine perform_induct (J := fun _ q => (∀ h ∈ q.active, h ∈ hosts) ∧ q.active.Nodup ∧
          P q.state) ⟨hactive, hnodup, hs⟩ ?_ hdone hsub
        intro _ h q hh _ hq
        obtain ⟨hmem, hwhen⟩ := List.mem_filter.mp hh
        have hrun := hts t List.mem_cons_self p.state h q.state (hactive h hmem) hs hwhen hq.2.2
        rw [Task.after]
        split
        · exact ⟨hq.1, hq.2.1, hrun⟩
        · exact ⟨fun x hx => hq.1 x (List.mem_filter.mp hx).1, hq.2.1.filter _, hrun⟩
      refine always_task hnodup (fun done hdone hsub => hsafe _ (hperform done hdone hsub).2.2) ?_
      intro done hperm
      obtain ⟨hin, hnd, hend⟩ := hperform done (hperm.nodup_iff.mpr (hnodup.filter _))
        fun h hh => hperm.mem_iff.mp hh
      refine ih (fun t' ht' => hts t' (List.mem_cons_of_mem _ ht')) bs' _ hrest ?_ ?_ ?_
      · rw [Task.finish]
        split
        · simp
        · exact hin
      · rw [Task.finish]
        split
        · exact List.nodup_nil
        · exact hnd
      · rw [Task.finish]
        split
        · exact hend
        · exact hend
  induction bs generalizing p with
  | nil => exact always_nil (hsafe _ hstart)
  | cons b bs ih =>
    refine always_enter (htasks _ (fun t ht => ?_) bs p (fun p hin hp hs => ?_) hactive hnodup
      hstart)
    · obtain ⟨t', ht', rfl⟩ := List.mem_map.mp ht
      intro s₀ h s hh hs₀ hwhen hs
      exact hbs b List.mem_cons_self t' ht' s₀ h s hh hs₀ (Bool.and_eq_true_iff.mp hwhen).2 hs
    · exact ih hin hp (fun b' hb' => hbs b' (List.mem_cons_of_mem _ hb')) hs

theorem always_whatever {Safe P : σ → Prop} (hnodup : p.active.Nodup)
    (hsafe : ∀ s, P s → Safe s)
    (hbs : ∀ b ∈ bs, ∀ t ∈ b.tasks, ∀ s₀ h s, P s₀ → t.when s₀ h = true → P s → P (t.run h s))
    (hstart : P p.state) : Always (fun q => Safe q.state) [] bs p :=
  always_among (fun _ h => h) hnodup hsafe
    (fun b hb t ht s₀ h s _ => hbs b hb t ht s₀ h s) hstart

/-! ## Going on -/

theorem Always.now (h : Always Safe ts bs p) : Safe p := h p .now

theorem Always.enter (h : Always Safe [] (b :: bs) p) : Always Safe (b.enter p) bs p :=
  fun m hm => h m (.enter hm)

theorem Always.idle (hidle : t.selected p = []) (h : Always Safe (t :: ts) bs p) :
    Always Safe ts bs p := by
  have hfinish : t.finish p [] = p := by simp [Task.finish, Task.perform]
  have hdone : ([] : List H).Perm (t.selected p) := by rw [hidle]
  intro m hm
  refine h m (.next hdone ?_)
  rw [hfinish]
  exact hm

theorem Always.skip (hidle : b.selected p = []) (h : Always Safe [] (b :: bs) p) :
    Always Safe [] bs p := by
  have hall : ∀ ts : List (Task H σ), Always Safe (ts.map (Task.on · (b.selected p))) bs p →
      Always Safe [] bs p := by
    intro ts
    induction ts with
    | nil => exact id
    | cons t ts ih => exact fun h => ih (h.idle (idle_on hidle t p))
  exact hall b.tasks h.enter

/-- There is a run in which a task that succeeds on its hosts has run on them in a given order. -/
theorem Always.run_in {J : List H → σ → Prop} {done : List H} (h : Always Safe (t :: ts) bs p)
    (hperm : done.Perm (t.selected p))
    (hok : ∀ done h s, h ∈ t.selected p → h ∉ done → J done s → t.succeeds s h = true)
    (hnodup : p.active.Nodup) (hstart : J [] p.state)
    (hstep : ∀ done h s, h ∈ t.selected p → h ∉ done → J done s → J (done ++ [h]) (t.run h s)) :
    ∃ s, J done s ∧ Always Safe ts bs ⟨p.active, s⟩ := by
  have hsel : (t.selected p).Nodup := hnodup.filter _
  obtain ⟨hactive, hend⟩ := perform_fine hok hstart hstep (hperm.nodup_iff.mpr hsel)
    fun h hh => hperm.mem_iff.mp hh
  refine ⟨_, hend, fun m hm => h m (.next hperm ?_)⟩
  rw [finish_of_active hactive]
  exact hm

theorem Always.run {J : List H → σ → Prop} (h : Always Safe (t :: ts) bs p)
    (hok : ∀ s h, t.succeeds s h = true) (hnodup : p.active.Nodup) (hstart : J [] p.state)
    (hstep : ∀ done h s, h ∈ t.selected p → h ∉ done → J done s → J (done ++ [h]) (t.run h s)) :
    ∃ s, J (t.selected p) s ∧ Always Safe ts bs ⟨p.active, s⟩ :=
  h.run_in (List.Perm.refl _) (fun _ h s _ _ _ => hok s h) hnodup hstart hstep

/-- Every run of the tasks keeps `Mid` and ends in `Q`, and there is one. -/
structure Leads (Mid : σ → Prop) (ts : List (Task H σ)) (p : Play H σ) (Q : Play H σ → Prop) :
    Prop where
  always_append : ∀ (Safe : σ → Prop) (rest : List (Task H σ)) (bs : List (Block H σ)),
    (∀ s, Mid s → Safe s) → (∀ q, Q q → Always (fun q => Safe q.state) rest bs q) →
      Always (fun q => Safe q.state) (ts ++ rest) bs p
  exists_append : ∀ (Safe : σ → Prop) (rest : List (Task H σ)) (bs : List (Block H σ)),
    Always (fun q => Safe q.state) (ts ++ rest) bs p →
      ∃ q, Q q ∧ Always (fun q => Safe q.state) rest bs q

section Leads

variable {Mid : σ → Prop} {Q : Play H σ → Prop}

theorem Leads.always (h : Leads Mid ts p Q) {Safe : σ → Prop} (hsafe : ∀ s, Mid s → Safe s)
    (hrest : ∀ q, Q q → Always (fun q => Safe q.state) [] bs q) :
    Always (fun q => Safe q.state) ts bs p := by
  have hall := h.always_append Safe [] bs hsafe hrest
  rwa [List.append_nil] at hall

theorem Leads.exists_run (h : Leads Mid ts p Q) {Safe : σ → Prop}
    (halways : Always (fun q => Safe q.state) ts bs p) :
    ∃ q, Q q ∧ Always (fun q => Safe q.state) [] bs q :=
  h.exists_append Safe [] bs (by rwa [List.append_nil])

theorem leads_nil (h : Q p) : Leads Mid [] p Q :=
  ⟨fun _ _ _ _ hrest => hrest _ h, fun _ _ _ halways => ⟨_, h, halways⟩⟩

theorem leads_append {ts' : List (Task H σ)} {R : Play H σ → Prop} (h : Leads Mid ts p Q)
    (hnext : ∀ q, Q q → Leads Mid ts' q R) : Leads Mid (ts ++ ts') p R where
  always_append Safe rest bs hsafe hrest := by
    rw [List.append_assoc]
    exact h.always_append Safe _ bs hsafe fun q hq =>
      (hnext q hq).always_append Safe rest bs hsafe hrest
  exists_append Safe rest bs halways := by
    rw [List.append_assoc] at halways
    obtain ⟨q, hq, halways⟩ := h.exists_append Safe _ bs halways
    exact (hnext q hq).exists_append Safe rest bs halways

theorem Leads.mono {R : Play H σ → Prop} (h : Leads Mid ts p Q) (hmono : ∀ q, Q q → R q) :
    Leads Mid ts p R := by
  rw [← List.append_nil ts]
  exact leads_append h fun q hq => leads_nil (hmono q hq)

theorem leads_run {J : List H → σ → Prop} (hok : ∀ s h, t.succeeds s h = true)
    (hnodup : p.active.Nodup) (hstart : J [] p.state)
    (hstep : ∀ done h s, h ∈ t.selected p → h ∉ done → J done s → J (done ++ [h]) (t.run h s))
    (hmid : ∀ done s, J done s → Mid s)
    (hnext : ∀ done s, done.Perm (t.selected p) → J done s → Leads Mid ts ⟨p.active, s⟩ Q) :
    Leads Mid (t :: ts) p Q where
  always_append _ rest bs hsafe hrest :=
    always_run hok hnodup hstart hstep (fun done s _ hJ => hsafe s (hmid done s hJ))
      fun done s hperm hJ => (hnext done s hperm hJ).always_append _ rest bs hsafe hrest
  exists_append _ rest bs halways := by
    obtain ⟨s, hJ, hrest⟩ := halways.run hok hnodup hstart hstep
    exact (hnext _ s (List.Perm.refl _) hJ).exists_append _ rest bs hrest

/-- A task that notes something about every host it runs on. `w` is the state around the notes. -/
theorem leads_register {α : Type} {w : (H → α) → σ} {f₀ v : H → α}
    (hok : ∀ s h, t.succeeds s h = true) (hnodup : p.active.Nodup) (hstart : p.state = w f₀)
    (hrun : ∀ h f, h ∈ t.selected p → t.run h (w f) = w (Function.update f h (v h)))
    (hmid : ∀ f, (∀ h ∉ t.selected p, f h = f₀ h) → Mid (w f))
    (hnext : ∀ f, (∀ h ∈ t.selected p, f h = v h) → (∀ h ∉ t.selected p, f h = f₀ h) →
      Leads Mid ts ⟨p.active, w f⟩ Q) : Leads Mid (t :: ts) p Q := by
  refine leads_run (J := fun done s => (∀ h ∈ done, h ∈ t.selected p) ∧ ∃ f, s = w f ∧
    (∀ h ∈ done, f h = v h) ∧ ∀ h ∉ done, f h = f₀ h) hok hnodup
    ⟨by simp, f₀, hstart, by simp⟩ ?_ ?_ ?_
  · rintro done h s hsel - ⟨hin, f, rfl, hdone, hrest⟩
    refine ⟨fun x hx => ?_, _, hrun h f hsel, fun x hx => ?_, fun x hx => ?_⟩
    · rcases List.mem_append.mp hx with hx | hx
      · exact hin x hx
      · rwa [List.mem_singleton.mp hx]
    · by_cases hxh : x = h
      · rw [hxh, Function.update_self]
      · rw [Function.update_of_ne hxh]
        exact hdone x (by simpa [hxh] using hx)
    · rw [List.mem_append, List.mem_singleton, not_or] at hx
      rw [Function.update_of_ne hx.2]
      exact hrest x hx.1
  · rintro done _ ⟨hin, f, rfl, -, hrest⟩
    exact hmid f fun h hh => hrest h fun hmem => hh (hin h hmem)
  · rintro done _ hperm ⟨-, f, rfl, hdone, hrest⟩
    exact hnext f (fun h hh => hdone h (hperm.mem_iff.mpr hh))
      fun h hh => hrest h (fun hmem => hh (hperm.mem_iff.mp hmem))

/-- `group_by`, by a key that is known of every host. -/
theorem leads_group_perm {K : Type} [DecidableEq K] {w : Groups K H → σ} {g₀ : Groups K H}
    {k : H → K} (hok : ∀ s h, t.succeeds s h = true) (hnodup : p.active.Nodup)
    (hstart : p.state = w g₀)
    (hrun : ∀ h g, h ∈ t.selected p → t.run h (w g) = w (g.add (k h) h))
    (hmid : ∀ g : Groups K H,
      (∀ a x, x ∈ g a → x ∈ g₀ a ∨ x ∈ t.selected p ∧ k x = a) → Mid (w g))
    (hnext : ∀ g : Groups K H,
      (∀ a, (g a).Perm (g₀ a ++ (t.selected p).filter fun x => k x = a)) →
        Leads Mid ts ⟨p.active, w g⟩ Q) : Leads Mid (t :: ts) p Q := by
  refine leads_run (J := fun done s => (∀ h ∈ done, h ∈ t.selected p) ∧ ∃ g : Groups K H,
    s = w g ∧ ∀ a, g a = g₀ a ++ done.filter fun x => k x = a) hok hnodup
    ⟨by simp, g₀, hstart, by simp⟩ ?_ ?_ ?_
  · rintro done h s hsel - ⟨hdone, g, rfl, hg⟩
    refine ⟨List.forall_mem_append.mpr ⟨hdone, by simpa using hsel⟩, _, hrun h g hsel, fun a => ?_⟩
    rw [List.filter_append, ← List.append_assoc, ← hg]
    by_cases hkey : a = k h
    · rw [hkey, Groups.add_self, List.filter_cons_of_pos (by simp)]
      rfl
    · rw [Groups.add_of_ne _ hkey, List.filter_cons_of_neg (by simp [Ne.symm hkey]),
        List.filter_nil, List.append_nil]
  · rintro done _ ⟨hdone, g, rfl, hg⟩
    refine hmid g fun a x hx => ?_
    rw [hg, List.mem_append, List.mem_filter] at hx
    exact hx.imp id fun hx => ⟨hdone x hx.1, of_decide_eq_true hx.2⟩
  · rintro done _ hperm ⟨-, g, rfl, hg⟩
    refine hnext g fun a => ?_
    rw [hg]
    exact (hperm.filter _).append_left _

theorem leads_group {K : Type} [DecidableEq K] {w : Groups K H → σ} {g₀ : Groups K H}
    {k : H → K} (hok : ∀ s h, t.succeeds s h = true) (hnodup : p.active.Nodup)
    (hstart : p.state = w g₀)
    (hrun : ∀ h g, h ∈ t.selected p → t.run h (w g) = w (g.add (k h) h))
    (hmid : ∀ g : Groups K H,
      (∀ a x, x ∈ g a → x ∈ g₀ a ∨ x ∈ t.selected p ∧ k x = a) → Mid (w g))
    (hnext : ∀ g : Groups K H,
      (∀ a x, x ∈ g a ↔ x ∈ g₀ a ∨ x ∈ t.selected p ∧ k x = a) →
        Leads Mid ts ⟨p.active, w g⟩ Q) : Leads Mid (t :: ts) p Q := by
  refine leads_group_perm hok hnodup hstart hrun hmid fun g hg => hnext g fun a x => ?_
  rw [(hg a).mem_iff, List.mem_append, List.mem_filter, decide_eq_true_iff]

theorem leads_idle (hidle : t.selected p = []) (h : Leads Mid ts p Q) :
    Leads Mid (t :: ts) p Q where
  always_append _ rest bs hsafe hrest :=
    always_idle hidle (h.always_append _ rest bs hsafe hrest)
  exists_append _ rest bs halways := h.exists_append _ rest bs (Always.idle hidle halways)

/-- The hosts that stay in the play after a task that only checks something. -/
def Task.passed (t : Task H σ) (p : Play H σ) : List H :=
  p.active.filter fun h => !t.when p.state h || t.succeeds p.state h

theorem perform_check (hrun : ∀ h s, t.run h s = s) (done : List H) : t.perform p done =
    ⟨p.active.filter fun h => !done.contains h || t.succeeds p.state h, p.state⟩ := by
  induction done using List.reverseRecOn with
  | nil => simp [Task.perform]
  | append_singleton done h ih =>
    rw [Task.perform_snoc, ih, Task.after, hrun]
    congr 1
    by_cases hok : t.succeeds p.state h = true
    · rw [if_pos hok]
      refine List.filter_congr fun x _ => ?_
      by_cases hx : x = h
      · simp [hx, hok]
      · simp [hx]
    · rw [if_neg hok, List.filter_filter]
      refine List.filter_congr fun x _ => ?_
      by_cases hx : x = h
      · simp [hx, hok]
      · simp [hx]

theorem finish_check (hrun : ∀ h s, t.run h s = s) (hfatal : t.anyErrorsFatal = false)
    {done : List H} (hdone : done.Perm (t.selected p)) : t.finish p done = ⟨t.passed p, p.state⟩ := by
  rw [Task.finish, if_neg (by simp [hfatal]), perform_check hrun, Task.passed]
  congr 1
  refine List.filter_congr fun x hx => ?_
  have hmem : done.contains x = t.when p.state x := by
    rw [Bool.eq_iff_iff, List.contains_iff_mem, hdone.mem_iff, Task.selected, List.mem_filter]
    exact ⟨fun h => h.2, fun h => ⟨hx, h⟩⟩
  rw [hmem]

/-- A task that only checks something: the hosts that do not pass leave the play. -/
theorem leads_check (hrun : ∀ h s, t.run h s = s) (hfatal : t.anyErrorsFatal = false)
    (hmid : Mid p.state) (h : Leads Mid ts ⟨t.passed p, p.state⟩ Q) : Leads Mid (t :: ts) p Q where
  always_append Safe rest bs hsafe hrest := by
    intro m hm
    cases hm with
    | now => exact hsafe _ hmid
    | during _ =>
      rw [perform_check hrun]
      exact hsafe _ hmid
    | next hdone hm =>
      rw [finish_check hrun hfatal hdone] at hm
      exact h.always_append Safe rest bs hsafe hrest m hm
  exists_append Safe rest bs halways := by
    refine h.exists_append Safe rest bs fun m hm => halways m (.next (List.Perm.refl _) ?_)
    rw [finish_check hrun hfatal (List.Perm.refl _)]
    exact hm

theorem leads_stopped {s : σ} (h : Q ⟨[], s⟩) : Leads Mid ts ⟨[], s⟩ Q := by
  induction ts with
  | nil => exact leads_nil h
  | cons t ts ih => exact leads_idle rfl ih

theorem finish_fatal (hrun : ∀ h s, t.run h s = s) (hfatal : t.anyErrorsFatal = true)
    {done : List H} (hdone : done.Perm (t.selected p)) :
    t.finish p done = p ∧ (∀ h ∈ t.selected p, t.succeeds p.state h = true) ∨
      t.finish p done = ⟨[], p.state⟩ ∧ ∃ h ∈ t.selected p, t.succeeds p.state h = false := by
  rw [Task.finish, perform_check hrun]
  by_cases hall : ∀ h ∈ t.selected p, t.succeeds p.state h = true
  · have hkept : p.active.filter (fun h => !done.contains h || t.succeeds p.state h) = p.active := by
      refine List.filter_eq_self.mpr fun h _ => ?_
      by_cases hh : h ∈ done
      · rw [hall h (hdone.mem_iff.mp hh), Bool.or_true]
      · simp [hh]
    rw [hkept, if_neg fun hne => hne.2 rfl]
    exact .inl ⟨rfl, hall⟩
  · simp only [not_forall, Bool.not_eq_true] at hall
    obtain ⟨h, hh, hfail⟩ := hall
    have hlost : p.active.filter (fun h => !done.contains h || t.succeeds p.state h) ≠ p.active := by
      intro heq
      have hkept := List.filter_eq_self.mp heq h (List.mem_filter.mp hh).1
      simp [hfail, hdone.mem_iff.mpr hh] at hkept
    rw [if_pos ⟨hfatal, hlost⟩]
    exact .inr ⟨rfl, h, hh, hfail⟩

/-- A check that stops the play unless all its hosts pass. -/
theorem leads_fatal (hrun : ∀ h s, t.run h s = s) (hfatal : t.anyErrorsFatal = true)
    (hmid : Mid p.state)
    (hpass : (∀ h ∈ t.selected p, t.succeeds p.state h = true) → Leads Mid ts p Q)
    (hstop : (∃ h ∈ t.selected p, t.succeeds p.state h = false) → Q ⟨[], p.state⟩) :
    Leads Mid (t :: ts) p Q := by
  have hnext : ∀ {done : List H}, done.Perm (t.selected p) → Leads Mid ts (t.finish p done) Q := by
    intro done hdone
    rcases finish_fatal hrun hfatal hdone with ⟨hfinish, hall⟩ | ⟨hfinish, hfail⟩
    · rw [hfinish]
      exact hpass hall
    · rw [hfinish]
      exact leads_stopped (hstop hfail)
  refine ⟨fun Safe rest bs hsafe hrest m hm => ?_, fun Safe rest bs halways => ?_⟩
  · cases hm with
    | now => exact hsafe _ hmid
    | during _ =>
      rw [perform_check hrun]
      exact hsafe _ hmid
    | next hdone hm => exact (hnext hdone).always_append Safe rest bs hsafe hrest m hm
  · exact (hnext (List.Perm.refl _)).exists_append Safe rest bs fun m hm =>
      halways m (.next (List.Perm.refl _) hm)

/-- What a task has done on some of its hosts, and which of them are left. -/
theorem perform_try {ok : H → Bool} {J : List H → σ → Prop}
    (hok : ∀ done h s, h ∉ done → J done s → t.succeeds s h = ok h) (hstart : J [] p.state)
    (hstep : ∀ done h s, h ∈ t.selected p → h ∉ done → J done s → J (done ++ [h]) (t.run h s))
    {done : List H} (hdone : done.Nodup) (hsub : ∀ h ∈ done, h ∈ t.selected p) :
    (t.perform p done).active = p.active.filter (fun h => !done.contains h || ok h) ∧
      J done (t.perform p done).state := by
  refine perform_induct (J := fun done q =>
    q.active = p.active.filter (fun h => !done.contains h || ok h) ∧ J done q.state)
    ⟨by simp, hstart⟩ ?_ hdone hsub
  intro done h q hh hnot ⟨hactive, hJ⟩
  refine ⟨?_, hstep done h q.state hh hnot hJ⟩
  rw [Task.after, hok done h q.state hnot hJ, hactive]
  by_cases hsucceeds : ok h = true
  · rw [if_pos hsucceeds]
    refine List.filter_congr fun x _ => ?_
    by_cases hx : x = h
    · simp [hx, hsucceeds]
    · simp [hx]
  · rw [if_neg hsucceeds, List.filter_filter]
    refine List.filter_congr fun x _ => ?_
    by_cases hx : x = h
    · simp [hx, hsucceeds]
    · simp [hx]

/-- The hosts that are left when a task has run on all its hosts. -/
def Task.survivors (t : Task H σ) (p : Play H σ) (ok : H → Bool) : List H :=
  p.active.filter fun h => !(t.selected p).contains h || ok h

theorem survivors_eq_iff {ok : H → Bool} :
    t.survivors p ok = p.active ↔ ∀ h ∈ t.selected p, ok h = true := by
  rw [Task.survivors, List.filter_eq_self]
  constructor
  · intro hall h hh
    simpa [hh] using hall h (List.mem_filter.mp hh).1
  · intro hall h _
    by_cases hh : h ∈ t.selected p
    · simp [hall h hh]
    · simp [hh]

/-- The hosts on which a task fails leave the play, or all do. -/
theorem finish_try {ok : H → Bool} {J : List H → σ → Prop}
    (hok : ∀ done h s, h ∉ done → J done s → t.succeeds s h = ok h) (hnodup : p.active.Nodup)
    (hstart : J [] p.state)
    (hstep : ∀ done h s, h ∈ t.selected p → h ∉ done → J done s → J (done ++ [h]) (t.run h s))
    {done : List H} (hperm : done.Perm (t.selected p)) :
    ∃ s, J done s ∧
      (t.finish p done = ⟨t.survivors p ok, s⟩ ∧
          (t.anyErrorsFatal = true → ∀ h ∈ t.selected p, ok h = true) ∨
        t.finish p done = ⟨[], s⟩ ∧ t.anyErrorsFatal = true ∧
          ∃ h ∈ t.selected p, ok h = false) := by
  have hsel : (t.selected p).Nodup := hnodup.filter _
  obtain ⟨hactive, hJ⟩ := perform_try hok hstart hstep (hperm.nodup_iff.mpr hsel)
    fun h hh => hperm.mem_iff.mp hh
  have hleft : (t.perform p done).active = t.survivors p ok := by
    rw [hactive, Task.survivors]
    refine List.filter_congr fun h _ => ?_
    have hmem : done.contains h = (t.selected p).contains h := by
      rw [Bool.eq_iff_iff, List.contains_iff_mem, List.contains_iff_mem, hperm.mem_iff]
    rw [hmem]
  refine ⟨_, hJ, ?_⟩
  rw [Task.finish]
  by_cases hfatal : t.anyErrorsFatal = true ∧ (t.perform p done).active ≠ p.active
  · rw [if_pos hfatal]
    have hfail := hfatal.2
    rw [hleft, Ne, survivors_eq_iff, not_forall] at hfail
    obtain ⟨h, hfail⟩ := hfail
    rw [Classical.not_imp, Bool.not_eq_true] at hfail
    exact .inr ⟨rfl, hfatal.1, h, hfail⟩
  · rw [if_neg hfatal]
    refine .inl ⟨by rw [← hleft], fun hf => survivors_eq_iff.mp ?_⟩
    rw [← hleft]
    by_contra hne
    exact hfatal ⟨hf, hne⟩

/-- A task that can fail: the hosts on which it does leave the play, or it stops the play. -/
theorem leads_try {ok : H → Bool} {J : List H → σ → Prop}
    (hok : ∀ done h s, h ∉ done → J done s → t.succeeds s h = ok h) (hnodup : p.active.Nodup)
    (hstart : J [] p.state)
    (hstep : ∀ done h s, h ∈ t.selected p → h ∉ done → J done s → J (done ++ [h]) (t.run h s))
    (hmid : ∀ done s, J done s → Mid s)
    (hnext : ∀ done s, done.Perm (t.selected p) → J done s →
      (t.anyErrorsFatal = true → ∀ h ∈ t.selected p, ok h = true) →
        Leads Mid ts ⟨t.survivors p ok, s⟩ Q)
    (hstop : ∀ done s, done.Perm (t.selected p) → J done s → t.anyErrorsFatal = true →
      (∃ h ∈ t.selected p, ok h = false) → Q ⟨[], s⟩) : Leads Mid (t :: ts) p Q := by
  have hfinish : ∀ {done : List H}, done.Perm (t.selected p) →
      Leads Mid ts (t.finish p done) Q := by
    intro done hperm
    obtain ⟨s, hJ, ⟨hplay, hall⟩ | ⟨hplay, hfatal, hfail⟩⟩ :=
      finish_try hok hnodup hstart hstep hperm
    · rw [hplay]
      exact hnext done s hperm hJ hall
    · rw [hplay]
      exact leads_stopped (hstop done s hperm hJ hfatal hfail)
  refine ⟨fun Safe rest bs hsafe hrest => ?_, fun Safe rest bs halways => ?_⟩
  · refine always_task hnodup (fun done hdone hsub => hsafe _ (hmid done _ ?_)) fun done hperm =>
      (hfinish hperm).always_append Safe rest bs hsafe hrest
    exact (perform_try hok hstart hstep hdone hsub).2
  · exact (hfinish (List.Perm.refl _)).exists_append Safe rest bs fun m hm =>
      halways m (.next (List.Perm.refl _) hm)

/-- Every run of the blocks keeps `Mid` and ends in `Q`, and there is one. -/
structure LeadsOn (Mid : σ → Prop) (bs : List (Block H σ)) (p : Play H σ)
    (Q : Play H σ → Prop) : Prop where
  always_append : ∀ (Safe : σ → Prop) (rest : List (Block H σ)), (∀ s, Mid s → Safe s) →
    (∀ q, Q q → Always (fun q => Safe q.state) [] rest q) →
      Always (fun q => Safe q.state) [] (bs ++ rest) p
  exists_append : ∀ (Safe : σ → Prop) (rest : List (Block H σ)),
    Always (fun q => Safe q.state) [] (bs ++ rest) p →
      ∃ q, Q q ∧ Always (fun q => Safe q.state) [] rest q

theorem leadsOn_nil (h : Q p) : LeadsOn Mid [] p Q :=
  ⟨fun _ _ _ hrest => hrest _ h, fun _ _ halways => ⟨_, h, halways⟩⟩

theorem leadsOn_cons {R : Play H σ → Prop} (h : Leads Mid (b.enter p) p R)
    (hnext : ∀ q, R q → LeadsOn Mid bs q Q) : LeadsOn Mid (b :: bs) p Q where
  always_append Safe rest hsafe hrest :=
    always_enter (h.always hsafe fun q hq => (hnext q hq).always_append Safe rest hsafe hrest)
  exists_append Safe rest halways := by
    obtain ⟨q, hq, halways⟩ := h.exists_run halways.enter
    exact (hnext q hq).exists_append Safe rest halways

theorem LeadsOn.mono {R : Play H σ → Prop} (h : LeadsOn Mid bs p Q) (hmono : ∀ q, Q q → R q) :
    LeadsOn Mid bs p R where
  always_append Safe rest hsafe hrest :=
    h.always_append Safe rest hsafe fun q hq => hrest q (hmono q hq)
  exists_append Safe rest halways := by
    obtain ⟨q, hq, halways⟩ := h.exists_append Safe rest halways
    exact ⟨q, hmono q hq, halways⟩

theorem leadsOn_stopped {s : σ} (h : Q ⟨[], s⟩) : LeadsOn Mid bs ⟨[], s⟩ Q := by
  induction bs with
  | nil => exact leadsOn_nil h
  | cons b bs ih =>
    refine leadsOn_cons (R := fun q => q = ⟨[], s⟩) (leads_stopped rfl) ?_
    rintro _ rfl
    exact ih

theorem leadsOn_append {bs' : List (Block H σ)} {R : Play H σ → Prop} (h : LeadsOn Mid bs p R)
    (hnext : ∀ q, R q → LeadsOn Mid bs' q Q) : LeadsOn Mid (bs ++ bs') p Q where
  always_append Safe rest hsafe hrest := by
    rw [List.append_assoc]
    exact h.always_append Safe _ hsafe fun q hq =>
      (hnext q hq).always_append Safe rest hsafe hrest
  exists_append Safe rest halways := by
    rw [List.append_assoc] at halways
    obtain ⟨q, hq, halways⟩ := h.exists_append Safe _ halways
    exact (hnext q hq).exists_append Safe rest halways

end Leads

end Rules

end Linear
end KollaPowerOps
