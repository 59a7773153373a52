import KollaPowerOps.Container.Host

/-!
# Container.UnitFiles

The node that the workers run on, with all its containers and all files of systemd.

* `Anchored` : a unit file of a container stands beside its container.
* `onNode`   : the environment of a worker, from what the engine replies.
* `Allowed`  : when the worker of a container may make a call. It works on its own container and its
  own unit file, writes the file while the container is there, and creates and removes the container
  while the file is not there.
* `Played`   : runs of the module one after another, each of which may be stopped anywhere.
* `played_kept` : what holds after runs whose calls are all allowed, whatever the engine and systemd
  answer.
-/

namespace KollaPowerOps
namespace Container

open Effect

/-! ## The node -/

structure Node where
  /-- the engine has a container of the name -/
  containers : Text → Bool
  /-- the content of the file, by its path -/
  files : Text → Option Text

def unitPathOf (name : Text) : Text :=
  "/etc/systemd/system/".toList ++ ("kolla-".toList ++ name ++ "-container.service".toList)

theorem unitPath_eq (t : Task) : Systemd.unitPath t = unitPathOf t.params.name := rfl

theorem unitPathOf_injective {a b : Text} (h : unitPathOf a = unitPathOf b) : a = b :=
  List.append_cancel_left (List.append_cancel_right (List.append_cancel_left h))

namespace Node

/-- Beside every unit file of a container stands the container. -/
def Anchored (w : Node) : Prop :=
  ∀ name, (w.files (unitPathOf name)).isSome = true → w.containers name = true

/-- The other containers and the other files are as they were. -/
structure Beside (t : Task) (w w' : Node) : Prop where
  containers : ∀ name, name ≠ t.params.name → w'.containers name = w.containers name
  files : ∀ path, path ≠ Systemd.unitPath t → w'.files path = w.files path

section Task

variable (t : Task) (w : Node)

/-- If the unit file is there, so is the container. -/
def Anchor : Prop :=
  (w.files (Systemd.unitPath t)).isSome = true → w.containers t.params.name = true

def Stands : Prop := w.containers t.params.name = true

/-- Neither the container is there nor its unit file. -/
structure Gone : Prop where
  container : w.containers t.params.name = false
  file : w.files (Systemd.unitPath t) = none

/-- The container is there, with the unit file of these parameters. -/
structure Current : Prop where
  container : w.containers t.params.name = true
  file : w.files (Systemd.unitPath t) = some (Systemd.generateUnitFile t)

end Task

variable {t : Task} {w w' w'' : Node}

theorem Beside.refl : Beside t w w := ⟨fun _ _ => rfl, fun _ _ => rfl⟩

theorem Beside.trans (h : Beside t w w') (h' : Beside t w' w'') : Beside t w w'' where
  containers name hname := (h'.containers name hname).trans (h.containers name hname)
  files path hpath := (h'.files path hpath).trans (h.files path hpath)

theorem Anchored.anchor (h : w.Anchored) (t : Task) : Anchor t w := h t.params.name

theorem Stands.anchor (h : Stands t w) : Anchor t w := fun _ => h

theorem Gone.anchor (h : Gone t w) : Anchor t w := by
  intro hfile
  rw [h.file] at hfile
  cases hfile

theorem Current.stands (h : Current t w) : Stands t w := h.container

theorem Anchor.gone (h : Anchor t w) (hw : w.containers t.params.name = false) : Gone t w := by
  refine ⟨hw, Option.not_isSome_iff_eq_none.mp fun hfile => ?_⟩
  have hstands := h hfile
  rw [hw] at hstands
  cases hstands

/-- The rest of the node stays, so only the own unit file matters. -/
theorem Beside.anchored (h : Beside t w w') (hw : w.Anchored) (ht : Anchor t w') : w'.Anchored := by
  intro name hfile
  by_cases hname : name = t.params.name
  · subst hname
    exact ht hfile
  · have hpath : unitPathOf name ≠ Systemd.unitPath t := fun heq => hname (unitPathOf_injective heq)
    rw [h.files _ hpath] at hfile
    rw [h.containers name hname]
    exact hw name hfile

end Node

/-! ## Calls -/

/-- What a call does to the containers of the engine. -/
inductive Deed where
  | nothing
  | creates (name : Text)
  | removes (name : Text)
  /-- it starts or stops the container -/
  | runs (name : Text)

class Deeds (E : Type → Type) [EngineCalls E] where
  deed : {τ : Type} → E τ → Deed
  deed_of_untouched : ∀ {τ : Type} (op : E τ), EngineCalls.touchesContainer op = false →
    deed op = .nothing

/-- The container whose existence the call may change. -/
def Deed.target : Deed → Option Text
  | .creates name => some name
  | .removes name => some name
  | _ => none

variable {E : Type → Type} [EngineCalls E] [Deeds E]

/-- What an engine may answer in a state, and the state that it leaves. -/
abbrev NodeReplies (E : Type → Type) : Type 1 := Node → {τ : Type} → E τ → τ → Node → Prop

/-- What a normal answer of systemd says. -/
def systemdReplies (w : Node) {τ : Type} : SystemdCall τ → τ → Node → Prop
  | .isFile path, present, _ => present = (w.files path).isSome
  | .readFile path, content, _ => w.files path = some content
  | .writeFile path content, _, w' => w'.files path = some content
  | .removeFile path, _, w' => w'.files path = none
  | _, _, _ => True

/-- What a call of systemd may change, also one that raises an exception. -/
def SystemdCall.Reach (w w' : Node) {τ : Type} : SystemdCall τ → Prop
  | .writeFile path _ => w'.containers = w.containers ∧ ∀ p, p ≠ path → w'.files p = w.files p
  | .removeFile path => w'.containers = w.containers ∧
    ∀ p, w'.files p = w.files p ∨ p = path ∧ w'.files p = none
  | _ => w' = w

/-- The same of a call of the engine. -/
def Deed.Reach (w w' : Node) (deed : Deed) : Prop :=
  w'.files = w.files ∧ ∀ name, deed.target ≠ some name → w'.containers name = w.containers name

def Reach (w w' : Node) {τ : Type} : WorkerCall E τ → Prop
  | .engine op => (Deeds.deed op).Reach w w'
  | .systemd op => op.Reach w w'

def onNode (replies : NodeReplies E) : Env (WorkerCall E) WorkerExit Node := fun w ev w' =>
  Reach w w' ev.op ∧
    match ev with
    | ⟨.engine op, .ok a⟩ => replies w op a w'
    | ⟨.systemd op, .ok a⟩ => systemdReplies w op a w'
    | _ => True

/-- When the worker may create, remove, start or stop a container. -/
def Deed.Allowed (t : Task) (w : Node) : Deed → Prop
  | .nothing => True
  | .creates name => name = t.params.name ∧ w.Gone t
  | .removes name => name = t.params.name ∧ w.files (Systemd.unitPath t) = none
  | .runs name => name = t.params.name

def SystemdCall.Allowed (t : Task) (w : Node) {τ : Type} : SystemdCall τ → Prop
  | .writeFile path content =>
    path = Systemd.unitPath t ∧ content = Systemd.generateUnitFile t ∧ w.Stands t
  | .removeFile path => path = Systemd.unitPath t
  | .perform method unit => method.runs = true → unit = Systemd.serviceName t
  | _ => True

def Allowed (t : Task) (w : Node) {τ : Type} : WorkerCall E τ → Prop
  | .engine op => (Deeds.deed op).Allowed t w
  | .systemd op => op.Allowed t w

/-! ## One call -/

section Step

variable {t : Task} {w w' : Node}

theorem Deed.Allowed.beside {deed : Deed} (h : deed.Allowed t w) (hreach : deed.Reach w w') :
    w.Beside t w' := by
  obtain ⟨hfiles, hcontainers⟩ := hreach
  refine ⟨fun name hname => hcontainers name fun htarget => hname ?_, fun path _ => by rw [hfiles]⟩
  cases deed with
  | nothing | runs => cases htarget
  | creates name' | removes name' => exact (Option.some.inj htarget).symm.trans h.1

theorem Deed.Allowed.anchor {deed : Deed} (h : deed.Allowed t w) (hreach : deed.Reach w w')
    (hw : w.Anchor t) : w'.Anchor t := by
  obtain ⟨hfiles, hcontainers⟩ := hreach
  intro hfile
  rw [hfiles] at hfile
  cases deed with
  | nothing | runs =>
    rw [hcontainers t.params.name (by simp [target])]
    exact hw hfile
  | creates name =>
    rw [h.2.file] at hfile
    cases hfile
  | removes name =>
    rw [h.2] at hfile
    cases hfile

theorem SystemdCall.Allowed.beside {τ : Type} {op : SystemdCall τ} (h : op.Allowed t w)
    (hreach : op.Reach w w') : w.Beside t w' := by
  cases op with
  | writeFile path content =>
    obtain ⟨hcontainers, hfiles⟩ := hreach
    exact ⟨fun name _ => by rw [hcontainers], fun p hp => hfiles p (h.1 ▸ hp)⟩
  | removeFile path =>
    obtain ⟨hcontainers, hfiles⟩ := hreach
    refine ⟨fun name _ => by rw [hcontainers], fun p hp => ?_⟩
    rcases hfiles p with hsame | ⟨rfl, -⟩
    · exact hsame
    · exact absurd h hp
  | isFile | readFile | perform | listUnits | sleep =>
    cases hreach
    exact Node.Beside.refl

theorem SystemdCall.Allowed.anchor {τ : Type} {op : SystemdCall τ} (h : op.Allowed t w)
    (hreach : op.Reach w w') (hw : w.Anchor t) : w'.Anchor t := by
  cases op with
  | writeFile path content =>
    intro _
    rw [hreach.1]
    exact h.2.2
  | removeFile path =>
    obtain ⟨hcontainers, hfiles⟩ := hreach
    intro hfile
    rw [hcontainers]
    rcases hfiles (Systemd.unitPath t) with hsame | ⟨-, hnone⟩
    · exact hw (hsame ▸ hfile)
    · rw [hnone] at hfile
      cases hfile
  | isFile | readFile | perform | listUnits | sleep =>
    cases hreach
    exact hw

variable {replies : NodeReplies E} {ev : Event (WorkerCall E) WorkerExit}

/-- An allowed call works on the own container and the own file. -/
theorem Allowed.beside (h : Allowed t w ev.op) (hev : onNode replies w ev w') : w.Beside t w' := by
  obtain ⟨op, x⟩ := ev
  cases op with
  | engine op => exact Deed.Allowed.beside h hev.1
  | systemd op => exact SystemdCall.Allowed.beside h hev.1

/-- An allowed call leaves the own file anchored, whatever it is answered. -/
theorem Allowed.anchor (h : Allowed t w ev.op) (hev : onNode replies w ev w') (hw : w.Anchor t) :
    w'.Anchor t := by
  obtain ⟨op, x⟩ := ev
  cases op with
  | engine op => exact Deed.Allowed.anchor h hev.1 hw
  | systemd op => exact SystemdCall.Allowed.anchor h hev.1 hw

end Step

/-! ## Rules for the environment -/

section Rules

variable {replies : NodeReplies E} {t : Task} {τ : Type}

theorem Deed.Reach.eq {w w' : Node} {deed : Deed} (h : deed.Reach w w') (hdeed : deed.target = none) :
    w' = w := by
  obtain ⟨hfiles, hcontainers⟩ := h
  have hsame : w'.containers = w.containers := funext fun name => hcontainers name (by simp [hdeed])
  cases w
  cases w'
  cases hfiles
  cases hsame
  rfl

theorem keeps_engine {op : E τ} (h : Deeds.deed op = .nothing ∨
    Deeds.deed op = .runs t.params.name) :
    Keeps (onNode replies) (Allowed t) (engine op : Worker E τ) := by
  refine Keeps.ask (fun w => ?_) fun w a w' hev => ?_
  · change (Deeds.deed op).Allowed t w
    rcases h with h | h <;> rw [h]
    · trivial
    · rfl
  · refine Deed.Reach.eq hev.1 ?_
    rcases h with h | h <;> rw [h] <;> rfl

theorem keeps_perform (method : ManagerMethod) :
    Keeps (onNode replies) (Allowed t) (Systemd.performAction t method : Worker E Bool) :=
  Keeps.ask (fun _ _ => rfl) fun _ _ _ hev => hev.1

theorem unchanged_onNode {op : WorkerCall E τ} (h : op.changes = false) {w w' : Node}
    {x : Except WorkerExit τ} (hev : onNode replies w ⟨op, x⟩ w') : w' = w := by
  cases op with
  | engine op =>
    refine Deed.Reach.eq hev.1 ?_
    rw [Deeds.deed_of_untouched op (WorkerCall.touchesContainer_of_changes h)]
    rfl
  | systemd op =>
    cases op with
    | isFile | readFile | listUnits | sleep | perform => exact hev.1
    | writeFile | removeFile => cases h

/-- A call that changes nothing may be made anywhere. -/
theorem quiet_onNode (op : WorkerCall E τ) (h : op.changes = false) :
    Quiet (onNode replies) (Allowed t) op := by
  refine ⟨fun w => ?_, fun w a w' hev => unchanged_onNode h hev⟩
  cases op with
  | engine op =>
    change (Deeds.deed op).Allowed t w
    rw [Deeds.deed_of_untouched op (WorkerCall.touchesContainer_of_changes h)]
    trivial
  | systemd op =>
    cases op with
    | isFile | readFile | listUnits | sleep => trivial
    | perform method unit =>
      intro hruns
      rw [show method.runs = false from h] at hruns
      cases hruns
    | writeFile | removeFile => cases h

/-- Whatever becomes of the flag, the node is left as it is. -/
def Leaves (env : Env (WorkerCall E) WorkerExit Node) (t : Task) {α : Type} (m : Worker E α) : Prop :=
  ∀ ψ : Node → Prop, Triple env (Allowed t) (fun w _ => ψ w) m fun _ w _ => ψ w

section Leaves

variable {env : Env (WorkerCall E) WorkerExit Node} {α β : Type} {m : Worker E α}

theorem leaves_of_keeps (h : Keeps env (Allowed t) m) : Leaves env t m := fun _ => h _

theorem Leaves.bind {f : α → Worker E β} (h : Leaves env t m) (hf : ∀ a, Leaves env t (f a)) :
    Leaves env t (m >>= f) := fun ψ => (h ψ).bind fun a => hf a ψ

theorem Leaves.pure (a : α) : Leaves env t (pure a : Worker E α) := leaves_of_keeps (Keeps.pure a)

theorem Leaves.fail (e : WorkerExit) : Leaves env t (fail e : Worker E α) :=
  leaves_of_keeps (Keeps.fail e)

theorem Leaves.ite {q : Prop} [Decidable q] {m' : Worker E α} (h : q → Leaves env t m)
    (h' : ¬ q → Leaves env t m') : Leaves env t (if q then m else m') :=
  fun ψ => Triple.ite (fun hq => h hq ψ) fun hq => h' hq ψ

theorem leaves_setChanged (b : Bool) : Leaves env t (setChanged (E := E) b) :=
  fun _ => Triple.set fun _ _ h => h

theorem leaves_orChanged (b : Bool) : Leaves env t (orChanged (E := E) b) :=
  fun _ => Triple.modify fun _ _ h => h

end Leaves

end Rules

namespace Systemd

variable {replies : NodeReplies E} {t : Task}

theorem keeps_getUnitState :
    Keeps (onNode replies) (Allowed t) (getUnitState t : Worker E (Option Text)) :=
  (quiet_onNode (.systemd .listUnits) rfl).keeps.bind fun _ => Keeps.pure _

theorem keeps_waitLoop (state : Text) (n : Nat) :
    Keeps (onNode replies) (Allowed t) (waitLoop t state n : Worker E Bool) := by
  induction n with
  | zero => exact keeps_getUnitState.bind fun _ => Keeps.pure _
  | succ n ih =>
    refine keeps_getUnitState.bind fun found => Keeps.ite (fun _ => Keeps.pure _) fun _ => ?_
    exact (quiet_onNode (.systemd (.sleep 5)) rfl).keeps.bind fun _ => ih

theorem keeps_start : Keeps (onNode replies) (Allowed t) (start t : Worker E Bool) :=
  (keeps_perform .startUnit).bind fun _ =>
    Keeps.ite (fun _ => keeps_waitLoop _ _) fun _ => Keeps.pure _

theorem keeps_restart : Keeps (onNode replies) (Allowed t) (restart t : Worker E Bool) :=
  (keeps_perform .restartUnit).bind fun _ =>
    Keeps.ite (fun _ => keeps_waitLoop _ _) fun _ => Keeps.pure _

theorem keeps_stop : Keeps (onNode replies) (Allowed t) (stop t : Worker E Bool) :=
  (keeps_perform .stopUnit).bind fun _ =>
    Keeps.ite (fun _ => keeps_waitLoop _ _) fun _ => Keeps.pure _

variable {ψ : Node → Prop}

theorem sees_checkUnitFile : Triple (onNode replies) (Allowed t) (fun w _ => ψ w)
    (checkUnitFile t : Worker E Bool) fun present w _ =>
      ψ w ∧ present = (w.files (unitPath t)).isSome := by
  refine Triple.ask (fun _ _ _ => trivial) fun w c present w' hw hev => ?_
  obtain ⟨rfl, hreply⟩ := hev
  exact ⟨hw, hreply⟩

/-- Without a change the unit file has the content. -/
theorem sees_checkUnitChange (content : Text) : Triple (onNode replies) (Allowed t) (fun w _ => ψ w)
    (checkUnitChange t content : Worker E Bool) fun change w _ =>
      ψ w ∧ (change = false → w.files (unitPath t) = some content) := by
  refine (keeps_checkUnitFile t (fun op => quiet_onNode (.systemd op)) fun w _ => ψ w).bind
    fun present => ?_
  refine Triple.ite (fun _ => ?_) fun _ => Triple.pure fun w _ hw => ⟨hw, nofun⟩
  have hread : Triple (onNode replies) (Allowed t) (fun w _ => ψ w)
      (systemd (E := E) (.readFile (unitPath t)))
      fun found w _ => ψ w ∧ w.files (unitPath t) = some found := by
    refine Triple.ask (fun _ _ _ => trivial) fun w c found w' hw hev => ?_
    obtain ⟨rfl, hreply⟩ := hev
    exact ⟨hw, hreply⟩
  refine hread.bind fun found => Triple.pure fun w _ hw => ⟨hw.1, fun hsame => ?_⟩
  simp only [decide_eq_false_iff_not, ne_eq, not_not] at hsame
  exact hsame ▸ hw.2

/-- Where the container stands, its unit file is brought up to date. -/
theorem current_createUnitFile : Triple (onNode replies) (Allowed t) (fun w _ => w.Stands t)
    (createUnitFile t : Worker E Bool) fun _ w _ => w.Current t := by
  refine (sees_checkUnitChange (generateUnitFile t)).bind fun change => ?_
  refine Triple.ite (fun _ => ?_) fun hsame => Triple.pure fun w _ hw => ⟨hw.1, hw.2 ?_⟩
  · have hwrite : Triple (onNode replies) (Allowed t)
        (fun w _ => w.Stands t ∧ (change = false → w.files (unitPath t) = some (generateUnitFile t)))
        (systemd (E := E) (.writeFile (unitPath t) (generateUnitFile t)))
        fun _ w _ => w.Current t := by
      refine Triple.ask (fun w _ hw => ⟨rfl, rfl, hw.1⟩) fun w c _ w' hw hev => ?_
      obtain ⟨⟨hcontainers, -⟩, hreply⟩ := hev
      exact ⟨(congrFun hcontainers _).trans hw.1, hreply⟩
    refine hwrite.bind fun _ => (keeps_perform .reload _).bind fun _ => ?_
    exact (keeps_perform .enableUnitFiles _).bind fun _ => Triple.pure fun _ _ hw => hw
  · exact Bool.eq_false_iff.mpr hsame

/-- A unit file that is up to date is not found to have changed. -/
theorem unchanged_of_current {w w' : Node} {c c' change : Bool}
    {tr : List (Event (WorkerCall E) WorkerExit)} (h : w.Current t)
    (hruns : Runs (onNode replies) w
      ((checkUnitChange t (generateUnitFile t) : Worker E Bool).run c) tr (.ok (change, c')) w') :
    change = false := by
  have hcheck : Triple (onNode replies) (Allowed t) (fun w _ => w.Current t)
      (checkUnitChange t (generateUnitFile t) : Worker E Bool) fun change _ _ => change = false := by
    refine (sees_checkUnitFile (ψ := fun w => w.Current t)).bind fun present => ?_
    refine Triple.ite (fun _ => ?_) fun habsent => Triple.of_false fun w _ hw => habsent ?_
    · have hread : Triple (onNode replies) (Allowed t)
          (fun w _ => w.Current t ∧ present = (w.files (unitPath t)).isSome)
          (systemd (E := E) (.readFile (unitPath t))) fun found _ _ => found = generateUnitFile t := by
        refine Triple.ask (fun _ _ _ => trivial) fun w _ found w' hw hev => ?_
        have hfound : w.files (unitPath t) = some found := hev.2
        rw [hw.1.file] at hfound
        exact (Option.some.inj hfound).symm
      refine hread.bind fun found => Triple.pure fun w _ hfound => ?_
      rw [hfound]
      exact decide_eq_false fun hne => hne rfl
    · rw [hw.2, hw.1.file]
      rfl
  exact wp_steps hruns.1 hruns.2 (hcheck w c h)

/-- The unit file is gone, the container is as before. -/
theorem gone_removeUnitFile {φ : Bool → Prop} : Triple (onNode replies) (Allowed t)
    (fun w _ => φ (w.containers t.params.name)) (removeUnitFile t : Worker E Bool)
    fun _ w _ => φ (w.containers t.params.name) ∧ w.files (unitPath t) = none := by
  refine Triple.bind (sees_checkUnitFile (ψ := fun w => φ (w.containers t.params.name)))
    fun present => Triple.ite (fun _ => ?_) fun habsent => ?_
  · have hremove : Triple (onNode replies) (Allowed t) (fun w _ => φ (w.containers t.params.name) ∧
        present = (w.files (unitPath t)).isSome) (systemd (E := E) (.removeFile (unitPath t)))
        fun _ w _ => φ (w.containers t.params.name) ∧ w.files (unitPath t) = none := by
      refine Triple.ask (fun _ _ _ => rfl) fun w c _ w' hw hev => ?_
      obtain ⟨⟨hcontainers, -⟩, hreply⟩ := hev
      rw [hcontainers]
      exact ⟨hw.1, hreply⟩
    refine hremove.bind fun _ => (keeps_perform .reload _).bind fun _ => ?_
    exact Triple.pure fun _ _ hw => hw
  · refine Triple.pure fun w _ hw => ⟨hw.1, Option.not_isSome_iff_eq_none.mp ?_⟩
    rw [← hw.2]
    exact habsent

end Systemd

/-! ## Runs of the module -/

/-- Runs of the module one after another, each of which may be stopped anywhere. -/
inductive Played (env : Env (WorkerCall E) WorkerExit Node) (act : Task → Action → Worker E Bool) :
    List Task → Node → Node → Prop where
  | nil {w : Node} : Played env act [] w w
  | cons {t : Task} {ts : List Task} {action : Action} {w w₁ w₂ : Node}
      {tr : List (Event (WorkerCall E) WorkerExit)}
      {p : Prog (WorkerCall E) WorkerExit (Bool × Bool)} :
      Steps ((act t action).run false) tr p → Drives env w tr w₁ → Played env act ts w₁ w₂ →
        Played env act (t :: ts) w w₂

/-- From where the unit file is anchored, every action makes allowed calls. -/
def Disciplined (env : Env (WorkerCall E) WorkerExit Node) (act : Task → Action → Worker E Bool) :
    Prop :=
  ∀ t action, Triple env (Allowed t) (fun w _ => w.Anchor t) (act t action) fun _ w _ => w.Anchor t

/-- What the runs keep: the unit files stay anchored, and what they do not name stays. -/
structure Kept (ts : List Task) (w w' : Node) : Prop where
  anchored : w'.Anchored
  containers : ∀ name, (∀ t ∈ ts, t.params.name ≠ name) → w'.containers name = w.containers name
  files : ∀ path, (∀ t ∈ ts, Systemd.unitPath t ≠ path) → w'.files path = w.files path

section Played

variable {replies : NodeReplies E} {act : Task → Action → Worker E Bool} {ts : List Task}
  {w w' : Node}

theorem played_kept (h : Disciplined (onNode replies) act)
    (hplayed : Played (onNode replies) act ts w w') (hw : w.Anchored) : Kept ts w w' := by
  induction hplayed with
  | nil => exact ⟨hw, fun _ _ => rfl, fun _ _ => rfl⟩
  | @cons t ts action w w₁ w₂ tr p hsteps hdrives _ ih =>
    have hwp := h t action w false (hw.anchor t)
    have hkept : w₁.Anchor t ∧ w.Beside t w₁ := by
      refine wp_invariant (I := fun u => u.Anchor t ∧ w.Beside t u) ?_ hsteps hdrives hwp
        ⟨hw.anchor t, Node.Beside.refl⟩
      rintro u ev u' ⟨hanchor, hbeside⟩ hallowed hev
      exact ⟨hallowed.anchor hev hanchor, hbeside.trans (hallowed.beside hev)⟩
    obtain ⟨hanchor, hbeside⟩ := hkept
    have hrest := ih (hbeside.anchored hw hanchor)
    refine ⟨hrest.anchored, fun name hname => ?_, fun path hpath => ?_⟩
    · obtain ⟨hne, hnot⟩ := List.forall_mem_cons.mp hname
      exact (hrest.containers name hnot).trans (hbeside.containers name hne.symm)
    · obtain ⟨hne, hnot⟩ := List.forall_mem_cons.mp hpath
      exact (hrest.files path hnot).trans (hbeside.files path hne.symm)

end Played

end Container
end KollaPowerOps
