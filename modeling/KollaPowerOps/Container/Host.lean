import KollaPowerOps.Container.Systemd

/-!
# Container.Host

The host that a worker runs on: the images of the engine, and the container with the name of the
module's parameter.

* `EngineCalls` : what the calls of an engine touch.
* `onHost`      : the environment of a worker, from what the engine replies. What a call does not
  touch is as before, and systemd answers as it likes.
* `Reports`     : a run that ends normally and has a step of the given kind ends with the flag set.
* `Lasting`      : what a worker keeps while it leaves the images alone.
* `Told`        : what has happened, the flag tells.
-/

namespace KollaPowerOps
namespace Container

open Effect

/-! ## The host -/

structure Instance where
  info : ContainerInfo
  /-- it has been started since it was created -/
  started : Bool

structure Host where
  images : List Image
  nodup : (images.map Image.id).Nodup
  container : Option Instance

namespace Host

/-- The container is there and has never been started. -/
def Fresh (w : Host) : Prop := ∃ c, w.container = some c ∧ c.started = false

/-- An image has been added. -/
def Gained (w w' : Host) : Prop := ∃ image ∈ w'.images, image.id ∉ w.images.map Image.id

/-- What a call does not touch stays. -/
structure Frame (container images : Bool) (w w' : Host) : Prop where
  container : container = false → w'.container = w.container
  images : images = false → w'.images = w.images

theorem Frame.eq {w w' : Host} (h : Frame false false w w') : w' = w := by
  have himages := h.images rfl
  have hcontainer := h.container rfl
  cases w
  cases w'
  cases himages
  cases hcontainer
  rfl

/-- The image is listed under the tag, and what else is listed was listed before. -/
structure Pulled (image : Image) (tag : Text) (w w' : Host) : Prop where
  mem : image ∈ w'.images
  tagged : tag ∈ image.repoTags
  rest : ∀ i ∈ w'.images, i = image ∨ ∃ j ∈ w.images, j.id = i.id ∧ i.repoTags ⊆ j.repoTags

theorem Pulled.gained {image : Image} {tag : Text} {w w' : Host} (h : Pulled image tag w w')
    (hgained : Gained w w') : image.id ∉ w.images.map Image.id := by
  obtain ⟨i, hi, hnew⟩ := hgained
  rcases h.rest i hi with rfl | ⟨j, hj, hid, _⟩
  · exact hnew
  · exact absurd (hid ▸ List.mem_map_of_mem hj) hnew

end Host

variable {E : Type → Type}

/-! ## Reports -/

/-- A run with a step of the kind that ends normally ends with the flag set. -/
def Reports (env : Env (WorkerCall E) WorkerExit Host)
    (p : Host → Event (WorkerCall E) WorkerExit → Host → Prop) {α : Type} (m : Worker E α) : Prop :=
  ∀ w tr a changed w', Runs env w (m.run false) tr (.ok (a, changed)) w' →
    Happens env p w tr w' → changed = true

section Reports

variable {env : Env (WorkerCall E) WorkerExit Host}
  {p : Host → Event (WorkerCall E) WorkerExit → Host → Prop} {α : Type} {m : Worker E α}

/-- What has happened, the flag tells. -/
def Told (u : Host × Bool) (changed : Bool) : Prop := u.2 = true → changed = true

theorem reports_of_triple
    (h : Triple (env.watch p) (fun _ {_} _ => True) (fun u _ => u.2 = false) m fun _ => Told) :
    Reports env p m := by
  intro w tr a changed w' hrun hhappens
  have hlast := wp_steps hrun.1 (hhappens.watch false) (h (w, false) false rfl)
  exact hlast rfl

end Reports

theorem keeps_anyOf {W : Type} {env : Env (WorkerCall E) WorkerExit W}
    {P : W → ∀ {τ : Type}, WorkerCall E τ → Prop} {ms : List (Worker E Bool)}
    (h : ∀ m ∈ ms, Keeps env P m) : Keeps env P (anyOf ms) := by
  induction ms with
  | nil => exact Keeps.pure false
  | cons m ms ih =>
    obtain ⟨hm, hms⟩ := List.forall_mem_cons.mp h
    exact hm.bind fun found => Keeps.ite (fun _ => Keeps.pure true) fun _ => ih hms

/-- A comparison that never returns leaves no way to find no difference. -/
theorem anyOf_found {W : Type} {env : Env (WorkerCall E) WorkerExit W}
    {P : W → ∀ {τ : Type}, WorkerCall E τ → Prop} {pre : W → Bool → Prop} {ms : List (Worker E Bool)}
    (h : ∀ m ∈ ms, Keeps env P m) {m : Worker E Bool} (hm : m ∈ ms)
    (hstop : Triple env P pre m fun _ _ _ => False) :
    Triple env P pre (anyOf ms) fun found _ _ => found = true := by
  induction ms with
  | nil => cases hm
  | cons m' ms ih =>
    obtain ⟨hm', hms⟩ := List.forall_mem_cons.mp h
    rcases List.mem_cons.mp hm with rfl | hm
    · exact hstop.bind fun _ => Triple.of_false fun _ _ => id
    · refine (hm' pre).bind fun found => Triple.ite (fun _ => Triple.pure fun _ _ _ => rfl) fun _ => ?_
      exact ih hms hm

/-! ## The calls -/

class EngineCalls (E : Type → Type) where
  touchesContainer : {τ : Type} → E τ → Bool
  touchesImages : {τ : Type} → E τ → Bool
  touchesVolumes : {τ : Type} → E τ → Bool

variable [EngineCalls E]

namespace WorkerCall

variable {τ : Type}

def touchesContainer : WorkerCall E τ → Bool
  | .engine op => EngineCalls.touchesContainer op
  | .systemd op => op.touchesContainer

def touchesImages : WorkerCall E τ → Bool
  | .engine op => EngineCalls.touchesImages op
  | .systemd _ => false

/-- The call changes the engine or a unit file. -/
def changes : WorkerCall E τ → Bool
  | .engine op => EngineCalls.touchesContainer op || EngineCalls.touchesImages op ||
      EngineCalls.touchesVolumes op
  | .systemd op => op.changes

theorem touchesContainer_of_changes {op : WorkerCall E τ} (h : op.changes = false) :
    op.touchesContainer = false := by
  cases op with
  | engine op =>
    simp only [changes, Bool.or_eq_false_iff] at h
    exact h.1.1
  | systemd op =>
    cases op <;> first | rfl | exact h

theorem touchesImages_of_changes {op : WorkerCall E τ} (h : op.changes = false) :
    op.touchesImages = false := by
  cases op with
  | engine op =>
    simp only [changes, Bool.or_eq_false_iff] at h
    exact h.1.2
  | systemd op => rfl

end WorkerCall

/-- What an engine may answer in a state, and the state that it leaves. -/
abbrev Replies (E : Type → Type) : Type 1 := Host → {τ : Type} → E τ → τ → Host → Prop

/-- A call that raises an exception keeps to its frame as well. -/
def onHost (replies : Replies E) : Env (WorkerCall E) WorkerExit Host := fun w ev w' =>
  Host.Frame ev.op.touchesContainer ev.op.touchesImages w w' ∧
    match ev with
    | ⟨.engine op, .ok a⟩ => replies w op a w'
    | ⟨.systemd _, .ok _⟩ => w'.container.isSome = w.container.isSome
    | _ => True

/-! ## Rules for the environment -/

section Rules

variable {replies : Replies E} {p : Host → Event (WorkerCall E) WorkerExit → Host → Prop}
  {P : Host × Bool → ∀ {τ : Type}, WorkerCall E τ → Prop} {τ : Type} {op : WorkerCall E τ}

theorem unchanged (hop : op.changes = false) {w w' : Host} {x : Except WorkerExit τ}
    (h : onHost replies w ⟨op, x⟩ w') : w' = w := by
  have hframe := h.1
  simp only at hframe
  rw [WorkerCall.touchesContainer_of_changes hop, WorkerCall.touchesImages_of_changes hop] at hframe
  exact hframe.eq

/-- A call that changes nothing, where the watch does not mind it. -/
theorem quiet_watch (hop : op.changes = false) (hP : ∀ u, P u op)
    (hp : ∀ w x w', ¬ p w ⟨op, x⟩ w') : Quiet ((onHost replies).watch p) P op := by
  refine ⟨hP, ?_⟩
  rintro ⟨w, b⟩ a ⟨w', b'⟩ ⟨hev, hb⟩
  have hb' : b' = b := Bool.eq_iff_iff.mpr (hb.trans (or_iff_left (hp w _ w')))
  rw [(unchanged hop hev : w' = w), hb']

/-- A call that may be made keeps what is said of what it does not touch. -/
theorem preserves_container (φ : Option Instance → Prop) (hP : ∀ u, P u op)
    (hop : op.touchesContainer = false) :
    Preserves ((onHost replies).watch p) P (fun u _ => φ u.1.container) op := by
  rintro ⟨w, b⟩ c h
  refine ⟨hP _, ?_⟩
  rintro a ⟨w', b'⟩ ⟨⟨hframe, _⟩, _⟩
  rw [(hframe.container hop : w'.container = w.container)]
  exact h

theorem preserves_images (φ : List Image → Prop) (hP : ∀ u, P u op)
    (hop : op.touchesImages = false) :
    Preserves ((onHost replies).watch p) P (fun u _ => φ u.1.images) op := by
  rintro ⟨w, b⟩ c h
  refine ⟨hP _, ?_⟩
  rintro a ⟨w', b'⟩ ⟨⟨hframe, _⟩, _⟩
  rw [(hframe.images hop : w'.images = w.images)]
  exact h

end Rules

/-- What the calls keep that leave the images alone, and a rise of the flag. -/
structure Lasting {W : Type} (env : Env (WorkerCall E) WorkerExit W)
    (P : W → ∀ {τ : Type}, WorkerCall E τ → Prop) (φ : W → Bool → Prop) : Prop where
  quiet : ∀ {τ : Type} (op : WorkerCall E τ), op.changes = false → Quiet env P op
  call : ∀ {τ : Type} (op : WorkerCall E τ), op.touchesImages = false → Preserves env P φ op
  flag : ∀ w c, φ w c → φ w true

namespace Lasting

variable {W : Type} {env : Env (WorkerCall E) WorkerExit W}
  {P : W → ∀ {τ : Type}, WorkerCall E τ → Prop} {φ : W → Bool → Prop} (h : Lasting env P φ)
include h

theorem setChanged : Triple env P φ (setChanged (E := E) true) fun _ => φ := raise_changed h.flag

theorem orChanged (b : Bool) : Triple env P φ (orChanged (E := E) b) fun _ => φ := by
  refine Triple.modify fun w c hw => ?_
  cases b with
  | false => rwa [Bool.or_false]
  | true => rw [Bool.or_true]; exact h.flag w c hw

theorem engine {τ : Type} (op : E τ) (hop : EngineCalls.touchesImages op = false) :
    Triple env P φ (engine op) fun _ => φ := (h.call (.engine op) hop).triple

theorem createUnitFile (t : Task) : Triple env P φ (Systemd.createUnitFile t) fun _ => φ :=
  Systemd.file_createUnitFile t fun op _ => h.call (.systemd op) rfl

theorem removeUnitFile (t : Task) : Triple env P φ (Systemd.removeUnitFile t) fun _ => φ :=
  Systemd.file_removeUnitFile t fun op _ => h.call (.systemd op) rfl

theorem start (t : Task) : Triple env P φ (Systemd.start t) fun _ => φ :=
  Systemd.run_start t fun op => h.call (.systemd op) rfl

theorem restart (t : Task) : Triple env P φ (Systemd.restart t) fun _ => φ :=
  Systemd.run_restart t fun op => h.call (.systemd op) rfl

theorem stop (t : Task) : Triple env P φ (Systemd.stop t) fun _ => φ :=
  Systemd.run_stop t fun op => h.call (.systemd op) rfl

end Lasting

/-! ## What has happened and what the flag tells -/

/-- Every call may be made. -/
def Free {W : Type} {E : Type → Type} (_ : W) {τ : Type} (_ : WorkerCall E τ) : Prop := True

section Told

variable {E : Type → Type} {env : Env (WorkerCall E) WorkerExit (Host × Bool)} {α : Type}
  {m : Worker E α}

theorem free_ask {pre : Host × Bool → Bool → Prop} {τ : Type} (op : WorkerCall E τ) :
    Triple env Free pre (ask op) fun _ _ _ => True :=
  Triple.ask (fun _ _ _ => trivial) fun _ _ _ _ _ _ => trivial

theorem free_raise {pre : Host × Bool → Bool → Prop} :
    Triple env Free pre (setChanged (E := E) true) fun _ _ c => c = true :=
  raise_changed fun _ _ _ => rfl

theorem told_of_false {u : Host × Bool} {changed : Bool} (h : u.2 = false) : Told u changed := by
  intro htrue
  rw [h] at htrue
  cases htrue

theorem told_of_rises (h : Triple env Free Told m fun _ u c => Told u c ∨ c = true) :
    Triple env Free Told m fun _ => Told :=
  h.with_post fun _ _ _ hw => hw.elim id fun hc _ => hc

theorem told_orChanged (b : Bool) :
    Triple env Free (fun u c => b = true ∨ Told u c) (orChanged (E := E) b) fun _ => Told := by
  refine Triple.modify ?_
  rintro u c (rfl | h) hu
  · exact Bool.or_true c
  · rw [h hu, Bool.true_or]

/-- A removed unit file is what the method returns. -/
theorem told_removeUnitFile (t : Task) (hquiet : ∀ {τ : Type} (op : SystemdCall τ),
    op.changes = false → Quiet env Free (.systemd op)) :
    Triple env Free Told (Systemd.removeUnitFile t) fun removed u c => removed = true ∨ Told u c := by
  refine (Systemd.keeps_checkUnitFile t hquiet Told).bind fun present => ?_
  refine Triple.ite (fun _ => ?_) fun _ => Triple.pure fun _ _ => .inr
  exact (free_ask _).bind fun _ => (free_ask _).bind fun _ => Triple.pure fun _ _ _ => .inl rfl

end Told

end Container
end KollaPowerOps
