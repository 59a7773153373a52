import KollaPowerOps.Container.PodmanHost

/-!
# Container.PodmanReported

What a run of the Podman worker alters, and that the flag tells what the worker takes note of.

* `Alters`   : a step changes the engine or a unit file; a pull does where it adds an image.
* `Noticed`  : the alterations that are noticed, all but the removal of the container.
* `told_act` : the actions, from where nothing has happened.
-/

namespace KollaPowerOps
namespace Container

open Effect

namespace Podman

variable (n : Naming) (t : Task)

def Alters (w : Host) : Event (WorkerCall PodmanCall) WorkerExit → Host → Prop
  | ⟨.engine (.pull _), _⟩, w' => w.Gained w'
  | ⟨op, _⟩, _ => op.changes = true

def Noticed (w : Host) : Event (WorkerCall PodmanCall) WorkerExit → Host → Prop
  | ⟨.engine (.removeContainer _), _⟩, _ => False
  | ev, w' => Alters w ev w'

abbrev watched : Env (WorkerCall PodmanCall) WorkerExit (Host × Bool) :=
  (onHost (replies n t)).watch Noticed

variable {n t}

theorem not_noticed {τ : Type} {op : WorkerCall PodmanCall τ} (h : op.changes = false)
    (w : Host) (x : Except WorkerExit τ) (w' : Host) : ¬ Noticed w ⟨op, x⟩ w' := by
  cases op with
  | systemd op => exact Bool.eq_false_iff.mp h
  | engine op => cases op <;> first | exact Bool.eq_false_iff.mp h | cases h

theorem quiet_watched {τ : Type} (op : WorkerCall PodmanCall τ) (h : op.changes = false) :
    Quiet (watched n t) Free op := quiet_watch h (fun _ => trivial) (not_noticed h)

theorem lasting_flag : Lasting (watched n t) Free fun _ c => c = true where
  quiet := quiet_watched
  call _ _ := preserves_flag fun _ => trivial
  flag _ _ _ := rfl

theorem raised {u : Host × Bool} {c : Bool} : Told u c → true = true := fun _ => rfl

variable {φ : Host × Bool → Bool → Prop}

theorem sees_findContainer (cs : List PodmanContainer) :
    Triple (watched n t) Free φ (findContainer t cs) fun found u c => φ u c ∧
      (found.isSome = true ↔ ∃ x ∈ cs, t.params.name = x.name) ∧
        ∀ x, found = some x → u.1.Fresh → x.status ≠ "running".toList := by
  induction cs generalizing φ with
  | nil => exact Triple.pure fun u c hw => ⟨hw, by simp, fun x hx => by cases hx⟩
  | cons x cs ih =>
    have hask : Triple (watched n t) Free φ (engine (.reload x)) fun y u c => φ u c ∧
        y.name = x.name ∧ (t.params.name = x.name → u.1.Fresh → y.status ≠ "running".toList) := by
      refine Triple.ask (fun _ _ _ => trivial) fun u c y u' hw hev => ?_
      obtain rfl := (quiet_watched (.engine (.reload x)) rfl).2 u y u' hev
      exact ⟨hw, hev.1.2⟩
    refine hask.bind fun y => Triple.ite (fun hname => ?_) fun hname => ?_
    · refine Triple.pure ?_
      rintro u c ⟨hw, hy, hfresh⟩
      have hx := hname.trans hy
      refine ⟨hw, by simp [hx], ?_⟩
      rintro z ⟨⟩
      exact hfresh hx
    · refine ih.with_post ?_
      rintro found u c ⟨⟨hw, hy, _⟩, hiff, hstatus⟩
      have hx : t.params.name ≠ x.name := hy ▸ hname
      exact ⟨hw, by simp [hiff, hx], hstatus⟩

/-- The listing says whether the container is there, and one that has never been started does not
run. -/
theorem sees_checkContainer : Triple (watched n t) Free φ (checkContainer t) fun found u c =>
    φ u c ∧ found.isSome = u.1.container.isSome ∧
      ∀ x, found = some x → u.1.Fresh → x.status ≠ "running".toList := by
  have hask : Triple (watched n t) Free φ (engine .containers) fun cs u c =>
      φ u c ∧ ((∃ x ∈ cs, t.params.name = x.name) ↔ u.1.container.isSome = true) := by
    refine Triple.ask (fun _ _ _ => trivial) fun u c cs u' hw hev => ?_
    obtain rfl := (quiet_watched (.engine .containers) rfl).2 u cs u' hev
    exact ⟨hw, hev.1.2⟩
  refine hask.bind fun cs => (sees_findContainer cs).with_post ?_
  rintro found u c ⟨⟨hw, hsome⟩, hfound, hstatus⟩
  exact ⟨hw, Bool.eq_iff_iff.mpr (hfound.trans hsome), hstatus⟩

/-! ## Containers -/

theorem told_stopContainer : Triple (watched n t) Free Told (stopContainer t) fun _ => Told :=
  told_of_rises (rises_stopContainer t lasting_flag fun _ _ => raised)

/-- After a removal the container is gone. -/
theorem told_removeContainer : Triple (watched n t) Free Told (removeContainer t) fun _ u c =>
    Told u c ∧ u.1.container = none := by
  refine (told_removeUnitFile t fun op => quiet_watched (.systemd op)).bind fun removed => ?_
  refine (told_orChanged removed).bind fun _ => sees_checkContainer.bind fun found => ?_
  cases found with
  | none =>
    refine Triple.pure fun u c hw => ⟨hw.1, ?_⟩
    exact Option.isSome_eq_false_iff.mp hw.2.1.symm |> Option.isNone_iff_eq_none.mp
  | some x =>
    have hremove : Triple (watched n t) Free Told (engine (.removeContainer x)) fun done u c =>
        Told u c ∧ (done = true → u.1.container = none) := by
      refine Triple.ask (fun _ _ _ => trivial) ?_
      rintro u c done u' htold ⟨⟨_, hreply⟩, hwatch⟩
      refine ⟨fun hu' => htold ?_, hreply⟩
      rcases hwatch.mp hu' with hu | hnoticed
      · exact hu
      · exact hnoticed.elim
    refine (hremove.with_pre fun _ _ hw => hw.1).bind fun done => ?_
    refine Triple.ite (fun _ => ?_) fun hdone => ?_
    · refine sees_checkContainer.bind fun found => ?_
      refine Triple.ite (fun _ => Triple.fail) fun hgone => ?_
      refine Triple.pure fun u c hw => ⟨hw.1.1, ?_⟩
      rwa [hw.2.1, Option.not_isSome_iff_eq_none] at hgone
    · refine Triple.pure fun u c hw => ⟨hw.1, hw.2 ?_⟩
      simpa using hdone

theorem told_stopAndRemove : Triple (watched n t) Free Told
    (do stopContainer t; removeContainer t : PodmanWorker Unit) fun _ => Told :=
  told_stopContainer.bind fun _ => told_removeContainer.with_post fun _ _ _ => And.left

theorem told_stopAndRemoveContainer :
    Triple (watched n t) Free Told (stopAndRemoveContainer t) fun _ => Told :=
  (keeps_checkContainer t quiet_watched Told).bind fun _ =>
    Triple.ite (fun _ => told_stopAndRemove) fun _ => Triple.pure fun _ _ hw => hw

theorem told_waitForExit : Triple (watched n t) Free Told (waitForExit t) fun _ => Told :=
  triple_waitForExit t lasting_flag <|
    Triple.ite (fun _ => told_stopAndRemove) fun _ => Triple.pure fun _ _ hw => hw

section Start

variable {rt : PyRuntime}

/-- A container that has just been created has never been started. -/
theorem fresh_createContainer : Triple (watched n t) Free φ (createContainer rt t) fun _ u _ =>
    u.1.Fresh := by
  have hfree : Lasting (watched n t) Free fun _ _ => True :=
    { quiet := quiet_watched, call := fun _ _ => preserves_flag fun _ => trivial,
      flag := fun _ _ => id }
  refine ((stable_createVolumesOf t hfree _).with_pre fun _ _ _ => trivial).bind fun _ => ?_
  refine (Keeps.compute _ _).bind fun args => ?_
  have hcreate : Triple (watched n t) Free (fun _ _ => True) (engine (.createContainer args))
      fun created u _ => created = true → u.1.Fresh :=
    Triple.ask (fun _ _ _ => trivial) fun _ _ _ _ _ hev => hev.1.2
  refine hcreate.bind fun created => Triple.ite (fun hcreated => ?_) fun _ => Triple.fail
  have hunit : Triple (watched n t) Free (fun u _ => u.1.Fresh) (Systemd.createUnitFile t)
      fun _ u _ => u.1.Fresh :=
    Systemd.file_createUnitFile t fun op hop => preserves_container
      (fun container => ∃ c, container = some c ∧ c.started = false) (fun _ => trivial) hop
  refine (hunit.with_pre fun u c hw => hw hcreated).bind fun written => ?_
  exact Triple.modify fun _ _ hw => hw

/-- What has happened may be told by the creation of a missing container. -/
theorem told_removeIfDiffers :
    Triple (watched n t) Free (fun u c => Told u c ∨ u.1.container = none)
      (removeIfDiffers rt t) fun found u c => found.isSome = true → Told u c := by
  refine sees_checkContainer.bind fun found => ?_
  cases found with
  | none => exact Triple.pure fun _ _ _ h => by cases h
  | some x =>
    refine Triple.with_pre (?_ : Triple _ _ Told _ _) ?_
    · refine (keeps_checkDiffers rt t quiet_watched Told).bind fun differs => ?_
      refine Triple.ite (fun _ => ?_) fun _ => Triple.pure fun _ _ hw _ => hw
      refine told_stopContainer.bind fun _ => told_removeContainer.bind fun _ => ?_
      exact (keeps_checkContainer t quiet_watched _).with_post fun _ _ _ hw _ => hw.1
    · rintro u b ⟨htold | hgone, hsome, _⟩
      · exact htold
      · rw [hgone] at hsome
        cases hsome

/-- What has happened is told, or it will be when the container is started. -/
def ToldBy (found : Option PodmanContainer) (u : Host × Bool) (c : Bool) : Prop :=
  Told u c ∨ ∀ x, found = some x → x.status ≠ "running".toList

theorem told_createIfMissing (found : Option PodmanContainer) :
    Triple (watched n t) Free (fun u c => found.isSome = true → Told u c)
      (createIfMissing rt t found) ToldBy := by
  cases found with
  | none =>
    refine fresh_createContainer.bind fun _ => sees_checkContainer.with_post ?_
    rintro found u c ⟨hfresh, _, hstatus⟩
    exact .inr fun x hx => hstatus x hx hfresh
  | some x => exact Triple.pure fun _ _ hw => .inl (hw rfl)

theorem told_foundContainer (found : Option PodmanContainer) :
    Triple (watched n t) Free (ToldBy found) (foundContainer found) fun x u c =>
      Told u c ∨ x.status ≠ "running".toList := by
  cases found with
  | none => exact Triple.fail
  | some x => exact Triple.pure fun _ _ hw => hw.imp_right fun hdown => hdown x rfl

theorem told_startIfDown (x : PodmanContainer) :
    Triple (watched n t) Free (fun u c => Told u c ∨ x.status ≠ "running".toList)
      (startIfDown t x) fun _ => Told := by
  refine (rises_startIfDown t lasting_flag (fun _ _ _ => rfl) x).with_post ?_
  rintro _ u c (⟨hrunning, htold | hdown⟩ | hc)
  · exact htold
  · exact absurd hrunning hdown
  · exact fun _ => hc

theorem told_startWithImage :
    Triple (watched n t) Free (fun u c => Told u c ∨ u.1.container = none)
      (startWithImage rt t) fun _ => Told := by
  refine told_removeIfDiffers.bind fun found => (told_createIfMissing found).bind fun found => ?_
  refine (told_foundContainer found).bind fun x => (told_startIfDown x).bind fun _ => ?_
  exact told_waitForExit

end Start

/-! ## Images -/

theorem sees_checkImage : Triple (watched n t) Free φ (checkImage t) fun found u c =>
    φ u c ∧ ∀ image, found = some image → image.image ∈ u.1.images := by
  refine (Keeps.compute _ φ).bind fun name => ?_
  have hask : Triple (watched n t) Free φ (engine (.getImage name)) fun answer u c =>
      φ u c ∧ ∀ image, answer = .ok (some image) → image.image ∈ u.1.images := by
    refine Triple.ask (fun _ _ _ => trivial) fun u c answer u' hw hev => ?_
    obtain rfl := (quiet_watched (.engine (.getImage name)) rfl).2 u answer u' hev
    exact ⟨hw, fun image hanswer => (hev.1.2 _ hanswer).2 image rfl⟩
  refine hask.bind fun answer => ?_
  cases answer with
  | ok found => exact Triple.pure fun u c hw => ⟨hw.1, fun image h => hw.2 image (by rw [h])⟩
  | error explanation => exact Triple.fail

/-- What the worker compares before and after a pull differs where an image is added. -/
theorem imageChanged_of_gained {w w' : Host} {old : Option PodmanImage} {new : PodmanImage}
    {tag : Text} (hold : ∀ image, old = some image → image.image ∈ w.images)
    (h : Host.Pulled new.image tag w w') (hgained : w.Gained w') : imageChanged old new = true := by
  have hnew := h.gained hgained
  rw [imageChanged, Bool.not_eq_true']
  cases old with
  | none => rfl
  | some image =>
    have hne : image.image.id ≠ new.image.id := by
      intro hid
      exact hnew (hid ▸ List.mem_map_of_mem (hold image rfl))
    simp [PodmanImage.same, hne]

/-- A pull from where nothing has happened. -/
theorem told_pullImage :
    Triple (watched n t) Free (fun u _ => u.2 = false) (pullImage t) fun _ => Told := by
  refine (Keeps.compute _ _).bind fun args => sees_checkImage.bind fun oldImage => ?_
  have hpull : Triple (watched n t) Free
      (fun u _ => u.2 = false ∧ ∀ image, oldImage = some image → image.image ∈ u.1.images)
      (engine (.pull args)) fun answer u _ => ∀ image, answer = .ok (some image) → u.2 = true →
        imageChanged oldImage image = true := by
    refine Triple.ask (fun _ _ _ => trivial) ?_
    rintro u c answer u' ⟨hfalse, hold⟩ ⟨⟨_, hreply⟩, hwatch⟩ image hanswer hu'
    rcases hwatch.mp hu' with hu | hgained
    · rw [hfalse] at hu
      cases hu
    · exact imageChanged_of_gained hold (hreply image hanswer) hgained
  refine hpull.bind fun answer => ?_
  rcases answer with message | image | image
  · exact Triple.fail
  · exact Triple.fail
  · exact Triple.set fun u c hw hu => hw image rfl hu

theorem told_ensureImage :
    Triple (watched n t) Free (fun u _ => u.2 = false) (ensureImage t) fun _ => Told := by
  refine (keeps_checkImage t quiet_watched _).bind fun found => Triple.ite (fun _ => ?_) fun _ => ?_
  · exact told_pullImage
  · exact Triple.pure fun _ _ hw => told_of_false hw

theorem gone_ensureImage : Triple (watched n t) Free (fun u _ => u.1.container = none)
    (ensureImage t) fun _ u _ => u.1.container = none := by
  refine (keeps_checkImage t quiet_watched _).bind fun found => ?_
  refine Triple.ite (fun _ => ?_) fun _ => Triple.pure fun _ _ hw => hw
  exact kept_pullImage t quiet_watched fun args =>
    preserves_container (· = none) (fun _ => trivial) rfl

theorem told_removeImage : Triple (watched n t) Free Told (removeImage t) fun _ => Told := by
  refine (keeps_checkImage t quiet_watched Told).bind fun found => ?_
  refine Triple.ite (fun _ => ?_) fun _ => Triple.pure fun _ _ hw => hw
  refine (keeps_ask quiet_watched (.getImage _) rfl Told).bind fun answer => ?_
  rcases answer with explanation | image | image
  · exact Triple.fail
  · exact Triple.fail
  · refine free_raise.bind fun _ => (preserves_flag fun _ => trivial).triple.bind fun result => ?_
    cases result with
    | removed => exact Triple.pure fun _ _ hc _ => hc
    | conflict => exact Triple.fail
    | failed explanation => exact Triple.fail

/-! ## Volumes and comparisons -/

theorem told_removeVolume : Triple (watched n t) Free Told (removeVolume t) fun _ => Told := by
  refine (keeps_checkVolume t quiet_watched _ Told).bind fun present => ?_
  refine Triple.ite (fun _ => ?_) fun _ => Triple.pure fun _ _ hw => hw
  refine free_raise.bind fun _ => (preserves_flag fun _ => trivial).triple.bind fun result => ?_
  cases result with
  | removed => exact Triple.pure fun _ _ hc _ => hc
  | conflict => exact Triple.fail
  | failed explanation => exact Triple.fail

section Actions

variable {rt : PyRuntime}

theorem told_compareContainer :
    Triple (watched n t) Free Told (compareContainer rt t) fun _ => Told := by
  have hstale : Keeps (watched n t) Free (anyOf [
      do return (← checkContainer t).isNone,
      checkDiffers rt t,
      compareConfig t,
      Systemd.checkUnitChange t (Systemd.generateUnitFile t)]) := by
    refine keeps_anyOf (List.forall_mem_cons.mpr ⟨?_, List.forall_mem_cons.mpr ⟨?_,
      List.forall_mem_cons.mpr ⟨?_, List.forall_mem_singleton.mpr ?_⟩⟩⟩)
    · exact (keeps_checkContainer t quiet_watched).bind fun _ => Keeps.pure _
    · exact keeps_checkDiffers rt t quiet_watched
    · exact keeps_compareConfig t quiet_watched
    · exact Systemd.keeps_checkUnitChange t (fun op => quiet_watched (.systemd op)) _
  refine (hstale Told).bind fun stale => Triple.bind (?_ : Triple _ _ Told _ fun _ => Told) fun _ => ?_
  · exact Triple.ite (fun _ => free_raise.with_post fun _ _ _ hc _ => hc) fun _ =>
      Triple.pure fun _ _ hw => hw
  · exact Triple.get fun _ _ hw => hw

theorem told_compareImageAction :
    Triple (watched n t) Free Told (compareImageAction t) fun _ => Told := by
  refine (keeps_getContainerInfo t quiet_watched Told).bind fun info => ?_
  cases info with
  | none => exact Triple.pure fun _ _ hw => hw
  | some info =>
    exact (keeps_checkImageAttrs t quiet_watched Told).bind fun _ => Triple.pure fun _ _ hw => hw

theorem told_startContainer : Triple (watched n t) Free
    (fun u _ => u.2 = false ∨ u.1.container = none) (startContainer rt t) fun _ => Told := by
  have himage : Triple (watched n t) Free (fun u _ => u.2 = false ∨ u.1.container = none)
      (ensureImage t) fun _ u c => Told u c ∨ u.1.container = none :=
    Triple.or (told_ensureImage.with_post fun _ _ _ => .inl)
      (gone_ensureImage.with_post fun _ _ _ => .inr)
  exact himage.bind fun _ => told_startWithImage

theorem told_recreateOrRestartContainer : Triple (watched n t) Free (fun u _ => u.2 = false)
    (recreateOrRestartContainer rt t) fun _ => Told := by
  refine (keeps_getContainerInfo t quiet_watched _).bind fun info => ?_
  cases info with
  | none => exact told_startContainer.with_pre fun _ _ => .inl
  | some info =>
    refine (keeps_mustRecreate rt t quiet_watched _).bind fun recreate => ?_
    refine Triple.ite (fun _ => ?_) fun _ => Triple.ite (fun _ => ?_) fun _ => ?_
    · refine told_ensureImage.bind fun _ => told_stopContainer.bind fun _ => ?_
      refine told_removeContainer.bind fun _ => ?_
      exact told_startContainer.with_pre fun _ _ hw => .inr hw.2
    · exact (rises_restartContainer t lasting_flag fun _ _ _ => rfl).with_post fun _ _ _ hc _ => hc
    · exact Triple.pure fun _ _ hw => told_of_false hw

theorem told_act (action : Action) : Triple (watched n t) Free (fun u _ => u.2 = false)
    (act rt t action) fun _ => Told := by
  have hstart : ∀ {α : Type} {m : PodmanWorker α}, Triple (watched n t) Free Told m (fun _ => Told) →
      Triple (watched n t) Free (fun u _ => u.2 = false) m fun _ => Told :=
    fun h => h.with_pre fun _ _ => told_of_false
  cases action with
  | compareContainer => exact hstart told_compareContainer
  | compareImage => exact hstart told_compareImageAction
  | createVolume =>
    refine Triple.then_return (hstart (told_of_rises ?_)) false
    exact rises_createVolume t lasting_flag (fun _ _ => raised) _
  | ensureImage => exact Triple.then_return told_ensureImage false
  | pullImage => exact Triple.then_return told_pullImage false
  | recreateOrRestartContainer => exact Triple.then_return told_recreateOrRestartContainer false
  | removeContainer => exact Triple.then_return (hstart (told_removeContainer.with_post fun _ _ _ => And.left)) false
  | removeImage => exact Triple.then_return (hstart told_removeImage) false
  | removeVolume => exact Triple.then_return (hstart told_removeVolume) false
  | restartContainer =>
    refine Triple.then_return (hstart ?_) false
    exact (rises_restartContainer t lasting_flag fun _ _ _ => rfl).with_post fun _ _ _ hc _ => hc
  | startContainer => exact Triple.then_return (told_startContainer.with_pre fun _ _ => .inl) false
  | stopContainer => exact Triple.then_return (hstart told_stopContainer) false
  | stopAndRemoveContainer => exact Triple.then_return (hstart told_stopAndRemoveContainer) false

end Actions

end Podman

end Container
end KollaPowerOps
