import KollaPowerOps.Container.DockerHost

/-!
# Container.DockerReported

What a run of the Docker worker alters, and that the flag tells what the worker takes note of.

* `Alters`   : a step changes the engine or a unit file; a pull does where it adds an image.
* `Noticed`  : the alterations that are noticed, all but some pulls.
* `told_act` : the actions, from where nothing has happened.
-/

namespace KollaPowerOps
namespace Container

open Effect

namespace Docker

variable (n : Naming) (t : Task)

def Alters (w : Host) : Event (WorkerCall DockerCall) WorkerExit → Host → Prop
  | ⟨.engine (.pull _ _), _⟩, w' => w.Gained w'
  | ⟨op, _⟩, _ => op.changes = true

/-- An image that is added is noticed if at most one was listed under the requested name and the new
one is. -/
def Noticed (w : Host) : Event (WorkerCall DockerCall) WorkerExit → Host → Prop
  | ⟨.engine (.pull repository tag), _⟩, w' => w.Gained w' ∧
    (n.listed t.params.image w).length ≤ 1 ∧
      n.matchesTag t.params.image (n.listedAs repository tag) = true
  | ⟨op, _⟩, _ => op.changes = true

abbrev watched : Env (WorkerCall DockerCall) WorkerExit (Host × Bool) :=
  (onHost (replies n t)).watch (Noticed n t)

variable {n t}

theorem not_noticed {τ : Type} {op : WorkerCall DockerCall τ} (h : op.changes = false)
    (w : Host) (x : Except WorkerExit τ) (w' : Host) : ¬ Noticed n t w ⟨op, x⟩ w' := by
  cases op with
  | systemd op => exact Bool.eq_false_iff.mp h
  | engine op => cases op <;> first | exact Bool.eq_false_iff.mp h | cases h

theorem quiet_watched {τ : Type} (op : WorkerCall DockerCall τ) (h : op.changes = false) :
    Quiet (watched n t) Free op := quiet_watch h (fun _ => trivial) (not_noticed h)

theorem lasting_flag : Lasting (watched n t) Free fun _ c => c = true where
  quiet := quiet_watched
  call _ _ := preserves_flag fun _ => trivial
  flag _ _ _ := rfl

theorem raised {u : Host × Bool} {c : Bool} : Told u c → true = true := fun _ => rfl

variable {φ : Host × Bool → Bool → Prop}

/-- The listing says whether the container is there. -/
theorem sees_checkContainer : Triple (watched n t) Free φ (checkContainer t) fun found u c =>
    φ u c ∧ found.isSome = u.1.container.isSome := by
  have hask : Triple (watched n t) Free φ (engine .containers) fun l u c =>
      φ u c ∧ l.any (isNamed t) = u.1.container.isSome := by
    refine Triple.ask (fun _ _ _ => trivial) fun u c l u' hw hev => ?_
    obtain rfl := (quiet_watched (.engine .containers) rfl).2 u l u' hev
    exact ⟨hw, hev.1.2⟩
  refine hask.bind fun l => Triple.pure fun u c hw => ⟨hw.1, ?_⟩
  rw [← hw.2, List.isSome_find?]

/-! ## Containers -/

theorem told_stopContainer : Triple (watched n t) Free Told (stopContainer t) fun _ => Told :=
  told_of_rises (rises_stopContainer t lasting_flag fun _ _ => raised)

/-- After a removal the container is gone. -/
theorem told_removeContainer : Triple (watched n t) Free Told (removeContainer t) fun _ u c =>
    Told u c ∧ u.1.container = none := by
  refine (told_removeUnitFile t fun op => quiet_watched (.systemd op)).bind fun removed => ?_
  refine (told_orChanged removed).bind fun _ => sees_checkContainer.bind fun found => ?_
  refine Triple.ite (fun _ => ?_) fun hmissing => ?_
  · refine free_raise.bind fun _ => ?_
    have hremove : Triple (watched n t) Free (fun _ c => c = true)
        (engine (.removeContainer t.params.name)) fun done u c =>
          c = true ∧ (done = true → u.1.container = none) :=
      Triple.ask (fun _ _ _ => trivial) fun u c done u' hc hev => ⟨hc, hev.1.2⟩
    refine hremove.bind fun done => ?_
    refine Triple.ite (fun hdone => ?_) fun _ => ?_
    · have hgone : Triple (watched n t) Free (fun u c => c = true ∧ u.1.container = none)
          (Systemd.removeUnitFile t) fun _ u c => c = true ∧ u.1.container = none :=
        Systemd.file_removeUnitFile t fun op hop =>
          (preserves_flag fun _ => trivial).and <|
            preserves_container (· = none) (fun _ => trivial) hop
      refine (hgone.with_pre fun u c hw => ⟨hw.1, hw.2 hdone⟩).bind fun _ => ?_
      exact Triple.pure fun u c hw => ⟨fun _ => hw.1, hw.2⟩
    · refine sees_checkContainer.bind fun found => ?_
      refine Triple.ite (fun _ => Triple.fail) fun hgone => ?_
      refine Triple.pure fun u c hw => ⟨fun _ => hw.1.1, ?_⟩
      rwa [hw.2, Option.not_isSome_iff_eq_none] at hgone
  · refine Triple.pure fun u c hw => ⟨hw.1, ?_⟩
    rwa [hw.2, Option.not_isSome_iff_eq_none] at hmissing

theorem told_stopAndRemove : Triple (watched n t) Free Told
    (do stopContainer t; removeContainer t : DockerWorker Unit) fun _ => Told :=
  told_stopContainer.bind fun _ => told_removeContainer.with_post fun _ _ _ => And.left

theorem told_stopAndRemoveContainer :
    Triple (watched n t) Free Told (stopAndRemoveContainer t) fun _ => Told :=
  (keeps_checkContainer t quiet_watched Told).bind fun _ =>
    Triple.ite (fun _ => told_stopAndRemove) fun _ => Triple.pure fun _ _ hw => hw

theorem told_waitForExit : Triple (watched n t) Free Told (waitForExit t) fun _ => Told :=
  triple_waitForExit t lasting_flag <|
    Triple.ite (fun _ => told_stopAndRemove) fun _ => Triple.pure fun _ _ hw => hw

section Start

variable {rt : PyRuntime} {parseRepositoryTag : Text → Text × Option Text}

/-- What has happened may be told by the creation of a missing container. -/
theorem told_removeIfDiffers :
    Triple (watched n t) Free (fun u c => Told u c ∨ u.1.container = none)
      (removeIfDiffers rt parseRepositoryTag t) fun found u c => found.isSome = true → Told u c := by
  refine sees_checkContainer.bind fun found => ?_
  cases found with
  | none => exact Triple.pure fun _ _ _ h => by cases h
  | some c =>
    have hpresent : ∀ (u : Host × Bool) (b : Bool), (Told u b ∨ u.1.container = none) ∧
        (some c).isSome = u.1.container.isSome → Told u b := by
      rintro u b ⟨htold | hgone, hsome⟩
      · exact htold
      · rw [hgone] at hsome
        cases hsome
    refine Triple.with_pre ?_ hpresent
    refine (keeps_checkDiffers rt parseRepositoryTag t quiet_watched Told).bind fun differs => ?_
    refine Triple.ite (fun _ => ?_) fun _ => Triple.pure fun _ _ hw _ => hw
    refine told_stopContainer.bind fun _ => told_removeContainer.bind fun _ => ?_
    refine (keeps_checkContainer t quiet_watched _).with_post fun found u c hw _ => ?_
    exact hw.1

theorem told_createIfMissing (found : Option ContainerSummary) :
    Triple (watched n t) Free (fun u c => found.isSome = true → Told u c)
      (createIfMissing rt t found) fun _ => Told := by
  cases found with
  | none =>
    refine (rises_createContainer rt t lasting_flag fun _ _ _ => rfl).bind fun _ => ?_
    exact (keeps_checkContainer t quiet_watched _).with_post fun _ _ _ hc _ => hc
  | some c => exact Triple.pure fun _ _ hw => hw rfl

theorem told_startWithImage :
    Triple (watched n t) Free (fun u c => Told u c ∨ u.1.container = none)
      (startWithImage rt parseRepositoryTag t) fun _ => Told := by
  refine told_removeIfDiffers.bind fun found => (told_createIfMissing found).bind fun found => ?_
  refine (told_of_rises (rises_startIfDown t lasting_flag (fun _ _ => raised) found)).bind fun _ => ?_
  exact told_waitForExit

end Start

/-! ## Images -/

/-- The identifier of the image, if it is the only one. -/
def onlyId (images : List Image) : Option Text :=
  match images.map Image.id with
  | [id] => some id
  | _ => none

theorem sees_getImageId : Triple (watched n t) Free φ (getImageId t) fun id u c =>
    φ u c ∧ id = onlyId (n.listed t.params.image u.1) := by
  have hname : Triple (watched n t) Free φ (compute t.fullImage) fun name u c =>
      φ u c ∧ name = t.params.image := by
    refine Triple.compute fun name u c hok hw => ⟨hw, ?_⟩
    rw [Task.fullImage] at hok
    split at hok
    · cases hok
      rfl
    · cases hok
  refine hname.bind fun name => ?_
  have hask : Triple (watched n t) Free (fun u c => φ u c ∧ name = t.params.image)
      (engine (.imageIds name)) fun ids u c =>
        φ u c ∧ ids = (n.listed t.params.image u.1).map Image.id := by
    refine Triple.ask (fun _ _ _ => trivial) ?_
    rintro u c ids u' ⟨hw, rfl⟩ hev
    obtain rfl := (quiet_watched (.engine (.imageIds t.params.image)) rfl).2 u ids u' hev
    exact ⟨hw, hev.1.2⟩
  refine hask.bind fun ids => ?_
  split
  · refine Triple.pure fun u c hw => ⟨hw.1, ?_⟩
    rw [onlyId, ← hw.2]
  · rename_i hne
    refine Triple.pure fun u c hw => ⟨hw.1, ?_⟩
    rw [onlyId, ← hw.2]
    split
    · exact absurd rfl (hne _)
    · rfl

theorem mem_listed {name : Text} {w : Host} {image : Image} :
    image ∈ n.listed name w ↔
      image ∈ w.images ∧ ∃ tag ∈ image.repoTags, n.matchesTag name tag = true := by
  rw [Naming.listed, List.mem_filter, List.any_eq_true]

theorem nodup_listed (name : Text) (w : Host) : (n.listed name w).Nodup :=
  (List.Nodup.of_map _ w.nodup).filter _

/-- What the worker compares before and after a pull differs where the pull is noticed. -/
theorem onlyId_ne {w w' : Host} {image : Image} {name tag : Text} (h : Host.Pulled image tag w w')
    (hgained : w.Gained w') (hfew : (n.listed name w).length ≤ 1)
    (hmatch : n.matchesTag name tag = true) :
    onlyId (n.listed name w) ≠ onlyId (n.listed name w') := by
  have hnew := h.gained hgained
  have himage : image ∈ n.listed name w' := mem_listed.mpr ⟨h.mem, tag, h.tagged, hmatch⟩
  match hlisted : n.listed name w with
  | [] =>
    have hall : ∀ i ∈ n.listed name w', i = image := by
      intro i hi
      obtain ⟨hi, tag', htag, hmatch'⟩ := mem_listed.mp hi
      rcases h.rest i hi with rfl | ⟨j, hj, _, hsub⟩
      · rfl
      · have hj : j ∈ n.listed name w := mem_listed.mpr ⟨hj, tag', hsub htag, hmatch'⟩
        rw [hlisted] at hj
        cases hj
    have hone : n.listed name w' = [image] := by
      have hrep := List.eq_replicate_of_mem hall
      have hnodup := nodup_listed (n := n) name w'
      rw [hrep] at himage hnodup ⊢
      have hle := List.nodup_replicate.mp hnodup
      have hpos := List.length_pos_of_mem himage
      rw [List.length_replicate] at hpos
      rw [Nat.le_antisymm hle hpos]
      rfl
    rw [hone]
    intro hsame
    cases hsame
  | [x] =>
    intro hsame
    have hids : image.id ∈ (n.listed name w').map Image.id := List.mem_map_of_mem himage
    have hx : x ∈ w.images := (mem_listed.mp (hlisted ▸ List.mem_singleton_self x)).1
    simp only [onlyId, List.map_cons, List.map_nil] at hsame
    split at hsame
    · rename_i id hid
      cases hsame
      rw [hid, List.mem_singleton] at hids
      exact hnew (hids ▸ List.mem_map_of_mem hx)
    · cases hsame
  | x :: y :: rest =>
    rw [hlisted] at hfew
    simp at hfew

/-- A pull from where nothing has happened. -/
theorem told_pullImage :
    Triple (watched n t) Free (fun u _ => u.2 = false) (pullImage t) fun _ => Told := by
  refine (keeps_loginIfAsked t quiet_watched _).bind fun _ => (Keeps.compute _ _).bind fun parsed => ?_
  refine sees_getImageId.bind fun oldImageId => ?_
  have hpull : Triple (watched n t) Free
      (fun u _ => u.2 = false ∧ oldImageId = onlyId (n.listed t.params.image u.1))
      (engine (.pull parsed.1 parsed.2)) fun statuses u _ =>
        statuses.reverse.findSome? PullStatus.error = none → u.2 = true →
          oldImageId ≠ onlyId (n.listed t.params.image u.1) := by
    refine Triple.ask (fun _ _ _ => trivial) ?_
    rintro u c statuses u' ⟨hfalse, rfl⟩ ⟨⟨_, hreply⟩, hwatch⟩ hdone hu'
    obtain ⟨image, hpulled⟩ := hreply hdone
    rcases hwatch.mp hu' with hu | ⟨hgained, hfew, hmatch⟩
    · rw [hfalse] at hu
      cases hu
    · exact onlyId_ne hpulled hgained hfew hmatch
  refine hpull.bind fun statuses => ?_
  split
  · exact Triple.fail
  · rename_i hdone
    refine sees_getImageId.bind fun newImageId => Triple.set ?_
    rintro u c ⟨hne, rfl⟩ hu
    exact decide_eq_true (hne hdone hu)

theorem told_ensureImage :
    Triple (watched n t) Free (fun u _ => u.2 = false) (ensureImage t) fun _ => Told := by
  refine (keeps_checkImage t quiet_watched _).bind fun found => Triple.ite (fun _ => ?_) fun _ => ?_
  · exact told_pullImage
  · exact Triple.pure fun _ _ hw => told_of_false hw

theorem gone_ensureImage : Triple (watched n t) Free (fun u _ => u.1.container = none)
    (ensureImage t) fun _ u _ => u.1.container = none := by
  refine (keeps_checkImage t quiet_watched _).bind fun found => ?_
  refine Triple.ite (fun _ => ?_) fun _ => Triple.pure fun _ _ hw => hw
  exact kept_pullImage t quiet_watched fun repository tag =>
    preserves_container (· = none) (fun _ => trivial) rfl

theorem told_removeImage : Triple (watched n t) Free Told (removeImage t) fun _ => Told := by
  refine (keeps_checkImage t quiet_watched Told).bind fun found => ?_
  refine Triple.ite (fun _ => ?_) fun _ => Triple.pure fun _ _ hw => hw
  refine free_raise.bind fun _ => (preserves_flag fun _ => trivial).triple.bind fun result => ?_
  cases result with
  | removed => exact Triple.pure fun _ _ hc _ => hc
  | conflict => exact Triple.fail
  | serverError => exact Triple.fail

/-! ## Volumes and comparisons -/

theorem told_removeVolume : Triple (watched n t) Free Told (removeVolume t) fun _ => Told := by
  refine (keeps_checkVolume t quiet_watched Told).bind fun present => ?_
  refine Triple.ite (fun _ => ?_) fun _ => Triple.pure fun _ _ hw => hw
  refine free_raise.bind fun _ => (preserves_flag fun _ => trivial).triple.bind fun result => ?_
  cases result with
  | removed => exact Triple.pure fun _ _ hc _ => hc
  | conflict => exact Triple.fail

section Actions

variable {rt : PyRuntime} {parseRepositoryTag : Text → Text × Option Text}

theorem told_compareContainer :
    Triple (watched n t) Free Told (compareContainer rt parseRepositoryTag t) fun _ => Told := by
  have hstale : Keeps (watched n t) Free (anyOf [
      do return (← checkContainer t).isNone,
      checkDiffers rt parseRepositoryTag t,
      compareConfig t,
      Systemd.checkUnitChange t (Systemd.generateUnitFile t)]) := by
    refine keeps_anyOf (List.forall_mem_cons.mpr ⟨?_, List.forall_mem_cons.mpr ⟨?_,
      List.forall_mem_cons.mpr ⟨?_, List.forall_mem_singleton.mpr ?_⟩⟩⟩)
    · exact (keeps_checkContainer t quiet_watched).bind fun _ => Keeps.pure _
    · exact keeps_checkDiffers rt parseRepositoryTag t quiet_watched
    · exact keeps_compareConfig t quiet_watched
    · exact Systemd.keeps_checkUnitChange t (fun op => quiet_watched (.systemd op)) _
  refine (hstale Told).bind fun stale => Triple.bind (?_ : Triple _ _ Told _ fun _ => Told) fun _ => ?_
  · exact Triple.ite (fun _ => free_raise.with_post fun _ _ _ hc _ => hc) fun _ =>
      Triple.pure fun _ _ hw => hw
  · exact Triple.get fun _ _ hw => hw

theorem told_compareImageAction :
    Triple (watched n t) Free Told (compareImageAction parseRepositoryTag t) fun _ => Told := by
  refine (keeps_getContainerInfo t quiet_watched Told).bind fun info => ?_
  cases info with
  | none => exact Triple.pure fun _ _ hw => hw
  | some info =>
    exact (keeps_checkImage t quiet_watched Told).bind fun _ => Triple.pure fun _ _ hw => hw

theorem told_startContainer : Triple (watched n t) Free
    (fun u _ => u.2 = false ∨ u.1.container = none) (startContainer rt parseRepositoryTag t)
    fun _ => Told := by
  have himage : Triple (watched n t) Free (fun u _ => u.2 = false ∨ u.1.container = none)
      (ensureImage t) fun _ u c => Told u c ∨ u.1.container = none :=
    Triple.or (told_ensureImage.with_post fun _ _ _ => .inl)
      (gone_ensureImage.with_post fun _ _ _ => .inr)
  exact himage.bind fun _ => told_startWithImage

theorem told_recreateOrRestartContainer : Triple (watched n t) Free (fun u _ => u.2 = false)
    (recreateOrRestartContainer rt parseRepositoryTag t) fun _ => Told := by
  have hraise : Triple (watched n t) Free (fun u _ => u.2 = false) (setChanged true)
      fun _ u _ => u.2 = false := raise_changed fun _ _ hw => hw
  refine hraise.bind fun _ => (keeps_checkContainer t quiet_watched _).bind fun found => ?_
  cases found with
  | none => exact told_startContainer.with_pre fun _ _ => .inl
  | some c =>
    refine (keeps_mustRecreate rt parseRepositoryTag t quiet_watched _).bind fun recreate => ?_
    refine Triple.ite (fun _ => ?_) fun _ => Triple.ite (fun _ => ?_) fun _ => ?_
    · refine told_ensureImage.bind fun _ => told_stopContainer.bind fun _ => ?_
      refine told_removeContainer.bind fun _ => ?_
      exact told_startContainer.with_pre fun _ _ hw => .inr hw.2
    · exact (rises_restartContainer t lasting_flag fun _ _ _ => rfl).with_post fun _ _ _ hc _ => hc
    · exact Triple.pure fun _ _ hw => told_of_false hw

theorem told_act (action : Action) : Triple (watched n t) Free (fun u _ => u.2 = false)
    (act rt parseRepositoryTag t action) fun _ => Told := by
  have hstart : ∀ {α : Type} {m : DockerWorker α}, Triple (watched n t) Free Told m (fun _ => Told) →
      Triple (watched n t) Free (fun u _ => u.2 = false) m fun _ => Told :=
    fun h => h.with_pre fun _ _ => told_of_false
  cases action with
  | compareContainer => exact hstart told_compareContainer
  | compareImage => exact hstart told_compareImageAction
  | createVolume =>
    refine Triple.then_return (hstart (told_of_rises ?_)) false
    exact rises_createVolume t lasting_flag (fun _ _ => raised) _
  | ensureImage => exact Triple.then_return told_ensureImage false
  | pullImage => exact Triple.then_return told_pullImage false
  | recreateOrRestartContainer => exact Triple.then_return told_recreateOrRestartContainer false
  | removeContainer => exact Triple.then_return (hstart (told_removeContainer.with_post fun _ _ _ => And.left)) false
  | removeImage => exact Triple.then_return (hstart told_removeImage) false
  | removeVolume => exact Triple.then_return (hstart told_removeVolume) false
  | restartContainer =>
    refine Triple.then_return (hstart ?_) false
    exact (rises_restartContainer t lasting_flag fun _ _ _ => rfl).with_post fun _ _ _ hc _ => hc
  | startContainer => exact Triple.then_return (told_startContainer.with_pre fun _ _ => .inl) false
  | stopContainer => exact Triple.then_return (hstart told_stopContainer) false
  | stopAndRemoveContainer => exact Triple.then_return (hstart told_stopAndRemoveContainer) false

end Actions

end Docker

end Container
end KollaPowerOps
