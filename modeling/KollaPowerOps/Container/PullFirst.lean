import KollaPowerOps.Container.Reported

/-!
# Container.PullFirst

A pull that fails: what has been done to the container by then.

* `PullSafe`   : a run that fails in its pull leaves the container as it was.
* `PullFirst`  : images are pulled before the container is touched.
* `HasImage`   : the check for the image finds it.
-/

namespace KollaPowerOps
namespace Container

open Effect

section PullFirst

variable {E : Type → Type} [EngineCalls E]

/-- A run that fails in the pull touches the container in no call. -/
def PullSafe (replies : Replies E) (m : Worker E Bool) (pull : Worker E Unit) : Prop :=
  ∀ w tr w', Drives (onHost replies) w tr w' → FailsIn m false pull tr →
    (∀ ev ∈ tr, ev.op.touchesContainer = false) ∧ w'.container = w.container

def Touches (_ : Host) (ev : Event (WorkerCall E) WorkerExit) (_ : Host) : Prop :=
  ev.op.touchesContainer = true

/-- Images are changed before the container is touched. -/
def PullFirst (u : Host × Bool) {τ : Type} (op : WorkerCall E τ) : Prop :=
  op.touchesImages = true → u.2 = false

def Untouched {W : Type} (_ : W) {τ : Type} (op : WorkerCall E τ) : Prop :=
  op.touchesContainer = false

variable {replies : Replies E} {τ : Type}

theorem quiet_touches (op : WorkerCall E τ) (h : op.changes = false) :
    Quiet ((onHost replies).watch Touches) PullFirst op := by
  refine quiet_watch h (fun u himages => ?_) fun w x w' htouch => ?_
  · rw [WorkerCall.touchesImages_of_changes h] at himages
    cases himages
  · rw [Touches, WorkerCall.touchesContainer_of_changes h] at htouch
    cases htouch

theorem pullFirst_of_images {op : WorkerCall E τ} (h : op.touchesImages = false)
    (u : Host × Bool) : PullFirst u op := by
  intro himages
  rw [h] at himages
  cases himages

/-- What is said of the images alone is kept from the pull on. -/
theorem stable_images (φ : List Image → Prop) :
    Lasting ((onHost replies).watch Touches) PullFirst fun u _ => φ u.1.images where
  quiet := quiet_touches
  call _ hop := preserves_images φ (pullFirst_of_images hop) hop
  flag _ _ := id

theorem quiet_untouched (op : WorkerCall E τ) (h : op.changes = false) :
    Quiet (onHost replies) Untouched op :=
  ⟨fun _ => WorkerCall.touchesContainer_of_changes h, fun _ _ _ => unchanged h⟩

theorem container_kept {w w' : Host} {tr : List (Event (WorkerCall E) WorkerExit)}
    (h : Drives (onHost replies) w tr w') (htr : ∀ ev ∈ tr, ev.op.touchesContainer = false) :
    w'.container = w.container := by
  refine h.keeps (I := fun u => u.container = w.container) ?_ rfl
  intro ev hev u u' hstep hu
  exact (hstep.1.container (htr ev hev)).trans hu

/-- A pull that is begun before the container is touched, and does not touch it itself. -/
theorem pullSafe_of_triples {m : Worker E Bool} {pull : Worker E Unit}
    (hm : Triple ((onHost replies).watch Touches) PullFirst (fun u _ => u.2 = false) m
      fun _ _ _ => True)
    (hpull : ∀ c u, CanCall ((onHost replies).watch Touches) u (pull.run c) fun op =>
      op.touchesImages = true)
    (huses : Triple (onHost replies) Untouched (fun _ _ => True) pull fun _ _ _ => True) :
    PullSafe replies m pull := by
  intro w tr w' hd hfail
  have htr : ∀ ev ∈ tr, ev.op.touchesContainer = false := by
    intro ev hev
    by_contra htouch
    have htouches : ev.op.touchesContainer = true := eq_true_of_ne_false htouch
    refine hfail.before hm (fun c u => ?_) huses ?_ hev (fun _ _ => htouches) hd
    · exact (hpull c u).mono fun op himages hfirst => hfirst himages
    · intro w₁ τ op hop u x u' htouches
      rw [Touches, hop] at htouches
      cases htouches
  exact ⟨htr, container_kept hd htr⟩

/-- A run that touches the container in no call at all. -/
theorem pullSafe_of_untouched {m : Worker E Bool} {pull : Worker E Unit}
    (hm : Triple (onHost replies) Untouched (fun _ _ => True) m fun _ _ _ => True) :
    PullSafe replies m pull := by
  intro w tr w' hd hfail
  obtain ⟨e, hrun⟩ := hfail.finishes
  have htr : ∀ ev ∈ tr, ev.op.touchesContainer = false := by
    intro ev hev
    obtain ⟨_, hop⟩ := wp_calls hrun hd (hm w false trivial) ev hev
    exact hop
  exact ⟨htr, container_kept hd htr⟩

theorem frame_refl (w : Host) (b b' : Bool) : Host.Frame b b' w w :=
  ⟨fun _ => rfl, fun _ => rfl⟩

theorem stays {u : Host × Bool} {op : WorkerCall E τ} {a : τ}
    (h : onHost replies u.1 ⟨op, .ok a⟩ u.1) (hop : op.changes = false) :
    (onHost replies).watch Touches u ⟨op, .ok a⟩ u := by
  refine ⟨h, (or_iff_left ?_).symm⟩
  rw [Touches, WorkerCall.touchesContainer_of_changes hop]
  exact Bool.false_ne_true

end PullFirst

/-! ## Docker -/

namespace Docker

variable {n : Naming} {t : Task}

/-- An image is listed under the requested name. -/
def HasImage (t : Task) (images : List Image) : Prop :=
  ∃ name, findImage t = .ok name ∧ ∃ image ∈ images, name ∈ image.repoTags

/-- The engine lists what it has pulled under the requested name. -/
def KeepsName (n : Naming) (t : Task) : Prop :=
  ∀ repository tag, t.parseImage = .ok (repository, tag) →
    n.listedAs repository tag = repository ++ ':' :: tag

theorem findImage_of_parse {repository tag : Text} (h : t.parseImage = .ok (repository, tag)) :
    findImage t = .ok (repository ++ ':' :: tag) := by
  rw [findImage, h]
  rfl

theorem finds_checkImage {φ : Host × Bool → Bool → Prop} :
    Triple ((onHost (replies n t)).watch Touches) PullFirst φ (checkImage t) fun found u c =>
      φ u c ∧ (found.isSome = true ↔ HasImage t u.1.images) := by
  refine Triple.bind (Triple.compute fun name u c hname hw => And.intro hname hw) fun name => ?_
  refine Triple.of_fact fun hname => ?_
  have hask : Triple ((onHost (replies n t)).watch Touches) PullFirst φ (engine .images)
      fun images u c => φ u c ∧ images = u.1.images := by
    refine Triple.ask (fun u _ _ => pullFirst_of_images rfl u) fun u c images u' hw hev => ?_
    obtain rfl := (quiet_touches (.engine DockerCall.images) rfl).2 u images u' hev
    exact ⟨hw, hev.1.2⟩
  refine hask.bind fun images => Triple.pure ?_
  rintro u c ⟨hw, rfl⟩
  refine ⟨hw, ?_⟩
  simp [HasImage, hname]

theorem has_pullImage (hname : KeepsName n t) :
    Triple ((onHost (replies n t)).watch Touches) PullFirst (fun u _ => u.2 = false) (pullImage t)
      fun _ u _ => HasImage t u.1.images := by
  refine (keeps_loginIfAsked t quiet_touches _).bind fun _ => ?_
  refine Triple.bind (Triple.compute fun parsed u c hparsed hw => And.intro hparsed hw) fun parsed => ?_
  refine Triple.of_fact fun hparsed => ?_
  refine (keeps_getImageId t quiet_touches _).bind fun oldImageId => ?_
  have hpull : Triple ((onHost (replies n t)).watch Touches) PullFirst (fun u _ => u.2 = false)
      (engine (.pull parsed.1 parsed.2)) fun statuses u _ =>
        statuses.reverse.findSome? PullStatus.error = none → HasImage t u.1.images := by
    refine Triple.ask (fun u _ hw _ => hw) fun u c statuses u' _ hev hdone => ?_
    obtain ⟨image, hpulled⟩ := hev.1.2 hdone
    have htag := hpulled.tagged
    rw [hname parsed.1 parsed.2 hparsed] at htag
    exact ⟨_, findImage_of_parse hparsed, image, hpulled.mem, htag⟩
  refine hpull.bind fun statuses => ?_
  split
  · exact Triple.fail
  · rename_i hdone
    refine (keeps_getImageId t quiet_touches _).bind fun newImageId => ?_
    exact Triple.set fun u c hw => hw hdone

theorem has_ensureImage (hname : KeepsName n t) :
    Triple ((onHost (replies n t)).watch Touches) PullFirst
      (fun u _ => u.2 = false ∨ HasImage t u.1.images) (ensureImage t)
      fun _ u _ => HasImage t u.1.images := by
  refine finds_checkImage.bind fun found => Triple.ite (fun hmissing => ?_) fun hfound => ?_
  · refine (has_pullImage hname).with_pre ?_
    rintro u c ⟨hfirst | himage, hfound⟩
    · exact hfirst
    · rw [Option.isNone_iff_eq_none] at hmissing
      rw [hmissing] at hfound
      cases hfound.mpr himage
  · have hsome := Option.isSome_iff_ne_none.mpr (mt Option.isNone_iff_eq_none.mpr hfound)
    exact Triple.pure fun u c hw => hw.2.mp hsome

variable {rt : PyRuntime} {parseRepositoryTag : Text → Text × Option Text}

theorem first_startContainer (hname : KeepsName n t) :
    Triple ((onHost (replies n t)).watch Touches) PullFirst
      (fun u _ => u.2 = false ∨ HasImage t u.1.images) (startContainer rt parseRepositoryTag t)
      fun _ _ _ => True := by
  refine (has_ensureImage hname).bind fun _ => ?_
  exact (stable_startWithImage rt parseRepositoryTag t (stable_images (HasImage t))).with_post
    fun _ _ _ _ => trivial

theorem first_recreateOrRestartContainer (hname : KeepsName n t) :
    Triple ((onHost (replies n t)).watch Touches) PullFirst (fun u _ => u.2 = false)
      (recreateOrRestartContainer rt parseRepositoryTag t) fun _ _ _ => True := by
  have hraise : Triple ((onHost (replies n t)).watch Touches) PullFirst (fun u _ => u.2 = false)
      (setChanged true) fun _ u _ => u.2 = false := raise_changed fun _ _ hw => hw
  refine hraise.bind fun _ => (keeps_checkContainer t quiet_touches _).bind fun found => ?_
  cases found with
  | none => exact (first_startContainer hname).with_pre fun _ _ => .inl
  | some c =>
    refine (keeps_mustRecreate rt parseRepositoryTag t quiet_touches _).bind fun recreate => ?_
    refine Triple.ite (fun _ => ?_) fun _ => Triple.ite (fun _ => ?_) fun _ => ?_
    · have himage : Lasting ((onHost (replies n t)).watch Touches) PullFirst
          fun u _ => HasImage t u.1.images := stable_images (HasImage t)
      refine ((has_ensureImage hname).with_pre fun _ _ => .inl).bind fun _ => ?_
      refine (stable_stopContainer t himage).bind fun _ => (stable_removeContainer t himage).bind fun _ => ?_
      exact (first_startContainer hname).with_pre fun _ _ => .inr
    · exact rises_restartContainer t (stable_images fun _ => True) fun _ _ _ => trivial
    · exact Triple.pure fun _ _ _ => trivial

section CanCall

variable {α : Type} {R : ∀ {τ : Type}, WorkerCall DockerCall τ → Prop} {c : Bool} {u : Host × Bool}

theorem canCall_loginIfAsked {f : Unit → DockerWorker α}
    (h : CanCall ((onHost (replies n t)).watch Touches) u ((f ()).run c) R) :
    CanCall ((onHost (replies n t)).watch Touches) u ((loginIfAsked t >>= f).run c) R := by
  unfold loginIfAsked
  rcases t.authUsername with _ | _ | ⟨x, username⟩
  · exact h
  · exact h
  · exact .later (stays ⟨frame_refl _ _ _, trivial⟩ rfl) h

theorem canCall_getImageId (hgiven : t.imageGiven = true) {f : Option Text → DockerWorker α}
    (h : ∀ id, CanCall ((onHost (replies n t)).watch Touches) u ((f id).run c) R) :
    CanCall ((onHost (replies n t)).watch Touches) u ((getImageId t >>= f).run c) R := by
  have hids : ∀ ids, (n.listed t.params.image u.1).map Image.id = ids →
      (onHost (replies n t)).watch Touches u ⟨.engine (.imageIds t.params.image), .ok ids⟩ u :=
    fun ids hids => stays ⟨frame_refl _ _ _, hids.symm⟩ rfl
  unfold getImageId
  rw [Task.fullImage_given hgiven]
  rcases hlisted : (n.listed t.params.image u.1).map Image.id with _ | ⟨id, _ | ⟨id', rest⟩⟩
  · exact .later (hids _ hlisted) (h none)
  · exact .later (hids _ hlisted) (h (some id))
  · exact .later (hids _ hlisted) (h none)

theorem canCall_pullImage (hgiven : t.imageGiven = true) :
    CanCall ((onHost (replies n t)).watch Touches) u ((pullImage t).run c) fun op =>
      op.touchesImages = true := by
  obtain ⟨repository, tag, hparse⟩ := Task.parseImage_given hgiven
  refine canCall_loginIfAsked ?_
  rw [hparse, run_compute_ok]
  refine canCall_getImageId hgiven ?_
  intro id
  exact .here rfl

end CanCall

theorem uses_pullImage : Triple (onHost (replies n t)) Untouched (fun _ _ => True) (pullImage t)
    fun _ _ _ => True :=
  kept_pullImage t quiet_untouched fun _ _ _ _ _ => ⟨rfl, fun _ _ _ => trivial⟩

/-! ### Without an image -/

section Missing

variable (hmissing : t.imageGiven = false)
include hmissing

theorem stops_checkImage {pre : Host → Bool → Prop} : Triple (onHost (replies n t)) Untouched pre
    (checkImage t) fun _ _ _ => False := by
  have hname : findImage t = .error (.raised .typeError) := by
    rw [findImage, Task.parseImage_missing hmissing]
    rfl
  refine Triple.bind (Triple.compute fun name u c hok _ => ?_) fun _ => Triple.of_false fun _ _ => id
  rw [hname] at hok
  cases hok

theorem stops_ensureImage : Triple (onHost (replies n t)) Untouched (fun _ _ => True)
    (ensureImage t) fun _ _ _ => False :=
  (stops_checkImage hmissing).bind fun _ => Triple.of_false fun _ _ => id

theorem untouched_startContainer : Triple (onHost (replies n t)) Untouched (fun _ _ => True)
    (startContainer rt parseRepositoryTag t) fun _ _ _ => True :=
  (stops_ensureImage hmissing).bind fun _ => Triple.of_false fun _ _ => id

theorem found_mustRecreate : Triple (onHost (replies n t)) Untouched (fun _ _ => True)
    (mustRecreate rt parseRepositoryTag t) fun recreate _ _ => recreate = true := by
  refine Triple.ite (fun _ => Triple.pure fun _ _ _ => rfl) fun _ => ?_
  refine (keeps_getContainerInfo t quiet_untouched _).bind fun info => ?_
  cases info with
  | none => exact Triple.pure fun _ _ _ => rfl
  | some info =>
    have hcompare : Triple (onHost (replies n t)) Untouched (fun _ _ => True)
        (do compute (.ok (compareImage parseRepositoryTag t.params (← checkImage t) info)) :
          DockerWorker Bool) fun _ _ _ => False :=
      (stops_checkImage hmissing).bind fun _ => Triple.of_false fun _ _ => id
    exact anyOf_found (keeps_comparisons rt parseRepositoryTag t quiet_untouched info)
      (by simp [comparisons]) hcompare

theorem untouched_recreateOrRestartContainer : Triple (onHost (replies n t)) Untouched
    (fun _ _ => True) (recreateOrRestartContainer rt parseRepositoryTag t) fun _ _ _ => True := by
  have hraise : Triple (onHost (replies n t)) Untouched (fun _ _ => True) (setChanged true)
      fun _ _ _ => True := raise_changed fun _ _ _ => trivial
  refine hraise.bind fun _ => (keeps_checkContainer t quiet_untouched _).bind fun found => ?_
  cases found with
  | none => exact untouched_startContainer hmissing
  | some c =>
    refine (found_mustRecreate hmissing).bind fun recreate => ?_
    refine Triple.ite (fun _ => ?_) fun hfalse => Triple.of_false fun _ _ => hfalse
    refine ((stops_ensureImage hmissing).with_pre fun _ _ _ => trivial).bind fun _ => ?_
    exact Triple.of_false fun _ _ => id

end Missing

/-- A failed pull leaves the container alone where the engine keeps the requested name. -/
theorem pullSafe (hname : KeepsName n t) {action : Action}
    (haction : action = .startContainer ∨ action = .recreateOrRestartContainer) :
    PullSafe (replies n t) (act rt parseRepositoryTag t action) (pullImage t) := by
  cases hgiven : t.imageGiven with
  | true =>
    refine pullSafe_of_triples ?_ (fun _ _ => canCall_pullImage hgiven) uses_pullImage
    rcases haction with rfl | rfl
    · exact ((first_startContainer hname).with_pre fun _ _ => .inl).then_return false
    · exact (first_recreateOrRestartContainer hname).then_return false
  | false =>
    refine pullSafe_of_untouched ?_
    rcases haction with rfl | rfl
    · exact (untouched_startContainer hgiven).then_return false
    · exact (untouched_recreateOrRestartContainer hgiven).then_return false

end Docker

/-! ## Podman -/

namespace Podman

variable {n : Naming} {t : Task}

/-- The requested name stands for an image. -/
def HasImage (n : Naming) (t : Task) (images : List Image) : Prop :=
  ∃ image ∈ images, n.finds t.params.image image = true

/-- The engine finds what it has pulled under the requested name. -/
def KeepsName (n : Naming) (t : Task) : Prop :=
  ∀ args, prepareImageArgs t = .ok args → ∀ image : Image, n.listedAs args ∈ image.repoTags →
    n.finds t.params.image image = true

theorem eq_image_of_fullImage {name : Text} (h : t.fullImage = .ok name) : name = t.params.image := by
  rw [Task.fullImage] at h
  split at h
  · cases h
    rfl
  · cases h

theorem finds_checkImage {φ : Host × Bool → Bool → Prop} :
    Triple ((onHost (replies n t)).watch Touches) PullFirst φ (checkImage t) fun found u c =>
      φ u c ∧ (found.isSome = true ↔ HasImage n t u.1.images) := by
  refine Triple.bind (Triple.compute fun name u c hname hw => And.intro hname hw) fun name => ?_
  refine Triple.of_fact fun hname => ?_
  obtain rfl := eq_image_of_fullImage hname
  have hask : Triple ((onHost (replies n t)).watch Touches) PullFirst φ
      (engine (.getImage t.params.image)) fun answer u c => φ u c ∧ ∀ found, answer = .ok found →
        (found.isSome = true ↔ HasImage n t u.1.images) := by
    refine Triple.ask (fun u _ _ => pullFirst_of_images rfl u) fun u c answer u' hw hev => ?_
    obtain rfl := (quiet_touches (.engine (PodmanCall.getImage t.params.image)) rfl).2 u answer u' hev
    exact ⟨hw, fun found hfound => (hev.1.2 found hfound).1⟩
  refine hask.bind fun answer => ?_
  cases answer with
  | ok found => exact Triple.pure fun u c hw => ⟨hw.1, hw.2 found rfl⟩
  | error explanation => exact Triple.fail

theorem has_pullImage (hname : KeepsName n t) :
    Triple ((onHost (replies n t)).watch Touches) PullFirst (fun u _ => u.2 = false) (pullImage t)
      fun _ u _ => HasImage n t u.1.images := by
  refine Triple.bind (Triple.compute fun args u c hargs hw => And.intro hargs hw) fun args => ?_
  refine Triple.of_fact fun hargs => (keeps_checkImage t quiet_touches _).bind fun oldImage => ?_
  have hpull : Triple ((onHost (replies n t)).watch Touches) PullFirst (fun u _ => u.2 = false)
      (engine (.pull args)) fun answer u _ => ∀ image, answer = .ok (some image) →
        HasImage n t u.1.images := by
    refine Triple.ask (fun u _ hw _ => hw) fun u c answer u' _ hev image hanswer => ?_
    have hpulled := hev.1.2 image hanswer
    exact ⟨image.image, hpulled.mem, hname args hargs image.image hpulled.tagged⟩
  refine hpull.bind fun answer => ?_
  rcases answer with message | image | image
  · exact Triple.fail
  · exact Triple.fail
  · exact Triple.set fun u c hw => hw image rfl

theorem has_ensureImage (hname : KeepsName n t) :
    Triple ((onHost (replies n t)).watch Touches) PullFirst
      (fun u _ => u.2 = false ∨ HasImage n t u.1.images) (ensureImage t)
      fun _ u _ => HasImage n t u.1.images := by
  refine finds_checkImage.bind fun found => Triple.ite (fun hmissing => ?_) fun hfound => ?_
  · refine (has_pullImage hname).with_pre ?_
    rintro u c ⟨hfirst | himage, hfound⟩
    · exact hfirst
    · rw [Option.isNone_iff_eq_none] at hmissing
      rw [hmissing] at hfound
      cases hfound.mpr himage
  · have hsome := Option.isSome_iff_ne_none.mpr (mt Option.isNone_iff_eq_none.mpr hfound)
    exact Triple.pure fun u c hw => hw.2.mp hsome

variable {rt : PyRuntime}

theorem first_startContainer (hname : KeepsName n t) :
    Triple ((onHost (replies n t)).watch Touches) PullFirst
      (fun u _ => u.2 = false ∨ HasImage n t u.1.images) (startContainer rt t)
      fun _ _ _ => True := by
  refine (has_ensureImage hname).bind fun _ => ?_
  exact (stable_startWithImage rt t (stable_images (HasImage n t))).with_post
    fun _ _ _ _ => trivial

theorem first_recreateOrRestartContainer (hname : KeepsName n t) :
    Triple ((onHost (replies n t)).watch Touches) PullFirst (fun u _ => u.2 = false)
      (recreateOrRestartContainer rt t) fun _ _ _ => True := by
  refine (keeps_getContainerInfo t quiet_touches _).bind fun info => ?_
  cases info with
  | none => exact (first_startContainer hname).with_pre fun _ _ => .inl
  | some info =>
    refine (keeps_mustRecreate rt t quiet_touches _).bind fun recreate => ?_
    refine Triple.ite (fun _ => ?_) fun _ => Triple.ite (fun _ => ?_) fun _ => ?_
    · have himage : Lasting ((onHost (replies n t)).watch Touches) PullFirst
          fun u _ => HasImage n t u.1.images := stable_images (HasImage n t)
      refine ((has_ensureImage hname).with_pre fun _ _ => .inl).bind fun _ => ?_
      refine (stable_stopContainer t himage).bind fun _ => (stable_removeContainer t himage).bind fun _ => ?_
      exact (first_startContainer hname).with_pre fun _ _ => .inr
    · exact rises_restartContainer t (stable_images fun _ => True) fun _ _ _ => trivial
    · exact Triple.pure fun _ _ _ => trivial

/-- The lookup before the pull can be answered, with what there is. -/
theorem canCall_pullImage (hgiven : t.imageGiven = true) {c : Bool} {u : Host × Bool} :
    CanCall ((onHost (replies n t)).watch Touches) u ((pullImage t).run c) fun op =>
      op.touchesImages = true := by
  obtain ⟨repository, tag, hparse⟩ := Task.parseImage_given hgiven
  have hanswer : ∃ found : Option PodmanImage, (onHost (replies n t)).watch Touches u
      ⟨.engine (.getImage t.params.image), .ok (.ok found)⟩ u := by
    by_cases himage : HasImage n t u.1.images
    · obtain ⟨image, hmem, hfinds⟩ := himage
      refine ⟨some ⟨image, []⟩, stays ⟨frame_refl _ _ _, ?_⟩ rfl⟩
      rintro found ⟨⟩
      exact ⟨⟨fun _ => ⟨image, hmem, hfinds⟩, fun _ => rfl⟩, fun i hi => by cases hi; exact hmem⟩
    · refine ⟨none, stays ⟨frame_refl _ _ _, ?_⟩ rfl⟩
      rintro found ⟨⟩
      exact ⟨⟨fun h => (Bool.false_ne_true h).elim, fun h => (himage h).elim⟩, nofun⟩
  obtain ⟨found, hfound⟩ := hanswer
  unfold pullImage prepareImageArgs checkImage
  rw [hparse, Task.fullImage_given hgiven]
  exact .later hfound (.here rfl)

theorem uses_pullImage : Triple (onHost (replies n t)) Untouched (fun _ _ => True) (pullImage t)
    fun _ _ _ => True :=
  kept_pullImage t quiet_untouched fun _ _ _ _ => ⟨rfl, fun _ _ _ => trivial⟩

/-! ### Without an image -/

section Missing

variable (hmissing : t.imageGiven = false)
include hmissing

theorem stops_checkImage {pre : Host → Bool → Prop} : Triple (onHost (replies n t)) Untouched pre
    (checkImage t) fun _ _ _ => False := by
  refine Triple.bind (Triple.compute fun name u c hok _ => ?_) fun _ => Triple.of_false fun _ _ => id
  rw [Task.fullImage_missing hmissing] at hok
  cases hok

theorem stops_ensureImage : Triple (onHost (replies n t)) Untouched (fun _ _ => True)
    (ensureImage t) fun _ _ _ => False :=
  (stops_checkImage hmissing).bind fun _ => Triple.of_false fun _ _ => id

theorem untouched_startContainer : Triple (onHost (replies n t)) Untouched (fun _ _ => True)
    (startContainer rt t) fun _ _ _ => True :=
  (stops_ensureImage hmissing).bind fun _ => Triple.of_false fun _ _ => id

theorem found_mustRecreate : Triple (onHost (replies n t)) Untouched (fun _ _ => True)
    (mustRecreate rt t) fun recreate _ _ => recreate = true := by
  refine Triple.ite (fun _ => Triple.pure fun _ _ _ => rfl) fun _ => ?_
  refine (keeps_getContainerInfo t quiet_untouched _).bind fun info => ?_
  cases info with
  | none => exact Triple.pure fun _ _ _ => rfl
  | some info =>
    have hcompare : Triple (onHost (replies n t)) Untouched (fun _ _ => True)
        (do compute (.ok (compareImage t.params (← checkImageAttrs t) info)) :
          PodmanWorker Bool) fun _ _ _ => False :=
      ((stops_checkImage hmissing).bind fun _ => Triple.of_false fun _ _ => id).bind fun _ =>
        Triple.of_false fun _ _ => id
    exact anyOf_found (keeps_comparisons rt t quiet_untouched info) (by simp [comparisons]) hcompare

theorem untouched_recreateOrRestartContainer : Triple (onHost (replies n t)) Untouched
    (fun _ _ => True) (recreateOrRestartContainer rt t) fun _ _ _ => True := by
  refine (keeps_getContainerInfo t quiet_untouched _).bind fun info => ?_
  cases info with
  | none => exact untouched_startContainer hmissing
  | some info =>
    refine (found_mustRecreate hmissing).bind fun recreate => ?_
    refine Triple.ite (fun _ => ?_) fun hfalse => Triple.of_false fun _ _ => hfalse
    refine ((stops_ensureImage hmissing).with_pre fun _ _ _ => trivial).bind fun _ => ?_
    exact Triple.of_false fun _ _ => id

end Missing

/-- A failed pull leaves the container alone where the engine keeps the requested name. -/
theorem pullSafe (hname : KeepsName n t) {action : Action}
    (haction : action = .startContainer ∨ action = .recreateOrRestartContainer) :
    PullSafe (replies n t) (act rt t action) (pullImage t) := by
  cases hgiven : t.imageGiven with
  | true =>
    refine pullSafe_of_triples ?_ (fun _ _ => canCall_pullImage hgiven) uses_pullImage
    rcases haction with rfl | rfl
    · exact ((first_startContainer hname).with_pre fun _ _ => .inl).then_return false
    · exact (first_recreateOrRestartContainer hname).then_return false
  | false =>
    refine pullSafe_of_untouched ?_
    rcases haction with rfl | rfl
    · exact (untouched_startContainer hgiven).then_return false
    · exact (untouched_recreateOrRestartContainer hgiven).then_return false

end Podman

def plainNaming : Docker.Naming where
  matchesTag name tag := name = tag
  listedAs repository tag := repository ++ ':' :: tag

/-- An engine that lists an image of its default registry without the registry. -/
def familiarNaming : Docker.Naming where
  matchesTag name tag := name = tag ∨ name = "docker.io/".toList ++ tag
  listedAs repository tag := (repository.drop "docker.io/".length) ++ ':' :: tag

def copyOnceTask : Task where
  params := {
    name := "cron".toList
    image := "docker.io/kolla/cron:1".toList
    environment := .ofList [("KOLLA_CONFIG_STRATEGY".toList, .str "COPY_ONCE")] }
  restartRetries_ne := restartRetries_default

def pulledImage : Image where
  id := "sha256:1".toList
  repoTags := ["kolla/cron:1".toList]
  env_plain := empty_plain

def running : ContainerSummary where
  names := ["/cron".toList]
  status := "Up 2 hours".toList

def present : Event (WorkerCall DockerCall) WorkerExit := ⟨.engine .containers, .ok [running]⟩

def noUnitFile : Event (WorkerCall DockerCall) WorkerExit :=
  ⟨.systemd (.isFile (Systemd.unitPath copyOnceTask)), .ok false⟩

def listsImages (images : List Image) : Event (WorkerCall DockerCall) WorkerExit :=
  ⟨.engine .images, .ok images⟩

def listsIds (ids : List Text) : Event (WorkerCall DockerCall) WorkerExit :=
  ⟨.engine (.imageIds copyOnceTask.params.image), .ok ids⟩

def pulls (statuses : List PullStatus) : Event (WorkerCall DockerCall) WorkerExit :=
  ⟨.engine (.pull "docker.io/kolla/cron".toList "1".toList), .ok statuses⟩

def firstPull : List (Event (WorkerCall DockerCall) WorkerExit) :=
  [listsImages [], listsIds [], pulls [], listsIds [pulledImage.id]]

def stopped : List (Event (WorkerCall DockerCall) WorkerExit) :=
  [present, noUnitFile, ⟨.engine (.stop "cron".toList 10), .ok ()⟩]

def removed : List (Event (WorkerCall DockerCall) WorkerExit) :=
  [noUnitFile, present, ⟨.engine (.removeContainer "cron".toList), .ok true⟩, noUnitFile]

def secondPull : List (Event (WorkerCall DockerCall) WorkerExit) :=
  [listsIds [pulledImage.id], pulls [{ error := some "connection refused".toList }]]

theorem recreate_fails (rt : PyRuntime) (parseRepositoryTag : Text → Text × Option Text) :
    FailsIn (Docker.act rt parseRepositoryTag copyOnceTask .recreateOrRestartContainer) false
      (Docker.pullImage copyOnceTask)
      (present :: (firstPull ++ (stopped ++ (removed ++ listsImages [pulledImage] :: secondPull)))) := by
  have hpull : Finishes ((Docker.pullImage copyOnceTask).run true) secondPull
      (.error (.failJson "Unknown error message: connection refused".toList)) := .ret (.ret .nil)
  have hcheck : Returns ((Docker.checkImage copyOnceTask).run true) [listsImages [pulledImage]]
      (none, true) := .ret .nil
  have hstart : FailsIn (Docker.startContainer rt parseRepositoryTag copyOnceTask) true
      (Docker.pullImage copyOnceTask) (listsImages [pulledImage] :: secondPull) := by
    refine FailsIn.bind ?_ _
    exact FailsIn.after hcheck (FailsIn.here hpull)
  have hstop : Returns ((Docker.stopContainer copyOnceTask).run true) stopped ((), true) :=
    .ret (.ret (.ret .nil))
  have hremove : Returns ((Docker.removeContainer copyOnceTask).run true) removed
      ((), true) := .ret (.ret (.ret (.ret .nil)))
  have hensure : Returns ((Docker.ensureImage copyOnceTask).run true) firstPull ((), true) :=
    .ret (.ret (.ret (.ret .nil)))
  have hraise : Returns ((setChanged true : Docker.DockerWorker Unit).run false) [] ((), true) := .nil
  have hfound : Returns ((Docker.checkContainer copyOnceTask).run true) [present]
      (some running, true) := .ret .nil
  have hmust : Returns ((Docker.mustRecreate rt parseRepositoryTag copyOnceTask).run true) []
      (true, true) := .nil
  have hrecreate : FailsIn (Docker.recreateWithImage rt parseRepositoryTag copyOnceTask) true
      (Docker.pullImage copyOnceTask)
      (stopped ++ (removed ++ listsImages [pulledImage] :: secondPull)) :=
    FailsIn.after hstop (FailsIn.after hremove hstart)
  refine FailsIn.bind (FailsIn.after hraise ?_) _
  refine FailsIn.after hfound (FailsIn.after hmust ?_)
  exact FailsIn.after hensure hrecreate

/-- The host once the image is pulled. -/
def pulledHost (container : Option Instance) : Host where
  images := [pulledImage]
  nodup := List.nodup_singleton _
  container := container

def cron : Instance := ⟨cronInfo, true⟩

theorem recreate_drives : Drives (onHost (Docker.replies familiarNaming copyOnceTask))
    (cronHost (some cron))
    (present :: (firstPull ++ (stopped ++ (removed ++ listsImages [pulledImage] :: secondPull))))
    (pulledHost none) := by
  have hstay : ∀ {w w' : Host} {ev : Event (WorkerCall DockerCall) WorkerExit} {tr},
      onHost (Docker.replies familiarNaming copyOnceTask) w ev w →
      Drives (onHost (Docker.replies familiarNaming copyOnceTask)) w tr w' →
      Drives (onHost (Docker.replies familiarNaming copyOnceTask)) w (ev :: tr) w' := Drives.cons
  have hpull : onHost (Docker.replies familiarNaming copyOnceTask) (cronHost (some cron)) (pulls [])
      (pulledHost (some cron)) :=
    ⟨⟨fun _ => rfl, nofun⟩, fun _ => ⟨pulledImage, List.mem_singleton_self _,
      List.mem_singleton_self _, fun i hi => .inl (List.mem_singleton.mp hi)⟩⟩
  have hremove : onHost (Docker.replies familiarNaming copyOnceTask) (pulledHost (some cron))
      ⟨.engine (.removeContainer "cron".toList), .ok true⟩ (pulledHost none) :=
    ⟨⟨nofun, fun _ => rfl⟩, fun _ => rfl⟩
  refine hstay ⟨frame_refl _ _ _, rfl⟩ ?_
  refine hstay ⟨frame_refl _ _ _, rfl⟩ (hstay ⟨frame_refl _ _ _, rfl⟩ (.cons hpull ?_))
  refine hstay ⟨frame_refl _ _ _, rfl⟩ ?_
  refine hstay ⟨frame_refl _ _ _, rfl⟩ (hstay ⟨frame_refl _ _ _, rfl⟩ ?_)
  refine hstay ⟨frame_refl _ _ _, rfl⟩ (hstay ⟨frame_refl _ _ _, rfl⟩ ?_)
  refine hstay ⟨frame_refl _ _ _, rfl⟩ (.cons hremove (hstay ⟨frame_refl _ _ _, rfl⟩ ?_))
  refine hstay ⟨frame_refl _ _ _, rfl⟩ (hstay ⟨frame_refl _ _ _, rfl⟩ ?_)
  exact hstay ⟨frame_refl _ _ _, nofun⟩ .nil

end Container
end KollaPowerOps
