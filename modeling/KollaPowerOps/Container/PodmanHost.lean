import KollaPowerOps.Container.Host
import KollaPowerOps.Container.PodmanWorker

/-!
# Container.PodmanHost

The engine that the Podman worker calls, and rules for the methods of the worker.

* `Naming`         : how the engine finds and gives names.
* `replies`        : what the engine answers, and what it does to the host.
* `keeps_*`        : the methods that read.
* `stable_*`       : the methods that leave the images alone.
-/

namespace KollaPowerOps
namespace Container

open Effect

namespace Podman

/-! ## The engine -/

instance : EngineCalls PodmanCall where
  touchesContainer
    | .createContainer _ => true
    | .removeContainer _ => true
    | .start _ => true
    | .stop _ _ => true
    | _ => false
  touchesImages
    | .pull _ => true
    | .removeImage _ => true
    | _ => false
  touchesVolumes
    | .createVolume _ => true
    | .removeVolume _ => true
    | _ => false

structure Naming where
  /-- the name stands for the image -/
  finds : Text → Image → Bool
  /-- the tag that a pulled image is given -/
  listedAs : ImageArgs → Text

def replies (n : Naming) (t : Task) : Replies PodmanCall
  | w, _, .getImage name, answer, _ => ∀ found, answer = .ok found →
    (found.isSome = true ↔ ∃ image ∈ w.images, n.finds name image = true) ∧
      ∀ image, found = some image → image.image ∈ w.images
  | w, _, .pull args, answer, w' => ∀ image, answer = .ok (some image) →
    Host.Pulled image.image (n.listedAs args) w w'
  | w, _, .containers, containers, _ =>
    (∃ c ∈ containers, t.params.name = c.name) ↔ w.container.isSome = true
  -- what has been created runs only once it is started
  | w, _, .reload c, c', _ => c'.name = c.name ∧
    (t.params.name = c.name → w.Fresh → c'.status ≠ "running".toList)
  | _, _, .createContainer _, created, w' => created = true → w'.Fresh
  | _, _, .removeContainer _, done, w' => done = true → w'.container = none
  | w, _, .start _, _, w' => w'.container.isSome = w.container.isSome
  | w, _, .stop _ _, _, w' => w'.container.isSome = w.container.isSome
  | _, _, _, _, _ => True

/-! ## Methods that read -/

section Rules

variable {W : Type} {env : Env (WorkerCall PodmanCall) WorkerExit W}
  {P : W → ∀ {τ : Type}, WorkerCall PodmanCall τ → Prop} (rt : PyRuntime) (t : Task)

section Reads

variable (hquiet : ∀ {τ : Type} (op : WorkerCall PodmanCall τ), op.changes = false → Quiet env P op)
include hquiet

theorem keeps_ask {τ : Type} (op : PodmanCall τ) (hop : (WorkerCall.engine op).changes = false) :
    Keeps env P (engine op : PodmanWorker τ) := (hquiet _ hop).keeps

theorem keeps_checkImage : Keeps env P (checkImage t) := by
  refine (Keeps.compute _).bind fun name => (keeps_ask hquiet (.getImage name) rfl).bind fun answer => ?_
  cases answer with
  | ok image => exact Keeps.pure _
  | error explanation => exact Keeps.fail _

theorem keeps_checkVolume (name : Text) : Keeps env P (checkVolume t name) :=
  keeps_ask hquiet (.getVolume _) rfl

theorem keeps_findContainer (cs : List PodmanContainer) : Keeps env P (findContainer t cs) := by
  induction cs with
  | nil => exact Keeps.pure _
  | cons c cs ih =>
    refine (keeps_ask hquiet (.reload c) rfl).bind fun c => ?_
    exact Keeps.ite (fun _ => Keeps.pure _) fun _ => ih

theorem keeps_checkContainer : Keeps env P (checkContainer t) :=
  (keeps_ask hquiet .containers rfl).bind fun cs => keeps_findContainer t hquiet cs

theorem keeps_getContainerInfo : Keeps env P (getContainerInfo t) :=
  (keeps_checkContainer t hquiet).bind fun _ => Keeps.pure _

theorem keeps_checkImageAttrs : Keeps env P (checkImageAttrs t) :=
  (keeps_checkImage t hquiet).bind fun _ => Keeps.pure _

theorem keeps_comparisons (info : ContainerInfo) :
    ∀ m ∈ comparisons rt compute (checkImageAttrs t) t.params info, Keeps env P m := by
  intro m hm
  simp only [comparisons, List.mem_cons, List.not_mem_nil, or_false] at hm
  have hlookup : ∀ f : Option Image → Except WorkerExit Bool,
      Keeps env P (do compute (f (← checkImageAttrs t)) : PodmanWorker Bool) :=
    fun f => (keeps_checkImageAttrs t hquiet).bind fun _ => Keeps.compute _
  rcases hm with rfl | rfl | rfl | rfl | rfl | rfl | rfl | rfl | rfl | rfl | rfl | rfl | rfl |
    rfl | rfl | rfl
  any_goals exact Keeps.compute _
  · exact hlookup _
  · exact hlookup _

theorem keeps_checkDiffers : Keeps env P (checkDiffers rt t) := by
  refine (keeps_getContainerInfo t hquiet).bind fun info => ?_
  cases info with
  | none => exact Keeps.pure true
  | some info => exact keeps_anyOf (keeps_comparisons rt t hquiet info)

theorem keeps_compareConfig : Keeps env P (compareConfig t) := by
  refine (keeps_ask hquiet (.getContainer _) rfl).bind fun found => ?_
  cases found with
  | none => exact Keeps.pure _
  | some c =>
    refine (keeps_ask hquiet (.tryReload c) rfl).bind fun reloaded => ?_
    cases reloaded with
    | none => exact Keeps.pure _
    | some c =>
      refine Keeps.ite (fun _ => Keeps.pure _) fun _ => ?_
      refine (keeps_ask hquiet (.execRun c) rfl).bind fun result => ?_
      cases result with
      | none => exact Keeps.pure _
      | some result =>
        refine Keeps.ite (fun _ => Keeps.pure _) fun _ => ?_
        exact Keeps.ite (fun _ => Keeps.pure _) fun _ => Keeps.fail _

theorem keeps_mustRecreate : Keeps env P (mustRecreate rt t) :=
  Keeps.ite (fun _ => Keeps.pure _) fun _ => keeps_checkDiffers rt t hquiet

end Reads

theorem keeps_foundContainer (found : Option PodmanContainer) :
    Keeps env P (foundContainer found) := by
  cases found with
  | none => exact Keeps.fail _
  | some c => exact Keeps.pure c

/-! ## Methods that leave the images alone -/

section Lasting

variable {pre φ : W → Bool → Prop} (h : Lasting env P φ) (hpre : ∀ w c, pre w c → φ w true)
include h

section Rises

include hpre

/-- Nothing has been called that changes anything, or the flag is set. -/
theorem rises_createVolume (name : Text) :
    Triple env P pre (createVolume t name) fun _ w c => pre w c ∨ φ w c := by
  refine (keeps_checkVolume t h.quiet _ pre).bind fun present => ?_
  refine Triple.ite (fun _ => ?_) fun _ => Triple.pure fun _ _ => .inl
  refine (raise_changed hpre).bind fun _ => ?_
  exact (h.engine (.createVolume _) rfl).with_post fun _ _ _ => .inr

theorem rises_stopContainer :
    Triple env P pre (stopContainer t) fun _ w c => pre w c ∨ φ w c := by
  refine (keeps_checkContainer t h.quiet pre).bind fun found => ?_
  cases found with
  | none => exact Triple.ite (fun _ => Triple.pure fun _ _ => .inl) fun _ => Triple.fail
  | some c =>
    refine Triple.ite (fun _ => ?_) fun _ => Triple.pure fun _ _ => .inl
    refine (raise_changed hpre).bind fun _ => Triple.ite (fun _ => ?_) fun _ => ?_
    · refine (h.createUnitFile t).bind fun _ => (h.stop t).bind fun _ => ?_
      exact Triple.pure fun _ _ => .inr
    · exact (h.engine (.stop _ _) rfl).with_post fun _ _ _ => .inr

theorem rises_restartContainer : Triple env P pre (restartContainer t) fun _ => φ := by
  refine (keeps_checkContainer t h.quiet pre).bind fun found => ?_
  cases found with
  | none => exact Triple.fail
  | some c =>
    refine (raise_changed hpre).bind fun _ => (h.createUnitFile t).bind fun _ => ?_
    refine (h.restart t).bind fun running => ?_
    exact Triple.ite (fun _ => Triple.fail) fun _ => Triple.pure fun _ _ hw => hw

theorem rises_startIfDown (c : PodmanContainer) :
    Triple env P pre (startIfDown t c) fun _ w b =>
      c.status = "running".toList ∧ pre w b ∨ φ w b := by
  refine Triple.ite (fun _ => ?_) fun hstatus => ?_
  · refine (raise_changed hpre).bind fun _ =>
      Triple.with_post (?_ : Triple env P φ _ fun _ => φ) fun _ _ _ => .inr
    refine Triple.ite (fun _ => ?_) fun _ => ?_
    · refine (keeps_checkContainer t h.quiet φ).bind fun found => ?_
      exact (keeps_foundContainer found φ).bind fun c => h.engine (.start c) rfl
    · refine (h.createUnitFile t).bind fun _ => (h.start t).bind fun running => ?_
      refine Triple.ite (fun _ => ?_) fun _ => Triple.pure fun _ _ hw => hw
      exact (keeps_checkContainer t h.quiet φ).bind fun _ => Triple.fail
  · exact Triple.pure fun _ _ hw => .inl ⟨not_not.mp hstatus, hw⟩

end Rises

theorem stable_createVolume (name : Text) : Triple env P φ (createVolume t name) fun _ => φ :=
  (rises_createVolume t h h.flag name).with_post fun _ _ _ => or_self_iff.mp

theorem stable_createVolumesOf (volumes : List Text) :
    Triple env P φ (createVolumesOf t volumes) fun _ => φ := by
  induction volumes with
  | nil => exact Triple.pure fun _ _ hw => hw
  | cons volume volumes ih =>
    have hone : Triple env P φ (createContainerVolume t volume) fun _ => φ :=
      Triple.ite (fun _ => Triple.pure fun _ _ hw => hw) fun _ => stable_createVolume t h _
    exact hone.bind fun _ => ih

theorem stable_createContainer : Triple env P φ (createContainer rt t) fun _ => φ := by
  refine (stable_createVolumesOf t h _).bind fun _ => ?_
  refine (Triple.compute fun _ _ _ _ hw => hw).bind fun args => ?_
  refine (h.engine (.createContainer args) rfl).bind fun created => ?_
  refine Triple.ite (fun _ => ?_) fun _ => Triple.fail
  exact (h.createUnitFile t).bind fun written => h.orChanged written

theorem stable_stopContainer : Triple env P φ (stopContainer t) fun _ => φ :=
  (rises_stopContainer t h h.flag).with_post fun _ _ _ => or_self_iff.mp

theorem stable_removeContainer : Triple env P φ (removeContainer t) fun _ => φ := by
  refine (h.removeUnitFile t).bind fun removed => (h.orChanged removed).bind fun _ => ?_
  refine (keeps_checkContainer t h.quiet φ).bind fun found => ?_
  cases found with
  | none => exact Triple.pure fun _ _ hw => hw
  | some c =>
    refine (h.engine (.removeContainer c) rfl).bind fun done => ?_
    refine Triple.ite (fun _ => ?_) fun _ => Triple.pure fun _ _ hw => hw
    refine (keeps_checkContainer t h.quiet φ).bind fun found => ?_
    exact Triple.ite (fun _ => Triple.fail) fun _ => Triple.pure fun _ _ hw => hw

theorem stable_removeIfDiffers : Triple env P φ (removeIfDiffers rt t) fun _ => φ := by
  refine (keeps_checkContainer t h.quiet φ).bind fun found => ?_
  cases found with
  | none => exact Triple.pure fun _ _ hw => hw
  | some c =>
    refine (keeps_checkDiffers rt t h.quiet φ).bind fun differs => ?_
    refine Triple.ite (fun _ => ?_) fun _ => Triple.pure fun _ _ hw => hw
    refine (stable_stopContainer t h).bind fun _ => (stable_removeContainer t h).bind fun _ => ?_
    exact keeps_checkContainer t h.quiet φ

theorem stable_createIfMissing (found : Option PodmanContainer) :
    Triple env P φ (createIfMissing rt t found) fun _ => φ := by
  cases found with
  | none => exact (stable_createContainer rt t h).bind fun _ => keeps_checkContainer t h.quiet φ
  | some c => exact Triple.pure fun _ _ hw => hw

theorem stable_startIfDown (c : PodmanContainer) : Triple env P φ (startIfDown t c) fun _ => φ :=
  (rises_startIfDown t h h.flag c).with_post fun _ _ _ hw => hw.elim And.right id

/-- The wait changes no more than the removal after it. -/
theorem triple_waitForExit (hexited : Triple env P pre (removeExited t) fun _ => pre) :
    Triple env P pre (waitForExit t) fun _ => pre := by
  refine Triple.ite (fun _ => ?_) fun _ => Triple.pure fun _ _ hw => hw
  refine (keeps_checkContainer t h.quiet pre).bind fun found => ?_
  refine (keeps_foundContainer found pre).bind fun c => ?_
  refine (keeps_ask h.quiet (.wait c) rfl pre).bind fun rc => ?_
  refine (keeps_ask h.quiet (.logs c _) rfl pre).bind fun _ => ?_
  refine (keeps_ask h.quiet (.logs c _) rfl pre).bind fun _ => hexited.bind fun _ => ?_
  exact Triple.ite (fun _ => Triple.fail) fun _ => Triple.pure fun _ _ hw => hw

theorem stable_startWithImage : Triple env P φ (startWithImage rt t) fun _ => φ := by
  have hexited : Triple env P φ (removeExited t) fun _ => φ :=
    Triple.ite (fun _ => (stable_stopContainer t h).bind fun _ => stable_removeContainer t h)
      fun _ => Triple.pure fun _ _ hw => hw
  refine (stable_removeIfDiffers rt t h).bind fun found => ?_
  refine (stable_createIfMissing rt t h found).bind fun found => ?_
  refine (keeps_foundContainer found φ).bind fun c => ?_
  exact (stable_startIfDown t h c).bind fun _ => triple_waitForExit t h hexited

end Lasting

/-- What a pull keeps, whatever becomes of the flag. -/
theorem kept_pullImage {φ : W → Prop}
    (hquiet : ∀ {τ : Type} (op : WorkerCall PodmanCall τ), op.changes = false → Quiet env P op)
    (hpull : ∀ args, Preserves env P (fun w _ => φ w) (.engine (.pull args))) :
    Triple env P (fun w _ => φ w) (pullImage t) fun _ w _ => φ w := by
  refine (Keeps.compute _ _).bind fun args => (keeps_checkImage t hquiet _).bind fun oldImage => ?_
  refine (hpull args).triple.bind fun answer => ?_
  rcases answer with message | image | image
  · exact Triple.fail
  · exact Triple.fail
  · exact Triple.set fun _ _ hw => hw

end Rules

end Podman

end Container
end KollaPowerOps
