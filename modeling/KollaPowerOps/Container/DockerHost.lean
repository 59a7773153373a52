import KollaPowerOps.Container.DockerWorker
import KollaPowerOps.Container.Host

/-!
# Container.DockerHost

The engine that the Docker worker calls, and rules for the methods of the worker.

* `Naming`         : how the engine matches and gives names.
* `replies`        : what the engine answers, and what it does to the host.
* `keeps_*`        : the methods that read.
* `stable_*`       : the methods that leave the images alone.
-/

namespace KollaPowerOps
namespace Container

open Effect

namespace Docker

/-! ## The engine -/

instance : EngineCalls DockerCall where
  touchesContainer
    | .createContainer _ => true
    | .removeContainer _ => true
    | .start _ => true
    | .stop _ _ => true
    | _ => false
  touchesImages
    | .pull _ _ => true
    | .removeImage _ => true
    | _ => false
  touchesVolumes
    | .createVolume _ => true
    | .removeVolume _ => true
    | _ => false

structure Naming where
  /-- the reference of a listing matches the tag -/
  matchesTag : Text → Text → Bool
  /-- the tag under which an image is listed that is pulled from the repository with a tag -/
  listedAs : Text → Text → Text

/-- The images that the engine lists for a reference. -/
def Naming.listed (n : Naming) (name : Text) (w : Host) : List Image :=
  w.images.filter fun image => image.repoTags.any (n.matchesTag name)

def replies (n : Naming) (t : Task) : Replies DockerCall
  | w, _, .images, images, _ => images = w.images
  | w, _, .imageIds name, ids, _ => ids = (n.listed name w).map Image.id
  | w, _, .containers, containers, _ => containers.any (isNamed t) = w.container.isSome
  | w, _, .pull repository tag, statuses, w' =>
    statuses.reverse.findSome? PullStatus.error = none →
      ∃ image, Host.Pulled image (n.listedAs repository tag) w w'
  | _, _, .createContainer _, _, w' => w'.Fresh
  | _, _, .removeContainer _, done, w' => done = true → w'.container = none
  | w, _, .start _, _, w' => w'.container.isSome = w.container.isSome
  | w, _, .stop _ _, _, w' => w'.container.isSome = w.container.isSome
  | _, _, _, _, _ => True

/-! ## Methods that read -/

section Rules

variable {W : Type} {env : Env (WorkerCall DockerCall) WorkerExit W}
  {P : W → ∀ {τ : Type}, WorkerCall DockerCall τ → Prop} (rt : PyRuntime)
  (parseRepositoryTag : Text → Text × Option Text) (t : Task)

section Reads

variable (hquiet : ∀ {τ : Type} (op : WorkerCall DockerCall τ), op.changes = false → Quiet env P op)
include hquiet

theorem keeps_ask {τ : Type} (op : DockerCall τ) (hop : (WorkerCall.engine op).changes = false) :
    Keeps env P (engine op : DockerWorker τ) := (hquiet _ hop).keeps

theorem keeps_checkImage : Keeps env P (checkImage t) :=
  (Keeps.compute _).bind fun _ => (keeps_ask hquiet .images rfl).bind fun _ => Keeps.pure _

theorem keeps_checkVolume : Keeps env P (checkVolume t) :=
  (keeps_ask hquiet .volumes rfl).bind fun _ => Keeps.pure _

theorem keeps_checkContainer : Keeps env P (checkContainer t) :=
  (keeps_ask hquiet .containers rfl).bind fun _ => Keeps.pure _

theorem keeps_getContainerInfo : Keeps env P (getContainerInfo t) := by
  refine (keeps_checkContainer t hquiet).bind fun found => ?_
  cases found with
  | none => exact Keeps.pure _
  | some c => exact (keeps_ask hquiet (.inspectContainer _) rfl).bind fun _ => Keeps.pure _

theorem keeps_comparisons (info : ContainerInfo) :
    ∀ m ∈ comparisons compute (checkImage t) parseRepositoryTag rt t.params info,
      Keeps env P m := by
  intro m hm
  simp only [comparisons, List.mem_cons, List.not_mem_nil, or_false] at hm
  have hlookup : ∀ f : Option Image → Except WorkerExit Bool,
      Keeps env P (do compute (f (← checkImage t)) : DockerWorker Bool) :=
    fun f => (keeps_checkImage t hquiet).bind fun _ => Keeps.compute _
  rcases hm with rfl | rfl | rfl | rfl | rfl | rfl | rfl | rfl | rfl | rfl | rfl | rfl | rfl |
    rfl | rfl | rfl
  any_goals exact Keeps.compute _
  · exact hlookup _
  · exact hlookup _

theorem keeps_checkDiffers : Keeps env P (checkDiffers rt parseRepositoryTag t) := by
  refine (keeps_getContainerInfo t hquiet).bind fun info => ?_
  cases info with
  | none => exact Keeps.pure true
  | some info => exact keeps_anyOf (keeps_comparisons rt parseRepositoryTag t hquiet info)

theorem keeps_compareConfig : Keeps env P (compareConfig t) := by
  refine (keeps_ask hquiet (.execCreate _) rfl).bind fun job => ?_
  cases job with
  | none => exact Keeps.pure _
  | some job =>
    refine (keeps_ask hquiet (.execStart job) rfl).bind fun output => ?_
    cases output with
    | none => exact Keeps.pure _
    | some output =>
      refine (keeps_ask hquiet (.execInspect job) rfl).bind fun exitCode => ?_
      cases exitCode with
      | none => exact Keeps.pure _
      | some exitCode =>
        refine Keeps.ite (fun _ => Keeps.pure _) fun _ => ?_
        refine Keeps.ite (fun _ => Keeps.pure _) fun _ => ?_
        exact Keeps.ite (fun _ => Keeps.pure _) fun _ => Keeps.fail _

theorem keeps_mustRecreate : Keeps env P (mustRecreate rt parseRepositoryTag t) :=
  Keeps.ite (fun _ => Keeps.pure _) fun _ => keeps_checkDiffers rt parseRepositoryTag t hquiet

theorem keeps_getImageId : Keeps env P (getImageId t) := by
  refine (Keeps.compute _).bind fun name => (keeps_ask hquiet (.imageIds name) rfl).bind fun ids => ?_
  split
  · exact Keeps.pure _
  · exact Keeps.pure _

theorem keeps_loginIfAsked : Keeps env P (loginIfAsked t) := by
  rw [loginIfAsked]
  split
  · exact Keeps.pure _
  · exact Keeps.ite (fun _ => Keeps.pure _) fun _ => keeps_ask hquiet _ rfl

theorem keeps_timedOut : Keeps env P (timedOut t) :=
  (keeps_checkContainer t hquiet).bind fun _ => Keeps.fail _

end Reads

/-! ## Methods that leave the images alone -/

section Lasting

variable {pre φ : W → Bool → Prop} (h : Lasting env P φ) (hpre : ∀ w c, pre w c → φ w true)
include h

section Rises

include hpre

/-- Nothing has been called that changes anything, or the flag is set. -/
theorem rises_createVolume (name : Text) :
    Triple env P pre (createVolume t name) fun _ w c => pre w c ∨ φ w c := by
  refine (keeps_checkVolume t h.quiet pre).bind fun present => ?_
  refine Triple.ite (fun _ => ?_) fun _ => Triple.pure fun _ _ => .inl
  refine (raise_changed hpre).bind fun _ => ?_
  exact (h.engine (.createVolume _) rfl).with_post fun _ _ _ => .inr

theorem rises_stopContainer :
    Triple env P pre (stopContainer t) fun _ w c => pre w c ∨ φ w c := by
  refine (keeps_checkContainer t h.quiet pre).bind fun found => ?_
  cases found with
  | none => exact Triple.ite (fun _ => Triple.pure fun _ _ => .inl) fun _ => Triple.fail
  | some c =>
    refine Triple.ite (fun _ => ?_) fun _ => Triple.pure fun _ _ => .inl
    refine (raise_changed hpre).bind fun _ => ?_
    refine (Systemd.keeps_checkUnitFile t (fun op => h.quiet (.systemd op)) φ).bind fun present => ?_
    refine Triple.ite (fun _ => ?_) fun _ => ?_
    · exact (h.stop t).bind fun _ => Triple.pure fun _ _ => .inr
    · exact (h.engine (.stop _ _) rfl).with_post fun _ _ _ => .inr

theorem rises_restartContainer : Triple env P pre (restartContainer t) fun _ => φ := by
  refine (keeps_getContainerInfo t h.quiet pre).bind fun info => ?_
  cases info with
  | none => exact Triple.fail
  | some info =>
    refine (raise_changed hpre).bind fun _ => Triple.ite (fun _ => ?_) fun _ => ?_
    · refine (h.createUnitFile t).bind fun _ => (h.restart t).bind fun running => ?_
      exact Triple.ite (fun _ => keeps_timedOut t h.quiet φ) fun _ => Triple.pure fun _ _ hw => hw
    · exact (h.engine (.stop _ _) rfl).bind fun _ => h.engine (.start _) rfl

theorem rises_startIfDown (found : Option ContainerSummary) :
    Triple env P pre (startIfDown t found) fun _ w c => pre w c ∨ φ w c := by
  cases found with
  | none => exact Triple.fail
  | some c =>
    refine Triple.ite (fun _ => ?_) fun _ => Triple.pure fun _ _ => .inl
    refine (raise_changed hpre).bind fun _ =>
      Triple.with_post (?_ : Triple env P φ _ fun _ => φ) fun _ _ _ => .inr
    refine Triple.ite (fun _ => h.engine (.start _) rfl) fun _ => ?_
    refine (h.createUnitFile t).bind fun _ => (h.start t).bind fun running => ?_
    exact Triple.ite (fun _ => keeps_timedOut t h.quiet φ) fun _ => Triple.pure fun _ _ hw => hw

end Rises

theorem stable_createVolume (name : Text) : Triple env P φ (createVolume t name) fun _ => φ :=
  (rises_createVolume t h h.flag name).with_post fun _ _ _ => or_self_iff.mp

theorem stable_createVolumesOf (volumes : List Text) :
    Triple env P φ (createVolumesOf t volumes) fun _ => φ := by
  induction volumes with
  | nil => exact Triple.pure fun _ _ hw => hw
  | cons volume volumes ih =>
    have hone : Triple env P φ (createContainerVolume t volume) fun _ => φ :=
      Triple.ite (fun _ => Triple.pure fun _ _ hw => hw) fun _ => stable_createVolume t h _
    exact hone.bind fun _ => ih

include hpre in
theorem rises_createContainer : Triple env P pre (createContainer rt t) fun _ => φ := by
  refine (raise_changed hpre).bind fun _ => (stable_createVolumesOf t h _).bind fun _ => ?_
  refine (Triple.compute fun _ _ _ _ hw => hw).bind fun options => ?_
  refine (h.engine (.createContainer options) rfl).bind fun _ => ?_
  refine Triple.ite (fun _ => ?_) fun _ => Triple.pure fun _ _ hw => hw
  exact (h.createUnitFile t).bind fun written => h.orChanged written

theorem stable_stopContainer : Triple env P φ (stopContainer t) fun _ => φ :=
  (rises_stopContainer t h h.flag).with_post fun _ _ _ => or_self_iff.mp

theorem stable_removeContainer : Triple env P φ (removeContainer t) fun _ => φ := by
  refine (h.removeUnitFile t).bind fun removed => (h.orChanged removed).bind fun _ => ?_
  refine (keeps_checkContainer t h.quiet φ).bind fun found => ?_
  refine Triple.ite (fun _ => ?_) fun _ => Triple.pure fun _ _ hw => hw
  refine h.setChanged.bind fun _ => (h.engine (.removeContainer _) rfl).bind fun done => ?_
  refine Triple.ite (fun _ => ?_) fun _ => ?_
  · exact (h.removeUnitFile t).bind fun _ => Triple.pure fun _ _ hw => hw
  · refine (keeps_checkContainer t h.quiet φ).bind fun found => ?_
    exact Triple.ite (fun _ => Triple.fail) fun _ => Triple.pure fun _ _ hw => hw

theorem stable_removeIfDiffers :
    Triple env P φ (removeIfDiffers rt parseRepositoryTag t) fun _ => φ := by
  refine (keeps_checkContainer t h.quiet φ).bind fun found => ?_
  cases found with
  | none => exact Triple.pure fun _ _ hw => hw
  | some c =>
    refine (keeps_checkDiffers rt parseRepositoryTag t h.quiet φ).bind fun differs => ?_
    refine Triple.ite (fun _ => ?_) fun _ => Triple.pure fun _ _ hw => hw
    refine (stable_stopContainer t h).bind fun _ => (stable_removeContainer t h).bind fun _ => ?_
    exact keeps_checkContainer t h.quiet φ

theorem stable_createIfMissing (found : Option ContainerSummary) :
    Triple env P φ (createIfMissing rt t found) fun _ => φ := by
  cases found with
  | none =>
    exact (rises_createContainer rt t h h.flag).bind fun _ => keeps_checkContainer t h.quiet φ
  | some c => exact Triple.pure fun _ _ hw => hw

theorem stable_startIfDown (found : Option ContainerSummary) :
    Triple env P φ (startIfDown t found) fun _ => φ :=
  (rises_startIfDown t h h.flag found).with_post fun _ _ _ => or_self_iff.mp

/-- The wait changes no more than the removal after it. -/
theorem triple_waitForExit (hexited : Triple env P pre (removeExited t) fun _ => pre) :
    Triple env P pre (waitForExit t) fun _ => pre := by
  refine Triple.ite (fun _ => ?_) fun _ => Triple.pure fun _ _ hw => hw
  refine (keeps_ask h.quiet (.wait _) rfl pre).bind fun rc => ?_
  refine (keeps_ask h.quiet (.logs _ _) rfl pre).bind fun _ => ?_
  refine (keeps_ask h.quiet (.logs _ _) rfl pre).bind fun _ => hexited.bind fun _ => ?_
  exact Triple.ite (fun _ => Triple.fail) fun _ => Triple.pure fun _ _ hw => hw

theorem stable_startWithImage :
    Triple env P φ (startWithImage rt parseRepositoryTag t) fun _ => φ := by
  have hexited : Triple env P φ (removeExited t) fun _ => φ :=
    Triple.ite (fun _ => (stable_stopContainer t h).bind fun _ => stable_removeContainer t h)
      fun _ => Triple.pure fun _ _ hw => hw
  refine (stable_removeIfDiffers rt parseRepositoryTag t h).bind fun found => ?_
  refine (stable_createIfMissing rt t h found).bind fun found => ?_
  exact (stable_startIfDown t h found).bind fun _ => triple_waitForExit t h hexited

end Lasting

/-- What a pull keeps, whatever becomes of the flag. -/
theorem kept_pullImage {φ : W → Prop}
    (hquiet : ∀ {τ : Type} (op : WorkerCall DockerCall τ), op.changes = false → Quiet env P op)
    (hpull : ∀ repository tag, Preserves env P (fun w _ => φ w) (.engine (.pull repository tag))) :
    Triple env P (fun w _ => φ w) (pullImage t) fun _ w _ => φ w := by
  refine (keeps_loginIfAsked t hquiet _).bind fun _ => (Keeps.compute _ _).bind fun parsed => ?_
  refine (keeps_getImageId t hquiet _).bind fun oldImageId => ?_
  refine (hpull parsed.1 parsed.2).triple.bind fun statuses => ?_
  split
  · exact Triple.fail
  · exact (keeps_getImageId t hquiet _).bind fun newImageId => Triple.set fun _ _ hw => hw

end Rules

end Docker

end Container
end KollaPowerOps
