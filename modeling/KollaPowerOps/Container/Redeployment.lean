import KollaPowerOps.Container.Fixpoint
import KollaPowerOps.Container.Units

/-!
# Container.Redeployment

The second deployment of a container with Docker, by an engine that stores what it creates.

* `onEngine`  : the environment. Containers are reported as `inspected` says, and systemd and the
  engine change the status of the container when they start or stop it.
* `Deployed`  : the container is there as the parameters say, whatever its status.
* `deployed_startContainer`, `deployed_recreate` : what a deployment leaves.
* `Idle`      : what a run of the module does that finds nothing to do.
-/

namespace KollaPowerOps
namespace Container

open Effect

def ContainerInfo.withStatus (info : ContainerInfo) (status : Text) : ContainerInfo :=
  { info with status := status }

namespace Docker

/-! ## The engine -/

/-- The node, with what the engine knows of images and of the container of the module. -/
structure Engine where
  node : Node
  images : List Image
  container : Option ContainerInfo
  /-- the exit code of the check of the configuration, if the container can be asked -/
  checked : Option Int

namespace Engine

/-- The image that the worker looks up for its parameters. -/
def image (t : Task) (w : Engine) : Option Image :=
  match findImage t with
  | .ok name => w.images.find? fun image => image.repoTags.contains name
  | .error _ => none

/-- The images are as before, and of the container at most the status is not. -/
def Restated (w w' : Engine) : Prop :=
  w'.images = w.images ∧ ∃ status, w'.container = w.container.map fun info => info.withStatus status

end Engine

section Environment

variable (rt : PyRuntime) (t : Task)

/-- What the engine has stored after a creation. -/
def Stored (w : Engine) (options : ContainerOptions) (container : Option ContainerInfo) : Prop :=
  ∃ image words status, w.image t = some image ∧ commandWords image options.command = .ok words ∧
    refused options = false ∧
    container = some ((inspected rt image t.params.state options words).withStatus status)

def engineReplies (w w' : Engine) {τ : Type} : DockerCall τ → τ → Prop
  | .images, images => images = w.images
  | .containers, containers => containers.any (isNamed t) = w.container.isSome ∧
      ∀ c ∈ containers, isNamed t c = true → ∀ info, w.container = some info →
        info.status = "running".toList → "Up ".toList.isPrefixOf c.status = true
  | .inspectContainer _, info => w.container = some info
  | .createContainer options, _ => w'.images = w.images ∧ Stored rt t w options w'.container
  | .removeContainer _, done => w'.images = w.images ∧ (done = true → w'.container = none)
  | .start _, _ => w.Restated w'
  | .stop _ _, _ => w.Restated w'
  | .execCreate _, job => job.isSome = w.checked.isSome
  | .execStart _, output => output.isSome = w.checked.isSome
  | .execInspect _, exitCode => exitCode = w.checked
  | _, _ => True

def workerReplies (w w' : Engine) {τ : Type} : WorkerCall DockerCall τ → τ → Prop
  | .engine op, a => engineReplies rt t w w' op a
  | .systemd _, _ => w.Restated w'

def onEngine : Env (WorkerCall DockerCall) WorkerExit Engine := fun w ev w' =>
  nodeEnv w.node ev w'.node ∧ (ev.op.changes = false → w' = w) ∧
    ∀ a, ev.answer = .ok a → workerReplies rt t w w' ev.op a

end Environment

/-! ## What a deployment leaves -/

section Deployed

variable (rt : PyRuntime) (parseRepositoryTag : Text → Text × Option Text) (t : Task)

/-- The container in the requested state is one that was created with the parameters, or one that does
not differ from them. -/
def AsRequested (image : Image) (info : ContainerInfo) : Prop :=
  info.status = t.params.state.text ∧ (created rt image t.params = .ok info ∨
    differs rt parseRepositoryTag image t.params info = .ok false)

def Deployed (w : Engine) : Prop :=
  ∃ image info status, w.image t = some image ∧ w.container = some (info.withStatus status) ∧
    AsRequested rt parseRepositoryTag t image info

variable {rt parseRepositoryTag t} {w w' : Engine} {φ : Engine → Bool → Prop} {τ : Type}

theorem Engine.image_congr (h : w'.images = w.images) : w'.image t = w.image t := by
  rw [Engine.image, h, Engine.image]

theorem Deployed.restated (h : Deployed rt parseRepositoryTag t w) (hw : w.Restated w') :
    Deployed rt parseRepositoryTag t w' := by
  obtain ⟨image, info, status, himage, hcontainer, hrequested⟩ := h
  obtain ⟨himages, status', hcontainer'⟩ := hw
  refine ⟨image, info, status', (Engine.image_congr himages).trans himage, ?_, hrequested⟩
  rw [hcontainer', hcontainer]
  rfl

theorem quiet_onEngine (op : WorkerCall DockerCall τ) (h : op.changes = false) :
    Quiet (onEngine rt t) Free op :=
  ⟨fun _ => trivial, fun _ _ _ hev => hev.2.1 h⟩

/-- systemd and the calls that start or stop the container keep what does not depend on its status. -/
theorem preserves_systemd (hφ : ∀ w w' c, φ w c → w.Restated w' → φ w' c) (op : SystemdCall τ) :
    Preserves (onEngine rt t) Free φ (.systemd op) :=
  fun w c h => ⟨trivial, fun a w' hev => hφ w w' c h (hev.2.2 a rfl)⟩

theorem restated_deployed : ∀ (w w' : Engine) (_ : Bool), Deployed rt parseRepositoryTag t w →
    w.Restated w' → Deployed rt parseRepositoryTag t w' := fun _ _ _ h hw => h.restated hw

theorem restated_absent : ∀ (w w' : Engine) (_ : Bool), w.container = none →
    w.Restated w' → w'.container = none := by
  rintro w w' _ h ⟨-, status, hcontainer⟩
  rw [hcontainer, h]
  rfl

/-! ### What the worker sees -/

theorem engine_checkContainer : Triple (onEngine rt t) Free φ (checkContainer t)
    fun found w c => φ w c ∧ found.isSome = w.container.isSome := by
  have hask : Triple (onEngine rt t) Free φ (engine DockerCall.containers : DockerWorker _)
      fun containers w c => φ w c ∧ containers.any (isNamed t) = w.container.isSome := by
    refine Triple.ask (fun _ _ _ => trivial) fun w c containers w' h hev => ?_
    obtain ⟨-, hsame, hreply⟩ := hev
    obtain rfl := hsame rfl
    exact ⟨h, (hreply _ rfl).1⟩
  refine hask.bind fun containers => Triple.pure fun w c h => ⟨h.1, ?_⟩
  rw [← h.2]
  exact Bool.eq_iff_iff.mpr (List.find?_isSome.trans List.any_eq_true.symm)

theorem engine_checkImage : Triple (onEngine rt t) Free φ (checkImage t)
    fun found w c => φ w c ∧ found = w.image t := by
  unfold checkImage
  have hfind : Triple (onEngine rt t) Free φ (compute (findImage t) : DockerWorker Text)
      fun name w c => φ w c ∧ findImage t = .ok name :=
    Triple.compute fun name w c hname h => ⟨h, hname⟩
  refine hfind.bind fun name => ?_
  have hask : Triple (onEngine rt t) Free (fun w c => φ w c ∧ findImage t = .ok name)
      (engine DockerCall.images : DockerWorker _)
      fun images w c => (φ w c ∧ findImage t = .ok name) ∧ images = w.images := by
    refine Triple.ask (fun _ _ _ => trivial) fun w c images w' h hev => ?_
    obtain ⟨-, hsame, hreply⟩ := hev
    obtain rfl := hsame rfl
    exact ⟨h, hreply _ rfl⟩
  refine hask.bind fun images => Triple.pure fun w c h => ⟨h.1.1, ?_⟩
  rw [Engine.image, h.1.2, h.2]

/-- Comparisons that each find what their counterparts say. -/
theorem engine_anyOf {ψ : Engine → Bool → Prop} {ms : List (DockerWorker Bool)}
    {cs : List (Except WorkerExit Bool)}
    (h : List.Forall₂ (fun m c => Triple (onEngine rt t) Free ψ m fun r w b => ψ w b ∧ c = .ok r)
      ms cs) :
    Triple (onEngine rt t) Free ψ (anyOf ms) fun r w b => ψ w b ∧ anyOf cs = .ok r := by
  induction h with
  | nil => exact Triple.pure fun w b hw => ⟨hw, rfl⟩
  | @cons m c ms cs hm _ ih =>
    refine hm.bind fun found => ?_
    cases found with
    | true => exact Triple.pure fun w b hw => ⟨hw.1, by rw [anyOf, hw.2]; rfl⟩
    | false =>
      intro w b hw
      obtain ⟨hw, rfl⟩ := hw
      exact ih w b hw

/-- `check_container_differs` of an inspected container, where the look-up of the image gives this. -/
def differsFrom (rt : PyRuntime) (parseRepositoryTag : Text → Text × Option Text) (p : Params)
    (image : Option Image) (info : ContainerInfo) : Except WorkerExit Bool :=
  checkContainerDiffers id (.ok image) parseRepositoryTag rt p (some info)

theorem engine_comparisons {image : Option Image} {info : ContainerInfo}
    {ψ : Engine → Bool → Prop} (himage : ∀ w b, ψ w b → w.image t = image) :
    Triple (onEngine rt t) Free ψ
      (checkContainerDiffers compute (checkImage t) parseRepositoryTag rt t.params (some info))
      fun r w b => ψ w b ∧ differsFrom rt parseRepositoryTag t.params image info = .ok r := by
  have hlift : ∀ x : Except WorkerExit Bool, Triple (onEngine rt t) Free ψ
      (compute x : DockerWorker Bool) fun r w b => ψ w b ∧ x = .ok r :=
    fun x => Triple.compute fun r w b hx hw => ⟨hw, hx⟩
  have hlookup : ∀ f : Option Image → Except WorkerExit Bool, Triple (onEngine rt t) Free ψ
      (do compute (f (← checkImage t)) : DockerWorker Bool)
      fun r w b => ψ w b ∧ f image = .ok r := by
    intro f
    refine engine_checkImage.bind fun found => Triple.compute fun r w b hx hw => ⟨hw.1, ?_⟩
    rw [← himage w b hw.1, ← hw.2, hx]
  exact engine_anyOf (.cons (hlift _) (.cons (hlift _) (.cons (hlookup _) (.cons (hlift _) (.cons
    (hlookup _) (.cons (hlift _) (.cons (hlift _) (.cons (hlift _) (.cons (hlift _) (.cons (hlift _)
    (.cons (hlift _) (.cons (hlift _) (.cons (hlift _) (.cons (hlift _) (.cons (hlift _) (.cons
    (hlift _) .nil))))))))))))))))

/-- Without its image a container counts as different. -/
theorem image_of_same {image : Option Image} {info : ContainerInfo}
    (h : differsFrom rt parseRepositoryTag t.params image info = .ok false) :
    ∃ found, image = some found ∧ differs rt parseRepositoryTag found t.params info = .ok false := by
  cases image with
  | some found => exact ⟨found, rfl, h⟩
  | none =>
    have himage := anyOf_eq_false.mp h (.ok true) (by
      refine List.mem_cons_of_mem _ (List.mem_cons_of_mem _ (List.mem_cons.mpr (.inl rfl))))
    cases himage

theorem absent_of_found {found : Option ContainerSummary} (h : found.isSome = w.container.isSome)
    (hnone : ¬ found.isSome = true) : w.container = none := by
  rw [h] at hnone
  exact Option.not_isSome_iff_eq_none.mp hnone

theorem engine_getContainerInfo : Triple (onEngine rt t) Free φ (getContainerInfo t)
    fun found w c => φ w c ∧ found = w.container := by
  refine engine_checkContainer.bind fun found => ?_
  cases found with
  | none => exact Triple.pure fun w c hw => ⟨hw.1, (absent_of_found hw.2 Bool.false_ne_true).symm⟩
  | some summary =>
    have hask : Triple (onEngine rt t) Free (fun w c => φ w c ∧ true = w.container.isSome)
        (engine (DockerCall.inspectContainer t.params.name) : DockerWorker _)
        fun info w c => φ w c ∧ w.container = some info := by
      refine Triple.ask (fun _ _ _ => trivial) fun w c info w' hw hev => ?_
      obtain ⟨-, hsame, hreply⟩ := hev
      obtain rfl := hsame rfl
      exact ⟨hw.1, hreply _ rfl⟩
    exact hask.bind fun info => Triple.pure fun w c hw => ⟨hw.1, hw.2.symm⟩

/-- What the comparison finds is what the container differs in from the parameters. -/
theorem engine_checkDiffers : Triple (onEngine rt t) Free φ (checkDiffers rt parseRepositoryTag t)
    fun r w c => φ w c ∧ ∀ info, w.container = some info →
      differsFrom rt parseRepositoryTag t.params (w.image t) info = .ok r := by
  refine engine_getContainerInfo.bind fun found => ?_
  cases found with
  | none =>
    refine Triple.pure fun w c hw => ⟨hw.1, fun info hinfo => ?_⟩
    rw [hinfo] at hw
    cases hw.2
  | some info =>
    intro w c hw
    have hsees : Triple (onEngine rt t) Free
        (fun u b => (φ u b ∧ some info = u.container) ∧ u.image t = w.image t)
        (checkContainerDiffers compute (checkImage t) parseRepositoryTag rt t.params (some info))
        fun r u b => ((φ u b ∧ some info = u.container) ∧ u.image t = w.image t) ∧
          differsFrom rt parseRepositoryTag t.params (w.image t) info = .ok r :=
      engine_comparisons fun u b hu => hu.2
    refine wp_mono (hsees w c ⟨hw, rfl⟩) ?_
    rintro r u ⟨⟨⟨hu, hcontainer⟩, himage⟩, hdiffers⟩
    refine ⟨hu, fun info' hinfo' => ?_⟩
    cases hcontainer.trans hinfo'
    rw [himage]
    exact hdiffers

/-! ### What the worker does -/

theorem free_any {α : Type} {pre : Engine → Bool → Prop} (m : DockerWorker α) :
    Triple (onEngine rt t) Free pre m fun _ _ _ => True := by
  intro w c _
  have hfree : ∀ p : Prog (WorkerCall DockerCall) WorkerExit (α × Bool),
      ∀ w, p.wp (onEngine rt t) Free (fun _ _ => True) w := by
    intro p
    induction p with
    | done r =>
      intro _
      cases r <;> trivial
    | call op k ih => exact fun _ => ⟨trivial, fun a w' _ => ih a w'⟩
  exact hfree _ w

theorem absent_removeContainer : Triple (onEngine rt t) Free (fun _ _ => True) (removeContainer t)
    fun _ w _ => w.container = none := by
  have hunit : ∀ ψ : Engine → Bool → Prop, (∀ w w' c, ψ w c → w.Restated w' → ψ w' c) →
      Triple (onEngine rt t) Free ψ (Systemd.removeUnitFile t : DockerWorker Bool) fun _ => ψ :=
    fun ψ hψ => Systemd.file_removeUnitFile t fun op _ => preserves_systemd hψ op
  refine (hunit (fun _ _ => True) fun _ _ _ _ _ => trivial).bind fun removed => ?_
  refine (free_any (orChanged removed)).bind fun _ => engine_checkContainer.bind fun found =>
    Triple.ite (fun _ => ?_) fun habsent => ?_
  · refine (free_any (setChanged true)).bind fun _ => ?_
    have hremove : Triple (onEngine rt t) Free (fun _ _ => True)
        (engine (DockerCall.removeContainer t.params.name) : DockerWorker Bool)
        fun done w _ => done = true → w.container = none := by
      refine Triple.ask (fun _ _ _ => trivial) fun w c done w' _ hev => ?_
      exact (hev.2.2 _ rfl).2
    refine hremove.bind fun done => Triple.ite (fun hdone => ?_) fun _ => ?_
    · refine ((hunit _ restated_absent).with_pre fun w _ hw => hw hdone).bind fun _ => ?_
      exact Triple.pure fun _ _ hw => hw
    · have hlisted : Triple (onEngine rt t) Free (fun w _ => done = true → w.container = none)
          (checkContainer t) fun found w _ => True ∧ found.isSome = w.container.isSome :=
        engine_checkContainer.with_pre fun _ _ _ => trivial
      refine hlisted.bind fun found => Triple.ite (fun _ => Triple.fail) fun habsent => ?_
      exact Triple.pure fun w _ hw => absent_of_found hw.2 habsent
  · exact Triple.pure fun w _ hw => absent_of_found hw.2 habsent

/-- What a comparison leaves: nothing, or a container that is as requested. -/
def Compared (rt : PyRuntime) (parseRepositoryTag : Text → Text × Option Text) (t : Task)
    (found : Option ContainerSummary) (w : Engine) : Prop :=
  match found with
  | none => w.container = none
  | some _ => Deployed rt parseRepositoryTag t w

theorem state_of_same {image : Image} {info : ContainerInfo}
    (h : differs rt parseRepositoryTag image t.params info = .ok false) :
    info.status = t.params.state.text := by
  have hstate := differs_eq_false.mp h (.ok (compareContainerState t.params info)) (by
    simp [comparisons])
  have hsame : compareContainerState t.params info = false := Except.ok.inj hstate
  exact (Decidable.not_not.mp (of_decide_eq_false hsame)).symm

theorem deployed_of_same {info : ContainerInfo} (hcontainer : w.container = some info)
    (h : differsFrom rt parseRepositoryTag t.params (w.image t) info = .ok false) :
    Deployed rt parseRepositoryTag t w := by
  obtain ⟨image, himage, hdiffers⟩ := image_of_same h
  exact ⟨image, info, info.status, himage, hcontainer, state_of_same hdiffers, .inr hdiffers⟩

theorem engine_removeIfDiffers : Triple (onEngine rt t) Free (fun _ _ => True)
    (removeIfDiffers rt parseRepositoryTag t)
    fun found w _ => Compared rt parseRepositoryTag t found w := by
  refine (engine_checkContainer (φ := fun _ _ => True)).bind fun found => ?_
  cases found with
  | none => exact Triple.pure fun w _ hw => absent_of_found hw.2 Bool.false_ne_true
  | some summary =>
    refine engine_checkDiffers.bind fun different => ?_
    cases different with
    | true =>
      refine (free_any (stopContainer t)).bind fun _ => absent_removeContainer.bind fun _ => ?_
      refine engine_checkContainer.with_post fun found w _ hw => ?_
      cases found with
      | none => exact hw.1
      | some _ =>
        rw [hw.1] at hw
        cases hw.2
    | false =>
      refine Triple.pure fun w _ hw => ?_
      obtain ⟨info, hinfo⟩ := Option.isSome_iff_exists.mp hw.1.2.symm
      exact deployed_of_same hinfo (hw.2 info hinfo)

/-- What the engine stores is what the parameters ask for. -/
theorem deployed_of_stored {options : ContainerOptions}
    (hoptions : buildContainerOptions rt t.params = .ok options) (himages : w'.images = w.images)
    (h : Stored rt t w options w'.container) : Deployed rt parseRepositoryTag t w' := by
  obtain ⟨image, words, status, himage, hwords, hrefused, hcontainer⟩ := h
  refine ⟨image, _, status, (Engine.image_congr himages).trans himage, hcontainer, rfl, .inl ?_⟩
  rw [created, hoptions]
  simp only [bind, Except.bind, hwords, hrefused]
  rfl

theorem deployed_createContainer : Triple (onEngine rt t) Free (fun _ _ => True) (createContainer rt t)
    fun _ w _ => Deployed rt parseRepositoryTag t w := by
  refine (free_any (setChanged true)).bind fun _ => (free_any (createContainerVolumes t)).bind fun _ => ?_
  have hcompute : Triple (onEngine rt t) Free (fun _ _ => True)
      (compute (buildContainerOptions rt t.params) : DockerWorker ContainerOptions)
      fun options _ _ => buildContainerOptions rt t.params = .ok options :=
    Triple.compute fun options _ _ h _ => h
  refine hcompute.bind fun options => ?_
  have hcreate : Triple (onEngine rt t) Free
      (fun _ _ => buildContainerOptions rt t.params = .ok options)
      (engine (DockerCall.createContainer options) : DockerWorker Unit)
      fun _ w _ => Deployed rt parseRepositoryTag t w := by
    refine Triple.ask (fun _ _ _ => trivial) fun w _ _ w' hoptions hev => ?_
    obtain ⟨himages, hstored⟩ := hev.2.2 _ rfl
    exact deployed_of_stored hoptions himages hstored
  refine hcreate.bind fun _ => Triple.ite (fun _ => ?_) fun _ => Triple.pure fun _ _ hw => hw
  refine (Systemd.file_createUnitFile t fun op _ => preserves_systemd restated_deployed op).bind
    fun written => ?_
  exact Triple.modify fun _ _ hw => hw

theorem deployed_createIfMissing (found : Option ContainerSummary) :
    Triple (onEngine rt t) Free (fun w _ => Compared rt parseRepositoryTag t found w)
      (createIfMissing rt t found) fun _ w _ => Deployed rt parseRepositoryTag t w := by
  cases found with
  | none =>
    have hcreate : Triple (onEngine rt t) Free (fun _ _ => True) (createContainer rt t)
        fun _ w _ => Deployed rt parseRepositoryTag t w := deployed_createContainer
    exact (hcreate.with_pre fun _ _ _ => trivial).bind fun _ => keeps_checkContainer t quiet_onEngine _
  | some summary => exact Triple.pure fun _ _ hw => hw

theorem deployed_run {m : DockerWorker Bool}
    (h : ∀ φ : Engine → Bool → Prop, (∀ {τ : Type} (op : SystemdCall τ),
      Preserves (onEngine rt t) Free φ (.systemd op)) → Triple (onEngine rt t) Free φ m fun _ => φ) :
    Triple (onEngine rt t) Free (fun w _ => Deployed rt parseRepositoryTag t w) m
      fun _ w _ => Deployed rt parseRepositoryTag t w :=
  h _ fun op => preserves_systemd restated_deployed op

/-- The engine starts or stops the container. -/
theorem deployed_engine {op : DockerCall Unit}
    (hop : ∀ w w' : Engine, engineReplies rt t w w' op () → w.Restated w') :
    Triple (onEngine rt t) Free (fun w _ => Deployed rt parseRepositoryTag t w)
      (engine op : DockerWorker Unit) fun _ w _ => Deployed rt parseRepositoryTag t w :=
  Triple.ask (fun _ _ _ => trivial) fun w _ _ w' hw hev => hw.restated (hop w w' (hev.2.2 _ rfl))

theorem deployed_raise : Triple (onEngine rt t) Free (fun w _ => Deployed rt parseRepositoryTag t w)
    (setChanged true : DockerWorker Unit) fun _ w _ => Deployed rt parseRepositoryTag t w :=
  raise_changed fun _ _ hw => hw

theorem deployed_startIfDown (found : Option ContainerSummary) :
    Triple (onEngine rt t) Free (fun w _ => Deployed rt parseRepositoryTag t w) (startIfDown t found)
      fun _ w _ => Deployed rt parseRepositoryTag t w := by
  cases found with
  | none => exact Triple.fail
  | some summary =>
    refine Triple.ite (fun _ => ?_) fun _ => Triple.pure fun _ _ hw => hw
    refine deployed_raise.bind fun _ => Triple.ite (fun _ => deployed_engine fun _ _ h => h) fun _ => ?_
    refine (deployed_run fun φ h => Systemd.file_createUnitFile t fun op _ => h op).bind fun _ => ?_
    refine (deployed_run fun φ h => Systemd.run_start t h).bind fun started => ?_
    refine Triple.ite (fun _ => ?_) fun _ => Triple.pure fun _ _ hw => hw
    exact (keeps_checkContainer t quiet_onEngine _).bind fun _ => Triple.fail

/-- After a deployment of a detached container it is there as requested. -/
theorem deployed_startContainer (hdetach : t.params.detach = true) :
    Triple (onEngine rt t) Free (fun _ _ => True) (startContainer rt parseRepositoryTag t)
      fun _ w _ => Deployed rt parseRepositoryTag t w := by
  refine (free_any (ensureImage t)).bind fun _ => engine_removeIfDiffers.bind fun found => ?_
  refine (deployed_createIfMissing found).bind fun found => ?_
  refine (deployed_startIfDown found).bind fun _ => ?_
  unfold waitForExit
  rw [hdetach]
  exact Triple.pure fun _ _ hw => hw

theorem deployed_restartContainer :
    Triple (onEngine rt t) Free (fun w _ => Deployed rt parseRepositoryTag t w) (restartContainer t)
      fun _ w _ => Deployed rt parseRepositoryTag t w := by
  refine (keeps_getContainerInfo t quiet_onEngine _).bind fun info => ?_
  cases info with
  | none => exact Triple.fail
  | some info =>
    refine deployed_raise.bind fun _ => Triple.ite (fun _ => ?_) fun _ => ?_
    · refine (deployed_run fun φ h => Systemd.file_createUnitFile t fun op _ => h op).bind fun _ => ?_
      refine (deployed_run fun φ h => Systemd.run_restart t h).bind fun running => ?_
      refine Triple.ite (fun _ => ?_) fun _ => Triple.pure fun _ _ hw => hw
      exact keeps_timedOut t quiet_onEngine _
    · have hstop : Triple (onEngine rt t) Free (fun w _ => Deployed rt parseRepositoryTag t w)
          (engine (DockerCall.stop t.params.name t.stopTimeout) : DockerWorker Unit)
          fun _ w _ => Deployed rt parseRepositoryTag t w := deployed_engine fun _ _ h => h
      exact hstop.bind fun _ => deployed_engine fun _ _ h => h

/-- A container that is not to be created anew is as requested. -/
theorem deployed_mustRecreate :
    Triple (onEngine rt t) Free (fun w _ => w.container.isSome = true)
      (mustRecreate rt parseRepositoryTag t)
      fun must w _ => must = false → Deployed rt parseRepositoryTag t w := by
  refine Triple.ite (fun _ => Triple.pure fun _ _ _ h => by cases h) fun _ => ?_
  refine engine_checkDiffers.with_post fun must w _ hw hmust => ?_
  obtain ⟨info, hinfo⟩ := Option.isSome_iff_exists.mp hw.1
  exact deployed_of_same hinfo (hmust ▸ hw.2 info hinfo)

/-- So it is after the handler. -/
theorem deployed_recreate (hdetach : t.params.detach = true) :
    Triple (onEngine rt t) Free (fun _ _ => True) (recreateOrRestartContainer rt parseRepositoryTag t)
      fun _ w _ => Deployed rt parseRepositoryTag t w := by
  have hstart : Triple (onEngine rt t) Free (fun _ _ => True) (startContainer rt parseRepositoryTag t)
      fun _ w _ => Deployed rt parseRepositoryTag t w := deployed_startContainer hdetach
  refine (free_any (setChanged true)).bind fun _ => engine_checkContainer.bind fun found => ?_
  cases found with
  | none => exact hstart.with_pre fun _ _ _ => trivial
  | some summary =>
    refine (deployed_mustRecreate.with_pre fun w _ hw => hw.2.symm).bind fun must => ?_
    refine Triple.ite (fun _ => ?_) fun hmust => ?_
    · refine (free_any (ensureImage t)).bind fun _ => (free_any (stopContainer t)).bind fun _ => ?_
      exact (free_any (removeContainer t)).bind fun _ => hstart
    · rw [Bool.not_eq_true] at hmust
      refine Triple.ite (fun _ => ?_) fun _ => Triple.pure fun _ _ hw => hw hmust
      exact deployed_restartContainer.with_pre fun _ _ hw => hw hmust

end Deployed

/-! ## What a second deployment finds -/

/-- The call changes nothing. -/
def Silent (_ : Engine) {τ : Type} (op : WorkerCall DockerCall τ) : Prop := op.changes = false

/-- Stopped wherever it may be, the run has made no call that changes anything and has left everything
as it was; as long as its calls are answered it returns `a`, with the flag down. -/
structure Idle (env : Env (WorkerCall DockerCall) WorkerExit Engine) (w : Engine) {α : Type}
    (m : DockerWorker α) (a : α) : Prop where
  silent : ∀ tr p w', Steps (m.run false) tr p → Drives env w tr w' →
    w' = w ∧ ∀ ev ∈ tr, ev.op.changes = false
  returns : ∀ tr r w', Runs env w (m.run false) tr r w' → (∀ ev ∈ tr, ∃ a, ev.answer = .ok a) →
    r = .ok (a, false)

section Idle

variable {rt : PyRuntime} {parseRepositoryTag : Text → Text × Option Text} {t : Task} {w w' : Engine}
  {α : Type} {info : ContainerInfo} {image : Image}

theorem Asks.idle {m : DockerWorker α} {a : α} (h : Asks (onEngine rt t) Silent w false m a) :
    Idle (onEngine rt t) w m a where
  silent tr p w' hsteps hd := by
    refine ⟨?_, fun ev hev => (wp_calls hsteps hd (Prog.sure_wp h) ev hev).elim fun _ hop => hop⟩
    exact wp_invariant (I := fun u => u = w) (fun u ev u' hu hop hev => (hev.2.1 hop).trans hu) hsteps hd
      (Prog.sure_wp h) rfl
  returns tr r w' hruns hanswered := by
    obtain ⟨_, rfl, rfl, -⟩ := Prog.sure_finishes h hruns.1 hruns.2 hanswered
    rfl

/-- The engine is asked. -/
theorem asks_engine {τ β : Type} {op : DockerCall τ} {f : τ → DockerWorker β} {b : β}
    (hop : (WorkerCall.engine op).changes = false)
    (h : ∀ a, engineReplies rt t w w op a → Asks (onEngine rt t) Silent w false (f a) b) :
    Asks (onEngine rt t) Silent w false (engine op >>= f) b := by
  refine Asks.ask hop fun a w' hev => ?_
  obtain ⟨-, hsame, hreply⟩ := hev
  obtain rfl := hsame hop
  exact ⟨rfl, h a (hreply a rfl)⟩

/-- The container is listed. -/
theorem asks_checkContainer {β : Type} {f : Option ContainerSummary → DockerWorker β} {b : β}
    (hcontainer : w.container = some info)
    (h : ∀ summary, (info.status = "running".toList →
      "Up ".toList.isPrefixOf summary.status = true) →
        Asks (onEngine rt t) Silent w false (f (some summary)) b) :
    Asks (onEngine rt t) Silent w false (checkContainer t >>= f) b := by
  refine asks_engine rfl fun containers hreply => ?_
  obtain ⟨hlisted, hup⟩ := hreply
  rw [hcontainer] at hlisted
  obtain ⟨summary, hfind⟩ := Option.isSome_iff_exists.mp
    (List.find?_isSome.mpr (List.any_eq_true.mp hlisted))
  rw [hfind]
  exact h summary fun hrunning => hup summary (List.mem_of_find?_eq_some hfind)
    (List.find?_some hfind) info hcontainer hrunning

theorem asks_checkImage (himage : w.image t = some image) :
    Asks (onEngine rt t) Silent w false (checkImage t) (some image) := by
  cases hname : findImage t with
  | error e =>
    rw [Engine.image, hname] at himage
    cases himage
  | ok name =>
    rw [Engine.image, hname] at himage
    have hfound : w.images.find? (fun image => image.repoTags.contains name) = some image := himage
    rw [checkImage, hname]
    refine asks_engine rfl fun images hreply => ?_
    rw [hreply, hfound]
    exact Asks.pure _

theorem asks_anyOf {ms : List (DockerWorker Bool)} {cs : List (Except WorkerExit Bool)}
    (h : List.Forall₂ (fun m c => c = .ok false → Asks (onEngine rt t) Silent w false m false) ms cs)
    (hcs : ∀ c ∈ cs, c = .ok false) : Asks (onEngine rt t) Silent w false (anyOf ms) false := by
  induction h with
  | nil => exact Asks.pure false
  | cons hm _ ih =>
    obtain ⟨hc, hcs⟩ := List.forall_mem_cons.mp hcs
    exact (hm hc).bind (ih hcs)

/-- Each comparison finds what its counterpart says. -/
theorem asks_comparisons (himage : w.image t = some image) :
    List.Forall₂ (fun m c => c = .ok false → Asks (onEngine rt t) Silent w false m false)
      (comparisons compute (checkImage t) parseRepositoryTag rt t.params info)
      (comparisons id (.ok (some image)) parseRepositoryTag rt t.params info) := by
  have hlift : ∀ x : Except WorkerExit Bool, x = .ok false →
      Asks (onEngine rt t) Silent w false (compute x : DockerWorker Bool) false :=
    fun x => Asks.compute
  have hlookup : ∀ f : Option Image → Except WorkerExit Bool, f (some image) = .ok false →
      Asks (onEngine rt t) Silent w false (do compute (f (← checkImage t)) : DockerWorker Bool) false :=
    fun f hf => (asks_checkImage himage).bind (Asks.compute hf)
  have himage := hlookup fun found => .ok (compareImage parseRepositoryTag t.params found info)
  have hlabels := hlookup fun found => compareLabels t.params found info
  exact .cons (hlift _) (.cons (hlift _) (.cons himage (.cons (hlift _) (.cons hlabels (.cons
    (hlift _) (.cons (hlift _) (.cons (hlift _) (.cons (hlift _) (.cons (hlift _) (.cons (hlift _) (.cons
    (hlift _) (.cons (hlift _) (.cons (hlift _) (.cons (hlift _) (.cons (hlift _) .nil)))))))))))))))

theorem asks_checkDiffers (hcontainer : w.container = some info) (himage : w.image t = some image)
    (h : differs rt parseRepositoryTag image t.params info = .ok false) :
    Asks (onEngine rt t) Silent w false (checkDiffers rt parseRepositoryTag t) false := by
  have hinfo : Asks (onEngine rt t) Silent w false (getContainerInfo t) (some info) := by
    refine asks_checkContainer hcontainer fun summary _ => asks_engine rfl fun info' hreply => ?_
    obtain rfl := Option.some.inj (hcontainer.symm.trans hreply)
    exact Asks.pure _
  exact hinfo.bind (asks_anyOf (asks_comparisons himage) (differs_eq_false.mp h))

/-! ### The check of the configuration and of the unit file -/

theorem asks_compareConfig (h : w.checked = some 0) :
    Asks (onEngine rt t) Silent w false (compareConfig t) false := by
  have hchecked : w.checked.isSome = true := congrArg Option.isSome h
  refine asks_engine rfl fun job hjob => ?_
  obtain ⟨job, rfl⟩ := Option.isSome_iff_exists.mp (Eq.trans hjob hchecked)
  refine asks_engine rfl fun output houtput => ?_
  obtain ⟨output, rfl⟩ := Option.isSome_iff_exists.mp (Eq.trans houtput hchecked)
  refine asks_engine rfl fun exitCode hexit => ?_
  obtain rfl := Eq.trans hexit h
  exact Asks.pure false

theorem asks_systemd {τ β : Type} {op : SystemdCall τ} {f : τ → DockerWorker β} {b : β}
    (hop : op.changes = false)
    (h : ∀ a, systemdReplies w.node op a w.node → Asks (onEngine rt t) Silent w false (f a) b) :
    Asks (onEngine rt t) Silent w false (systemd op >>= f) b := by
  refine Asks.ask hop fun a w' hev => ?_
  obtain ⟨hnode, hsame, -⟩ := hev
  obtain rfl := hsame hop
  exact ⟨rfl, h a hnode.2⟩

theorem asks_checkUnitChange (h : w.node.Current t) : Asks (onEngine rt t) Silent w false
    (Systemd.checkUnitChange t (Systemd.generateUnitFile t) : DockerWorker Bool) false := by
  refine asks_systemd rfl fun present hpresent => ?_
  have hthere : present = true := by
    rw [show present = (w.node.files (Systemd.unitPath t)).isSome from hpresent, h.file]
    rfl
  subst hthere
  refine asks_systemd rfl fun content hcontent => ?_
  obtain rfl := Option.some.inj (h.file.symm.trans hcontent)
  have hsame : decide (Systemd.generateUnitFile t ≠ Systemd.generateUnitFile t) = false :=
    decide_eq_false fun hne => hne rfl
  rw [hsame]
  exact Asks.pure false

/-! ### The actions -/

/-- A running container that does not differ from the parameters. -/
def Same (rt : PyRuntime) (parseRepositoryTag : Text → Text × Option Text) (t : Task) (w : Engine) :
    Prop :=
  ∃ image info, w.image t = some image ∧ w.container = some info ∧
    info.status = ContainerState.running.text ∧
    differs rt parseRepositoryTag image t.params info = .ok false

theorem Same.start_idle (h : Same rt parseRepositoryTag t w) (hdetach : t.params.detach = true) :
    Asks (onEngine rt t) Silent w false (startContainer rt parseRepositoryTag t) () := by
  obtain ⟨image, info, himage, hcontainer, hrunning, hdiffers⟩ := h
  have hensure : Asks (onEngine rt t) Silent w false (ensureImage t) () :=
    (asks_checkImage himage).bind (Asks.pure ())
  have hdown : ∀ summary, "Up ".toList.isPrefixOf (ContainerSummary.status summary) = true →
      Asks (onEngine rt t) Silent w false (startIfDown t (some summary)) () := by
    intro summary hup
    unfold startIfDown
    dsimp only
    rw [hup]
    exact Asks.pure ()
  have hwait : Asks (onEngine rt t) Silent w false (waitForExit t) () := by
    unfold waitForExit
    rw [hdetach]
    exact Asks.pure ()
  unfold startContainer startWithImage removeIfDiffers
  refine hensure.bind (Asks.assoc (asks_checkContainer hcontainer fun summary hup => ?_))
  refine Asks.assoc ((asks_checkDiffers hcontainer himage hdiffers).bind ?_)
  have hrest : Asks (onEngine rt t) Silent w false
      (do startIfDown t (some summary); waitForExit t : DockerWorker Unit) () :=
    Asks.bind (hdown summary (hup hrunning)) hwait
  exact Asks.bind (Asks.pure (some summary)) (Asks.bind (Asks.pure (some summary)) hrest)

theorem Same.compare_idle (h : Same rt parseRepositoryTag t w) (hcurrent : w.node.Current t)
    (hchecked : w.checked = some 0) :
    Asks (onEngine rt t) Silent w false (compareContainer rt parseRepositoryTag t) false := by
  obtain ⟨image, info, himage, hcontainer, -, hdiffers⟩ := h
  have hthere : Asks (onEngine rt t) Silent w false
      (do return (← checkContainer t).isNone : DockerWorker Bool) false :=
    asks_checkContainer hcontainer fun summary _ => Asks.pure false
  have hstale : Asks (onEngine rt t) Silent w false (anyOf [
      do return (← checkContainer t).isNone,
      checkDiffers rt parseRepositoryTag t,
      compareConfig t,
      Systemd.checkUnitChange t (Systemd.generateUnitFile t)] : DockerWorker Bool) false :=
    hthere.bind ((asks_checkDiffers hcontainer himage hdiffers).bind
      ((asks_compareConfig hchecked).bind ((asks_checkUnitChange hcurrent).bind (Asks.pure false))))
  exact hstale.bind ⟨rfl, rfl⟩

theorem withStatus_self : info.withStatus info.status = info := rfl

/-- Where the container is reported as running, what is deployed is what is compared. -/
theorem Deployed.same (h : Deployed rt parseRepositoryTag t w) (hstate : t.params.state = .running)
    (hup : ∀ info, w.container = some info → info.status = ContainerState.running.text)
    (hstable : ∀ image, w.image t = some image → Stable image t.params) :
    Same rt parseRepositoryTag t w := by
  obtain ⟨image, info, status, himage, hcontainer, hrequested, hsame⟩ := h
  have hstatus : status = info.status := (hup _ hcontainer).trans (hstate ▸ hrequested).symm
  rw [hstatus, withStatus_self] at hcontainer
  refine ⟨image, info, himage, hcontainer, hup info hcontainer, ?_⟩
  rcases hsame with hcreated | hdiffers
  · exact (differs_same_iff (creation_of_created hcreated)).mpr (hstable image himage)
  · exact hdiffers

/-- Later on: nothing has happened to the container but that its status may be another. -/
structure Engine.Later (w w' : Engine) : Prop where
  restated : w.Restated w'
  node : w'.node = w.node

theorem drives_node {tr : List (Event (WorkerCall DockerCall) WorkerExit)}
    (h : Drives (onEngine rt t) w tr w') : Drives nodeEnv w.node tr w'.node := by
  induction h with
  | nil => exact .nil
  | cons hev _ ih => exact .cons hev.1 ih

def cronInfo : ContainerInfo := inspected .ascii cronImage .running cronOptions cronImage.cmd

def cronEngine (node : Node) (status : Option Text) : Engine where
  node := node
  images := [cronImage]
  container := status.map cronInfo.withStatus
  checked := some 0

theorem cronEngine_image (node : Node) (status : Option Text) :
    (cronEngine node status).image copyOnceTask = some cronImage := rfl

theorem cronInfo_created : created .ascii cronImage copyOnceTask.params = .ok cronInfo := rfl

theorem cronImage_stable : Stable cronImage copyOnceTask.params := by
  have hsame : differs .ascii (fun s => (s, none)) cronImage copyOnceTask.params cronInfo = .ok false := by
    decide
  exact (differs_same_iff (creation_of_created cronInfo_created)).mp hsame

theorem onEngine_ok {τ : Type} {op : WorkerCall DockerCall τ} {a : τ}
    (hnode : nodeEnv w.node ⟨op, .ok a⟩ w'.node) (hsame : op.changes = false → w' = w)
    (hreply : workerReplies rt t w w' op a) : onEngine rt t w ⟨op, .ok a⟩ w' := by
  refine ⟨hnode, hsame, fun b hb => ?_⟩
  cases hb
  exact hreply

theorem onEngine_same {τ : Type} {op : WorkerCall DockerCall τ} {a : τ}
    (hnode : nodeEnv w.node ⟨op, .ok a⟩ w.node) (hreply : workerReplies rt t w w op a) :
    onEngine rt t w ⟨op, .ok a⟩ w := onEngine_ok hnode (fun _ => rfl) hreply

/-- The first start, on an engine that stores what it creates. -/
theorem firstStart_drives : Drives (onEngine .ascii copyOnceTask) (cronEngine (cronNode false none) none)
    firstStart (cronEngine (cronNode true (some cronUnit)) (some "running".toList)) := by
  have hrestated : ∀ node node' status status', (cronEngine node (some status)).Restated
      (cronEngine node' (some status')) := fun _ _ _ status' => ⟨rfl, status', rfl⟩
  have hcreate : onEngine .ascii copyOnceTask (cronEngine (cronNode false none) none)
      ⟨.engine (.createContainer cronOptions), .ok ()⟩
      (cronEngine (cronNode true none) (some "created".toList)) :=
    onEngine_ok node_creates (fun h => by cases h) ⟨rfl, cronImage, _, _, rfl, rfl, rfl, rfl⟩
  have hwrite : onEngine .ascii copyOnceTask (cronEngine (cronNode true none) (some "created".toList))
      ⟨.systemd (.writeFile cronPath cronUnit), .ok ()⟩
      (cronEngine (cronNode true (some cronUnit)) (some "created".toList)) :=
    onEngine_ok node_writes (fun h => by cases h) (hrestated _ _ _ _)
  have hperform : nodeEnv (cronNode true (some cronUnit))
      ⟨.systemd (.perform .startUnit (Systemd.serviceName copyOnceTask)), .ok true⟩
      (cronNode true (some cronUnit)) := ⟨rfl, trivial⟩
  have hstart : onEngine .ascii copyOnceTask
      (cronEngine (cronNode true (some cronUnit)) (some "created".toList))
      ⟨.systemd (.perform .startUnit (Systemd.serviceName copyOnceTask)), .ok true⟩
      (cronEngine (cronNode true (some cronUnit)) (some "running".toList)) :=
    onEngine_ok hperform (fun h => by cases h) (hrestated _ _ _ _)
  have hlists : engineReplies .ascii copyOnceTask
      (cronEngine (cronNode true (some cronUnit)) (some "created".toList))
      (cronEngine (cronNode true (some cronUnit)) (some "created".toList))
      DockerCall.containers [cronCreated] := by
    refine ⟨rfl, fun c hc hnamed info hinfo hrunning => ?_⟩
    cases hinfo
    cases hrunning
  refine .cons (onEngine_same ⟨⟨rfl, fun _ _ => rfl⟩, trivial⟩ rfl) ?_
  refine .cons (onEngine_same node_lists_none ⟨rfl, fun c hc => by cases hc⟩) (.cons hcreate ?_)
  refine .cons (onEngine_same (node_isFile true none) (hrestated _ _ _ _)) (.cons hwrite ?_)
  refine .cons (onEngine_same ⟨rfl, trivial⟩ (hrestated _ _ _ _)) ?_
  refine .cons (onEngine_same ⟨rfl, trivial⟩ (hrestated _ _ _ _)) ?_
  refine .cons (onEngine_same node_lists_cron hlists) ?_
  refine .cons (onEngine_same (node_isFile true (some cronUnit)) (hrestated _ _ _ _)) ?_
  refine .cons (onEngine_same ⟨rfl, cronNode_file _ _⟩ (hrestated _ _ _ _)) (.cons hstart ?_)
  exact .cons (onEngine_same ⟨rfl, trivial⟩ (hrestated _ _ _ _)) .nil

def cronRunning : Engine := cronEngine (cronNode true (some cronUnit)) (some "running".toList)

theorem cronRunning_later : cronRunning.Later cronRunning := ⟨⟨rfl, _, rfl⟩, rfl⟩

theorem cronRunning_up (info : ContainerInfo) (h : cronRunning.container = some info) :
    info.status = ContainerState.running.text := by
  cases h
  rfl

theorem cronRunning_stable (image : Image) (h : cronRunning.image copyOnceTask = some image) :
    Stable image copyOnceTask.params := by
  obtain rfl := Option.some.inj ((cronEngine_image _ _).symm.trans h)
  exact cronImage_stable

end Idle

end Docker
end Container
end KollaPowerOps
