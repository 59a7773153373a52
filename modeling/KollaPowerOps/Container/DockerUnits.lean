import KollaPowerOps.Container.DockerHost
import KollaPowerOps.Container.UnitFiles

/-!
# Container.DockerUnits

The Docker worker on a node: its calls are allowed, and what a recreation leaves behind.

* `nodeReplies`         : what the engine answers on a node.
* `disciplined`         : every action makes allowed calls.
* `current_recreate`    : a recreation or a restart brings the unit file up to date.
-/

namespace KollaPowerOps
namespace Container

open Effect

namespace Docker

/-! ## The engine on a node -/

def deed {τ : Type} : DockerCall τ → Deed
  | .createContainer options => .creates options.name
  | .removeContainer name => .removes name
  | .start name => .runs name
  | .stop name _ => .runs name
  | _ => .nothing

theorem deed_of_untouched {τ : Type} (op : DockerCall τ)
    (h : EngineCalls.touchesContainer op = false) : deed op = .nothing := by
  cases op <;> first | rfl | cases h

instance : Deeds DockerCall where
  deed := deed
  deed_of_untouched := deed_of_untouched

def nodeReplies : NodeReplies DockerCall
  | w, _, .containers, containers, _ =>
    ∀ name, (containers.any fun c => c.names.contains ('/' :: name)) = w.containers name
  | _, _, .createContainer options, _, w' => w'.containers options.name = true
  | _, _, .removeContainer name, done, w' => done = true → w'.containers name = false
  | _, _, _, _, _ => True

theorem buildContainerOptions_name {rt : PyRuntime} {p : Params} {options : ContainerOptions}
    (h : buildContainerOptions rt p = .ok options) : options.name = p.name := by
  simp only [buildContainerOptions, bind, Except.bind, pure, Except.pure] at h
  repeat' split at h
  all_goals cases h
  rfl

abbrev nodeEnv : Env (WorkerCall DockerCall) WorkerExit Node := onNode nodeReplies

/-! ## Methods -/

section Methods

variable (rt : PyRuntime) (parseRepositoryTag : Text → Text × Option Text) (t : Task)
  {ψ : Node → Prop} {ψ' : Node → Bool → Prop}

/-- The listing says whether the container is there. -/
theorem node_checkContainer : Triple nodeEnv (Allowed t) (fun w _ => ψ w) (checkContainer t)
    fun found w _ => ψ w ∧ found.isSome = w.containers t.params.name := by
  have hask : Triple nodeEnv (Allowed t) (fun w _ => ψ w)
      (engine DockerCall.containers : DockerWorker _)
      fun containers w _ => ψ w ∧ containers.any (isNamed t) = w.containers t.params.name := by
    refine Triple.ask (fun _ _ _ => trivial) fun w c containers w' hw hev => ?_
    obtain rfl := unchanged_onNode rfl hev
    exact ⟨hw, hev.2 t.params.name⟩
  refine hask.bind fun containers => Triple.pure fun w _ hw => ⟨hw.1, ?_⟩
  rw [← hw.2, Bool.eq_iff_iff, List.find?_isSome, List.any_eq_true]

theorem node_getContainerInfo : Triple nodeEnv (Allowed t) (fun w _ => ψ w) (getContainerInfo t)
    fun info w _ => ψ w ∧ info.isSome = w.containers t.params.name := by
  refine (node_checkContainer t).bind fun found => ?_
  cases found with
  | none => exact Triple.pure fun _ _ hw => hw
  | some c =>
    refine (keeps_ask quiet_onNode (.inspectContainer _) rfl _).bind fun info => ?_
    exact Triple.pure fun _ _ hw => hw

theorem leaves_stopContainer : Leaves nodeEnv t (stopContainer t) := by
  refine (leaves_of_keeps (keeps_checkContainer t quiet_onNode)).bind fun found => ?_
  cases found with
  | none => exact Leaves.ite (fun _ => Leaves.pure _) fun _ => Leaves.fail _
  | some c =>
    refine Leaves.ite (fun _ => (leaves_setChanged true).bind fun _ => ?_) fun _ => Leaves.pure _
    refine leaves_of_keeps ?_
    refine (Systemd.keeps_checkUnitFile t fun op => quiet_onNode (.systemd op)).bind fun present => ?_
    refine Keeps.ite (fun _ => ?_) fun _ => keeps_engine (.inr rfl)
    exact Systemd.keeps_stop.bind fun _ => Keeps.pure _

/-- After a removal neither the container nor its unit file is there. -/
theorem node_removeContainer : Triple nodeEnv (Allowed t) ψ' (removeContainer t)
    fun _ w _ => w.Gone t := by
  have hfree : Triple nodeEnv (Allowed t) (fun w _ => True)
      (Systemd.removeUnitFile t : DockerWorker Bool)
      fun _ w _ => True ∧ w.files (Systemd.unitPath t) = none :=
    Systemd.gone_removeUnitFile (φ := fun _ => True)
  refine (hfree.with_pre fun _ _ _ => trivial).bind fun removed => ?_
  refine (leaves_orChanged removed _).bind fun _ => (node_checkContainer t).bind fun found => ?_
  refine Triple.ite (fun _ => ?_) fun habsent => Triple.pure fun w _ hw => ⟨?_, hw.1.2⟩
  · refine (leaves_setChanged true _).bind fun _ => ?_
    have hremove : Triple nodeEnv (Allowed t) (fun w _ =>
        (True ∧ w.files (Systemd.unitPath t) = none) ∧ found.isSome = w.containers t.params.name)
        (engine (DockerCall.removeContainer t.params.name) : DockerWorker Bool)
        fun done w _ => w.files (Systemd.unitPath t) = none ∧
          (done = true → w.containers t.params.name = false) := by
      refine Triple.ask (fun w _ hw => ⟨rfl, hw.1.2⟩) fun w c done w' hw hev => ?_
      obtain ⟨⟨hfiles, -⟩, hreply⟩ := hev
      exact ⟨(congrFun hfiles _).trans hw.1.2, hreply⟩
    refine hremove.bind fun done => Triple.ite (fun hdone => ?_) fun _ => ?_
    · have hclean : Triple nodeEnv (Allowed t) (fun w _ => w.containers t.params.name = false)
          (Systemd.removeUnitFile t : DockerWorker Bool) fun _ w _ =>
            w.containers t.params.name = false ∧ w.files (Systemd.unitPath t) = none :=
        Systemd.gone_removeUnitFile (φ := fun present => present = false)
      refine (hclean.with_pre fun w _ hw => hw.2 hdone).bind fun _ => ?_
      exact Triple.pure fun w _ hw => ⟨hw.1, hw.2⟩
    · refine (node_checkContainer t).bind fun found => Triple.ite (fun _ => Triple.fail) fun habsent => ?_
      refine Triple.pure fun w _ hw => ⟨?_, hw.1.1⟩
      rw [← hw.2]
      exact Bool.eq_false_iff.mpr habsent
  · rw [← hw.2]
    exact Bool.eq_false_iff.mpr habsent

theorem leaves_createVolume (name : Text) : Leaves nodeEnv t (createVolume t name) := by
  refine (leaves_of_keeps (keeps_checkVolume t quiet_onNode)).bind fun present => ?_
  refine Leaves.ite (fun _ => (leaves_setChanged true).bind fun _ => ?_) fun _ => Leaves.pure _
  exact leaves_of_keeps (keeps_engine (.inl rfl))

theorem leaves_createVolumesOf (volumes : List Text) :
    Leaves nodeEnv t (createVolumesOf t volumes) := by
  induction volumes with
  | nil => exact Leaves.pure _
  | cons volume volumes ih =>
    have hone : Leaves nodeEnv t (createContainerVolume t volume) :=
      Leaves.ite (fun _ => Leaves.pure _) fun _ => leaves_createVolume t _
    exact hone.bind fun _ => ih

theorem leaves_pullImage : Leaves nodeEnv t (pullImage t) := by
  refine (leaves_of_keeps (keeps_loginIfAsked t quiet_onNode)).bind fun _ => ?_
  refine (leaves_of_keeps (Keeps.compute _)).bind fun parsed => ?_
  refine (leaves_of_keeps (keeps_getImageId t quiet_onNode)).bind fun oldImageId => ?_
  refine (leaves_of_keeps (keeps_engine (.inl rfl))).bind fun statuses => ?_
  split
  · exact Leaves.fail _
  · refine (leaves_of_keeps (keeps_getImageId t quiet_onNode)).bind fun newImageId => ?_
    exact leaves_setChanged _

theorem leaves_ensureImage : Leaves nodeEnv t (ensureImage t) :=
  (leaves_of_keeps (keeps_checkImage t quiet_onNode)).bind fun _ =>
    Leaves.ite (fun _ => leaves_pullImage t) fun _ => Leaves.pure _

/-- What a creation leaves: the container, with its unit file unless it runs only once. -/
def Created (w : Node) : Prop := w.Stands t ∧ (t.isOneshot = false → w.Current t)

theorem node_createContainer : Triple nodeEnv (Allowed t) (fun w _ => w.Gone t) (createContainer rt t)
    fun _ w _ => Created t w := by
  refine (leaves_setChanged true _).bind fun _ => (leaves_createVolumesOf t _ _).bind fun _ => ?_
  have hcompute : Triple nodeEnv (Allowed t) (fun w _ => w.Gone t)
      (compute (buildContainerOptions rt t.params) : DockerWorker ContainerOptions)
      fun options w _ => options.name = t.params.name ∧ w.Gone t :=
    Triple.compute fun options w _ hoptions hw => ⟨buildContainerOptions_name hoptions, hw⟩
  refine hcompute.bind fun options => ?_
  have hcreate : Triple nodeEnv (Allowed t) (fun w _ => options.name = t.params.name ∧ w.Gone t)
      (engine (DockerCall.createContainer options) : DockerWorker Unit) fun _ w _ => w.Stands t := by
    refine Triple.ask (fun w _ hw => hw) fun w c _ w' hw hev => ?_
    have hreply : w'.containers options.name = true := hev.2
    rwa [hw.1] at hreply
  refine hcreate.bind fun _ => Triple.ite (fun _ => ?_) fun honeshot => ?_
  · refine Systemd.current_createUnitFile.bind fun written => ?_
    exact (leaves_orChanged written _).with_post fun _ w _ hw => ⟨hw.stands, fun _ => hw⟩
  · refine Triple.pure fun w _ hw => ⟨hw, fun hrepeated => absurd ?_ honeshot⟩
    rw [hrepeated]
    rfl

theorem node_restartContainer : Triple nodeEnv (Allowed t) ψ' (restartContainer t)
    fun _ w _ => Created t w := by
  refine Triple.bind ((node_getContainerInfo t).with_pre fun _ _ _ => trivial) fun info => ?_
  cases info with
  | none => exact Triple.fail
  | some info =>
    refine (leaves_setChanged true _).bind fun _ => Triple.ite (fun _ => ?_) fun honeshot => ?_
    · refine Triple.bind (Systemd.current_createUnitFile.with_pre fun w _ hw => hw.2.symm) fun _ => ?_
      refine (Systemd.keeps_restart _).bind fun running => Triple.with_post ?_
        fun _ w _ (hw : w.Current t) => ⟨hw.stands, fun _ => hw⟩
      refine Triple.ite (fun _ => ?_) fun _ => Triple.pure fun _ _ hw => hw
      exact leaves_of_keeps (keeps_timedOut t quiet_onNode) _
    · refine (keeps_engine (.inr rfl) _).bind fun _ => (keeps_engine (.inr rfl) _).with_post ?_
      intro _ w _ hw
      refine ⟨hw.2.symm, fun hrepeated => absurd ?_ honeshot⟩
      rw [hrepeated]
      rfl

/-! ## The start of a container -/

/-- What the start knows of the container that it has found. -/
structure Found (found : Option ContainerSummary) (w : Node) : Prop where
  anchor : w.Anchor t
  found : found.isSome = w.containers t.params.name

theorem node_removeIfDiffers : Triple nodeEnv (Allowed t) (fun w _ => w.Anchor t)
    (removeIfDiffers rt parseRepositoryTag t) fun found w _ => Found t found w := by
  refine (node_checkContainer t).bind fun found => ?_
  cases found with
  | none => exact Triple.pure fun w _ hw => ⟨hw.1, hw.2⟩
  | some c =>
    refine (keeps_checkDiffers rt parseRepositoryTag t quiet_onNode _).bind fun differs => ?_
    refine Triple.ite (fun _ => ?_) fun _ => Triple.pure fun w _ hw => ⟨hw.1, hw.2⟩
    refine (leaves_stopContainer t _).bind fun _ => ?_
    refine ((node_removeContainer t).bind fun _ => ?_)
    exact (node_checkContainer t).with_post fun found w _ hw => ⟨hw.1.anchor, hw.2⟩

theorem gone_removeIfDiffers : Triple nodeEnv (Allowed t) (fun w _ => w.Gone t)
    (removeIfDiffers rt parseRepositoryTag t) fun found w _ => found = none ∧ w.Gone t := by
  refine (node_checkContainer t).bind fun found => ?_
  cases found with
  | none => exact Triple.pure fun w _ hw => ⟨rfl, hw.1⟩
  | some c =>
    refine Triple.of_false fun w _ hw => ?_
    obtain ⟨hgone, hfound⟩ := hw
    rw [hgone.container] at hfound
    cases hfound

theorem created_createIfMissing : Triple nodeEnv (Allowed t) (fun w _ => w.Gone t)
    (createIfMissing rt t none) fun _ w _ => Created t w :=
  (node_createContainer rt t).bind fun _ => keeps_checkContainer t quiet_onNode _

theorem stands_createIfMissing (found : Option ContainerSummary) :
    Triple nodeEnv (Allowed t) (fun w _ => Found t found w) (createIfMissing rt t found)
      fun _ w _ => w.Stands t := by
  cases found with
  | none =>
    refine ((created_createIfMissing rt t).with_pre fun w _ hw => ?_).with_post fun _ _ _ => And.left
    exact hw.anchor.gone hw.found.symm
  | some c => exact Triple.pure fun w _ hw => hw.found.symm

/-- A container that stands is started, and a unit file that is up to date stays so. -/
theorem node_startIfDown (hstands : ∀ w, ψ w → w.Stands t)
    (hcurrent : t.isOneshot = false → ∀ w : Node, w.Current t → ψ w)
    (found : Option ContainerSummary) : Triple nodeEnv (Allowed t) (fun w _ => ψ w)
      (startIfDown t found) fun _ w _ => ψ w := by
  cases found with
  | none => exact Triple.fail
  | some c =>
    refine Triple.ite (fun _ => ?_) fun _ => Triple.pure fun _ _ hw => hw
    refine (leaves_setChanged true _).bind fun _ => ?_
    refine Triple.ite (fun _ => keeps_engine (.inr rfl) _) fun honeshot => ?_
    refine (Systemd.current_createUnitFile.with_pre fun w _ hw => hstands w hw).bind fun _ => ?_
    refine (Systemd.keeps_start _).bind fun running => Triple.with_post ?_
      fun _ w _ (hw : w.Current t) => hcurrent (Bool.eq_false_iff.mpr honeshot) w hw
    refine Triple.ite (fun _ => ?_) fun _ => Triple.pure fun _ _ hw => hw
    exact leaves_of_keeps (keeps_timedOut t quiet_onNode) _

theorem anchor_waitForExit : Triple nodeEnv (Allowed t) (fun w _ => w.Anchor t) (waitForExit t)
    fun _ w _ => w.Anchor t := by
  refine Triple.ite (fun _ => ?_) fun _ => Triple.pure fun _ _ hw => hw
  refine (keeps_ask quiet_onNode (.wait _) rfl _).bind fun rc => ?_
  refine (keeps_ask quiet_onNode (.logs _ _) rfl _).bind fun _ => ?_
  refine (keeps_ask quiet_onNode (.logs _ _) rfl _).bind fun _ => ?_
  have hexited : Triple nodeEnv (Allowed t) (fun w _ => w.Anchor t) (removeExited t)
      fun _ w _ => w.Anchor t := by
    refine Triple.ite (fun _ => ?_) fun _ => Triple.pure fun _ _ hw => hw
    refine (leaves_stopContainer t _).bind fun _ => ?_
    exact (node_removeContainer t).with_post fun _ _ _ hw => hw.anchor
  exact hexited.bind fun _ => Triple.ite (fun _ => Triple.fail) fun _ => Triple.pure fun _ _ hw => hw

theorem anchor_startContainer : Triple nodeEnv (Allowed t) (fun w _ => w.Anchor t)
    (startContainer rt parseRepositoryTag t) fun _ w _ => w.Anchor t := by
  refine (leaves_ensureImage t _).bind fun _ => ?_
  refine (node_removeIfDiffers rt parseRepositoryTag t).bind fun found => ?_
  refine (stands_createIfMissing rt t found).bind fun found => ?_
  refine (node_startIfDown t (fun _ hw => hw) (fun _ _ hw => hw.stands) found).bind fun _ => ?_
  exact (anchor_waitForExit t).with_pre fun _ _ hw => hw.anchor

/-- Where there is no container, one is started with its unit file, unless it runs only once. -/
theorem created_startContainer (hdetach : t.params.detach = true) :
    Triple nodeEnv (Allowed t) (fun w _ => w.Gone t) (startContainer rt parseRepositoryTag t)
      fun _ w _ => Created t w := by
  refine (leaves_ensureImage t _).bind fun _ => ?_
  refine (gone_removeIfDiffers rt parseRepositoryTag t).bind fun found => ?_
  refine Triple.of_fact fun hnone => ?_
  subst hnone
  refine (created_createIfMissing rt t).bind fun found => ?_
  refine (node_startIfDown t (fun _ hw => hw.1) (fun _ _ hw => ⟨hw.stands, fun _ => hw⟩) found).bind
    fun _ => ?_
  refine Triple.ite (fun hwait => ?_) fun _ => Triple.pure fun _ _ hw => hw
  rw [hdetach] at hwait
  cases hwait

/-! ## Recreation -/

theorem node_mustRecreate : Triple nodeEnv (Allowed t) (fun w _ => ψ w)
    (mustRecreate rt parseRepositoryTag t) fun must w _ => ψ w ∧
      (must = false → (configStrategy t).any (Value.isStr "COPY_ONCE") = false) := by
  refine Triple.ite (fun _ => Triple.pure fun _ _ hw => ⟨hw, nofun⟩) fun honce => ?_
  refine (keeps_checkDiffers rt parseRepositoryTag t quiet_onNode _).with_post fun _ _ _ hw => ?_
  exact ⟨hw, fun _ => Bool.eq_false_iff.mpr honce⟩

/-- A container is started from where it is gone, restarted, or left as it is. -/
theorem node_recreateOrRestart
    (hstart : Triple nodeEnv (Allowed t) (fun w _ => w.Gone t) (startContainer rt parseRepositoryTag t)
      fun _ w _ => ψ w)
    (hrestart : ∀ w : Node, Created t w → ψ w)
    (hleft : (configStrategy t).any (Value.isStr "COPY_ONCE") = false →
      (configStrategy t).any (Value.isStr "COPY_ALWAYS") = false → ∀ w : Node, w.Anchor t → ψ w) :
    Triple nodeEnv (Allowed t) (fun w _ => w.Anchor t)
      (recreateOrRestartContainer rt parseRepositoryTag t) fun _ w _ => ψ w := by
  refine (leaves_setChanged true _).bind fun _ => (node_checkContainer t).bind fun found => ?_
  cases found with
  | none => exact hstart.with_pre fun w _ hw => hw.1.gone hw.2.symm
  | some c =>
    refine Triple.bind (node_mustRecreate rt parseRepositoryTag t) fun must => ?_
    refine Triple.ite (fun _ => ?_) fun hmust => Triple.ite (fun _ => ?_) fun halways => ?_
    · refine (leaves_ensureImage t _).bind fun _ => (leaves_stopContainer t _).bind fun _ => ?_
      refine (node_removeContainer t).bind fun _ => hstart
    · exact (node_restartContainer t).with_post fun _ w _ hw => hrestart w hw
    · refine Triple.pure fun w _ hw => ?_
      exact hleft (hw.2 (Bool.eq_false_iff.mpr hmust)) (Bool.eq_false_iff.mpr halways) w hw.1.1

/-- A detached container whose configuration is copied stands with its unit file up to date. -/
theorem current_recreate (hdetach : t.params.detach = true) (honeshot : t.isOneshot = false)
    (hcopied : (configStrategy t).any (Value.isStr "COPY_ONCE") = true ∨
      (configStrategy t).any (Value.isStr "COPY_ALWAYS") = true) :
    Triple nodeEnv (Allowed t) (fun w _ => w.Anchor t)
      (recreateOrRestartContainer rt parseRepositoryTag t) fun _ w _ => w.Current t := by
  refine node_recreateOrRestart rt parseRepositoryTag t ?_ (fun w hw => hw.2 honeshot) ?_
  · exact (created_startContainer rt parseRepositoryTag t hdetach).with_post fun _ w _ hw =>
      hw.2 honeshot
  · intro honce halways
    rw [honce, halways] at hcopied
    rcases hcopied with h | h <;> cases h

/-! ## The actions -/

theorem leaves_compareContainer : Leaves nodeEnv t (compareContainer rt parseRepositoryTag t) := by
  have hstale : Keeps nodeEnv (Allowed t) (anyOf [
      do return (← checkContainer t).isNone,
      checkDiffers rt parseRepositoryTag t,
      compareConfig t,
      Systemd.checkUnitChange t (Systemd.generateUnitFile t)] : DockerWorker Bool) := by
    refine keeps_anyOf fun m hm => ?_
    simp only [List.mem_cons, List.not_mem_nil, or_false] at hm
    rcases hm with rfl | rfl | rfl | rfl
    · exact (keeps_checkContainer t quiet_onNode).bind fun _ => Keeps.pure _
    · exact keeps_checkDiffers rt parseRepositoryTag t quiet_onNode
    · exact keeps_compareConfig t quiet_onNode
    · exact Systemd.keeps_checkUnitChange t (fun op => quiet_onNode (.systemd op)) _
  refine (leaves_of_keeps hstale).bind fun stale => ?_
  have hset : Leaves nodeEnv t (setChangedIf stale : DockerWorker Unit) :=
    Leaves.ite (fun _ => leaves_setChanged true) fun _ => Leaves.pure _
  exact hset.bind fun _ _ => Triple.get fun _ _ hw => hw

theorem leaves_compareImageAction :
    Leaves nodeEnv t (compareImageAction parseRepositoryTag t) := by
  refine (leaves_of_keeps (keeps_getContainerInfo t quiet_onNode)).bind fun info => ?_
  cases info with
  | none => exact Leaves.pure _
  | some info =>
    exact (leaves_of_keeps (keeps_checkImage t quiet_onNode)).bind fun _ => Leaves.pure _

theorem leaves_removeImage : Leaves nodeEnv t (removeImage t) := by
  refine (leaves_of_keeps (keeps_checkImage t quiet_onNode)).bind fun image => ?_
  refine Leaves.ite (fun _ => (leaves_setChanged true).bind fun _ => ?_) fun _ => Leaves.pure _
  refine (leaves_of_keeps (keeps_engine (.inl rfl))).bind fun removal => ?_
  cases removal with
  | removed => exact Leaves.pure _
  | conflict | serverError => exact Leaves.fail _

theorem leaves_removeVolume : Leaves nodeEnv t (removeVolume t) := by
  refine (leaves_of_keeps (keeps_checkVolume t quiet_onNode)).bind fun present => ?_
  refine Leaves.ite (fun _ => (leaves_setChanged true).bind fun _ => ?_) fun _ => Leaves.pure _
  refine (leaves_of_keeps (keeps_engine (.inl rfl))).bind fun removal => ?_
  cases removal with
  | removed => exact Leaves.pure _
  | conflict => exact Leaves.fail _

theorem node_stopAndRemoveContainer : Triple nodeEnv (Allowed t) (fun w _ => w.Anchor t)
    (stopAndRemoveContainer t) fun _ w _ => w.Anchor t := by
  refine (leaves_of_keeps (keeps_checkContainer t quiet_onNode) _).bind fun found => ?_
  refine Triple.ite (fun _ => ?_) fun _ => Triple.pure fun _ _ hw => hw
  refine (leaves_stopContainer t _).bind fun _ => ?_
  exact (node_removeContainer t).with_post fun _ _ _ hw => hw.anchor

theorem disciplined : Disciplined nodeEnv (act rt parseRepositoryTag) := by
  intro t action
  cases action with
  | compareContainer => exact leaves_compareContainer rt parseRepositoryTag t _
  | compareImage => exact leaves_compareImageAction parseRepositoryTag t _
  | createVolume => exact (leaves_createVolume t [] _).then_return false
  | ensureImage => exact (leaves_ensureImage t _).then_return false
  | pullImage => exact (leaves_pullImage t _).then_return false
  | recreateOrRestartContainer =>
    refine Triple.then_return (node_recreateOrRestart rt parseRepositoryTag t ?_ ?_ ?_) false
    · exact (anchor_startContainer rt parseRepositoryTag t).with_pre fun _ _ hw => hw.anchor
    · exact fun w hw => hw.1.anchor
    · exact fun _ _ w hw => hw
  | removeContainer =>
    exact ((node_removeContainer t).with_post fun _ _ _ hw => hw.anchor).then_return false
  | removeImage => exact (leaves_removeImage t _).then_return false
  | removeVolume => exact (leaves_removeVolume t _).then_return false
  | restartContainer =>
    exact ((node_restartContainer t).with_post fun _ _ _ hw => hw.1.anchor).then_return false
  | startContainer => exact (anchor_startContainer rt parseRepositoryTag t).then_return false
  | stopContainer => exact (leaves_stopContainer t _).then_return false
  | stopAndRemoveContainer => exact (node_stopAndRemoveContainer t).then_return false

end Methods

end Docker

end Container
end KollaPowerOps
