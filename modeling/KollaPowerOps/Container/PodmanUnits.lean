import KollaPowerOps.Container.PodmanHost
import KollaPowerOps.Container.UnitFiles

/-!
# Container.PodmanUnits

The Podman worker on a node: its calls are allowed, and what a recreation leaves behind.

* `disciplined`      : every action makes allowed calls.
* `current_recreate` : a recreation or a restart brings the unit file up to date, also of a container
  that runs only once.
-/

namespace KollaPowerOps
namespace Container

open Effect

namespace Podman

/-! ## The engine on a node -/

def deed {τ : Type} : PodmanCall τ → Deed
  | .createContainer args => .creates args.name
  | .removeContainer c => .removes c.name
  | .start c => .runs c.name
  | .stop c _ => .runs c.name
  | _ => .nothing

theorem deed_of_untouched {τ : Type} (op : PodmanCall τ)
    (h : EngineCalls.touchesContainer op = false) : deed op = .nothing := by
  cases op <;> first | rfl | cases h

instance : Deeds PodmanCall where
  deed := deed
  deed_of_untouched := deed_of_untouched

def nodeReplies : NodeReplies PodmanCall
  | w, _, .containers, containers, _ =>
    ∀ name, (∃ c ∈ containers, name = c.name) ↔ w.containers name = true
  | _, _, .reload c, c', _ => c'.name = c.name
  | _, _, .createContainer args, created, w' => created = true → w'.containers args.name = true
  | _, _, .removeContainer c, done, w' => done = true → w'.containers c.name = false
  | _, _, _, _, _ => True

theorem prepareContainerArgs_name {rt : PyRuntime} {t : Task} {args : ContainerArgs}
    (h : prepareContainerArgs rt t = .ok args) : args.name = t.params.name := by
  simp only [prepareContainerArgs, bind, Except.bind, pure, Except.pure] at h
  repeat' split at h
  all_goals cases h
  all_goals rfl

abbrev nodeEnv : Env (WorkerCall PodmanCall) WorkerExit Node := onNode nodeReplies

/-! ## Methods -/

section Methods

variable (rt : PyRuntime) (t : Task) {ψ : Node → Prop} {ψ' : Node → Bool → Prop}

theorem node_findContainer (cs : List PodmanContainer) :
    Triple nodeEnv (Allowed t) (fun w _ => ψ w) (findContainer t cs) fun found w _ => ψ w ∧
      (found.isSome = true ↔ ∃ c ∈ cs, t.params.name = c.name) ∧
        ∀ c, found = some c → c.name = t.params.name := by
  induction cs with
  | nil => exact Triple.pure fun w _ hw => ⟨hw, by simp, fun c hc => by cases hc⟩
  | cons c cs ih =>
    have hreload : Triple nodeEnv (Allowed t) (fun w _ => ψ w) (engine (PodmanCall.reload c) : PodmanWorker _)
        fun c' w _ => c'.name = c.name ∧ ψ w := by
      refine Triple.ask (fun _ _ _ => trivial) fun w _ c' w' hw hev => ?_
      obtain rfl := unchanged_onNode rfl hev
      exact ⟨hev.2, hw⟩
    refine hreload.bind fun c' => Triple.of_fact fun hc' => ?_
    refine Triple.ite (fun hname => Triple.pure fun w _ hw => ?_) fun hname => ?_
    · refine ⟨hw, by simp [hname, hc'], fun found hfound => ?_⟩
      cases hfound
      exact hname.symm
    · refine ih.with_post fun found w _ hw => ⟨hw.1, ?_, hw.2.2⟩
      have hc : t.params.name ≠ c.name := hc' ▸ hname
      simp [hw.2.1, hc]

/-- The listing says whether the container is there, and what is found has its name. -/
theorem node_checkContainer : Triple nodeEnv (Allowed t) (fun w _ => ψ w) (checkContainer t)
    fun found w _ => (∀ c, found = some c → c.name = t.params.name) ∧
      ψ w ∧ found.isSome = w.containers t.params.name := by
  have hask : Triple nodeEnv (Allowed t) (fun w _ => ψ w) (engine PodmanCall.containers : PodmanWorker _)
      fun cs w _ => ψ w ∧ ((∃ c ∈ cs, t.params.name = c.name) ↔
        w.containers t.params.name = true) := by
    refine Triple.ask (fun _ _ _ => trivial) fun w _ cs w' hw hev => ?_
    obtain rfl := unchanged_onNode rfl hev
    exact ⟨hw, hev.2 t.params.name⟩
  refine hask.bind fun cs => (node_findContainer t cs).with_post fun found w _ hw => ?_
  exact ⟨hw.2.2, hw.1.1, Bool.eq_iff_iff.mpr (hw.2.1.trans hw.1.2)⟩

/-- A container that has been looked up stands, and has the name. -/
theorem node_foundContainer (found : Option PodmanContainer) :
    Triple nodeEnv (Allowed t) (fun w _ => (∀ c, found = some c → c.name = t.params.name) ∧
      ψ w ∧ found.isSome = w.containers t.params.name) (foundContainer found)
      fun c w _ => c.name = t.params.name ∧ ψ w ∧ w.Stands t := by
  cases found with
  | none => exact Triple.fail
  | some c => exact Triple.pure fun w _ hw => ⟨hw.1 c rfl, hw.2.1, hw.2.2.symm⟩

theorem leaves_createVolume (name : Text) : Leaves nodeEnv t (createVolume t name) := by
  refine (leaves_of_keeps (keeps_checkVolume t quiet_onNode _)).bind fun present => ?_
  refine Leaves.ite (fun _ => (leaves_setChanged true).bind fun _ => ?_) fun _ => Leaves.pure _
  exact leaves_of_keeps (keeps_engine (.inl rfl))

theorem leaves_createVolumesOf (volumes : List Text) :
    Leaves nodeEnv t (createVolumesOf t volumes) := by
  induction volumes with
  | nil => exact Leaves.pure _
  | cons volume volumes ih =>
    have hone : Leaves nodeEnv t (createContainerVolume t volume) :=
      Leaves.ite (fun _ => Leaves.pure _) fun _ => leaves_createVolume t _
    exact hone.bind fun _ => ih

theorem leaves_pullImage : Leaves nodeEnv t (pullImage t) := by
  refine (leaves_of_keeps (Keeps.compute _)).bind fun args => ?_
  refine (leaves_of_keeps (keeps_checkImage t quiet_onNode)).bind fun oldImage => ?_
  refine (leaves_of_keeps (keeps_engine (.inl rfl))).bind fun answer => ?_
  split
  · exact Leaves.fail _
  · exact Leaves.fail _
  · exact leaves_setChanged _

theorem leaves_ensureImage : Leaves nodeEnv t (ensureImage t) :=
  (leaves_of_keeps (keeps_checkImage t quiet_onNode)).bind fun _ =>
    Leaves.ite (fun _ => leaves_pullImage t) fun _ => Leaves.pure _

/-- The unit file is written before the container is stopped. -/
theorem node_stopContainer (hcurrent : ∀ w : Node, w.Current t → ψ w) :
    Triple nodeEnv (Allowed t) (fun w _ => ψ w) (stopContainer t) fun _ w _ => ψ w := by
  refine (node_checkContainer t).bind fun found => ?_
  cases found with
  | none => exact Triple.ite (fun _ => Triple.pure fun _ _ hw => hw.2.1) fun _ => Triple.fail
  | some c =>
    refine Triple.of_fact fun hname => ?_
    refine Triple.ite (fun _ => ?_) fun _ => Triple.pure fun _ _ hw => hw.1
    refine (leaves_setChanged true _).bind fun _ => Triple.ite (fun _ => ?_) fun _ => ?_
    · refine (Systemd.current_createUnitFile.with_pre fun w _ hw => hw.2.symm).bind fun _ => ?_
      refine (Systemd.keeps_stop _).bind fun _ => ?_
      exact Triple.pure fun w _ hw => hcurrent w hw
    · refine (keeps_engine (.inr ?_) _).with_post fun _ _ _ hw => hw.1
      exact congrArg Deed.runs (hname c rfl)

/-- After a removal neither the container nor its unit file is there. -/
theorem node_removeContainer : Triple nodeEnv (Allowed t) ψ' (removeContainer t)
    fun _ w _ => w.Gone t := by
  have hfree : Triple nodeEnv (Allowed t) (fun w _ => True)
      (Systemd.removeUnitFile t : PodmanWorker Bool)
      fun _ w _ => True ∧ w.files (Systemd.unitPath t) = none :=
    Systemd.gone_removeUnitFile (φ := fun _ => True)
  refine (hfree.with_pre fun _ _ _ => trivial).bind fun removed => ?_
  refine (leaves_orChanged removed _).bind fun _ => (node_checkContainer t).bind fun found => ?_
  cases found with
  | none => exact Triple.pure fun w _ hw => ⟨hw.2.2.symm, hw.2.1.2⟩
  | some c =>
    refine Triple.of_fact fun hname => ?_
    have hc : c.name = t.params.name := hname c rfl
    have hremove : Triple nodeEnv (Allowed t) (fun w _ =>
        (True ∧ w.files (Systemd.unitPath t) = none) ∧
          (some c).isSome = w.containers t.params.name)
        (engine (PodmanCall.removeContainer c) : PodmanWorker _) fun done w _ =>
          w.files (Systemd.unitPath t) = none ∧
            (done = true → w.containers t.params.name = false) := by
      refine Triple.ask (fun w _ hw => ⟨hc, hw.1.2⟩) fun w _ done w' hw hev => ?_
      obtain ⟨⟨hfiles, -⟩, hreply⟩ := hev
      exact ⟨(congrFun hfiles _).trans hw.1.2, hc ▸ hreply⟩
    refine hremove.bind fun done => Triple.ite (fun _ => ?_) fun hdone => ?_
    · refine (node_checkContainer t).bind fun found => ?_
      refine Triple.ite (fun _ => Triple.fail) fun habsent => Triple.pure fun w _ hw => ⟨?_, hw.2.1.1⟩
      rw [← hw.2.2]
      exact Bool.eq_false_iff.mpr habsent
    · refine Triple.pure fun w _ hw => ⟨hw.2 ?_, hw.1⟩
      simpa using hdone

theorem node_createContainer : Triple nodeEnv (Allowed t) (fun w _ => w.Gone t) (createContainer rt t)
    fun _ w _ => w.Current t := by
  refine (leaves_createVolumesOf t _ _).bind fun _ => ?_
  have hcompute : Triple nodeEnv (Allowed t) (fun w _ => w.Gone t)
      (compute (prepareContainerArgs rt t) : PodmanWorker ContainerArgs)
      fun args w _ => args.name = t.params.name ∧ w.Gone t :=
    Triple.compute fun args w _ hargs hw => ⟨prepareContainerArgs_name hargs, hw⟩
  refine hcompute.bind fun args => ?_
  have hcreate : Triple nodeEnv (Allowed t) (fun w _ => args.name = t.params.name ∧ w.Gone t)
      (engine (PodmanCall.createContainer args) : PodmanWorker Bool)
      fun created w _ => created = true → w.Stands t := by
    refine Triple.ask (fun w _ hw => hw) fun w _ created w' hw hev => ?_
    have hreply : created = true → w'.containers args.name = true := hev.2
    rwa [hw.1] at hreply
  refine hcreate.bind fun created => Triple.ite (fun hcreated => ?_) fun _ => Triple.fail
  refine (Systemd.current_createUnitFile.with_pre fun w _ hw => hw hcreated).bind fun written => ?_
  exact leaves_orChanged written _

theorem node_restartContainer : Triple nodeEnv (Allowed t) ψ' (restartContainer t)
    fun _ w _ => w.Current t := by
  refine Triple.bind ((node_checkContainer t).with_pre fun _ _ _ => trivial) fun found => ?_
  cases found with
  | none => exact Triple.fail
  | some c =>
    refine (leaves_setChanged true _).bind fun _ => ?_
    refine Triple.bind (Systemd.current_createUnitFile.with_pre fun w _ hw => hw.2.2.symm) fun _ => ?_
    refine (Systemd.keeps_restart _).bind fun running => ?_
    exact Triple.ite (fun _ => Triple.fail) fun _ => Triple.pure fun _ _ hw => hw

/-! ## The start of a container -/

theorem node_removeIfDiffers : Triple nodeEnv (Allowed t) (fun w _ => w.Anchor t)
    (removeIfDiffers rt t) fun found w _ =>
      w.Anchor t ∧ found.isSome = w.containers t.params.name := by
  refine (node_checkContainer t).bind fun found => ?_
  cases found with
  | none => exact Triple.pure fun w _ hw => hw.2
  | some c =>
    refine (keeps_checkDiffers rt t quiet_onNode _).bind fun differs => ?_
    refine Triple.ite (fun _ => ?_) fun _ => Triple.pure fun w _ hw => hw.2
    refine Triple.bind ((node_stopContainer t fun w hw => hw.stands.anchor).with_pre fun w _ hw =>
      hw.2.1) fun _ => ?_
    refine (node_removeContainer t).bind fun _ => ?_
    exact (node_checkContainer t).with_post fun found w _ hw => ⟨hw.2.1.anchor, hw.2.2⟩

theorem gone_removeIfDiffers : Triple nodeEnv (Allowed t) (fun w _ => w.Gone t)
    (removeIfDiffers rt t) fun found w _ => found = none ∧ w.Gone t := by
  refine (node_checkContainer t).bind fun found => ?_
  cases found with
  | none => exact Triple.pure fun w _ hw => ⟨rfl, hw.2.1⟩
  | some c =>
    refine Triple.of_false fun w _ hw => ?_
    obtain ⟨-, hgone, hfound⟩ := hw
    rw [hgone.container] at hfound
    cases hfound

theorem current_createIfMissing : Triple nodeEnv (Allowed t) (fun w _ => w.Gone t)
    (createIfMissing rt t none) fun _ w _ => w.Current t :=
  (node_createContainer rt t).bind fun _ => keeps_checkContainer t quiet_onNode _

theorem stands_createIfMissing (found : Option PodmanContainer) :
    Triple nodeEnv (Allowed t) (fun w _ => w.Anchor t ∧ found.isSome = w.containers t.params.name)
      (createIfMissing rt t found) fun _ w _ => w.Stands t := by
  cases found with
  | none =>
    refine ((current_createIfMissing rt t).with_pre fun w _ hw => ?_).with_post fun _ _ _ hw =>
      hw.stands
    exact hw.1.gone hw.2.symm
  | some c => exact Triple.pure fun w _ hw => hw.2.symm

/-- A container that stands is started, and a unit file that is up to date stays so. -/
theorem node_startIfDown (hstands : ∀ w, ψ w → w.Stands t)
    (hcurrent : ∀ w : Node, w.Current t → ψ w) (c : PodmanContainer) :
    Triple nodeEnv (Allowed t) (fun w _ => ψ w) (startIfDown t c) fun _ w _ => ψ w := by
  refine Triple.ite (fun _ => ?_) fun _ => Triple.pure fun _ _ hw => hw
  refine (leaves_setChanged true _).bind fun _ => Triple.ite (fun _ => ?_) fun _ => ?_
  · refine (node_checkContainer t).bind fun found => (node_foundContainer t found).bind fun c => ?_
    refine Triple.of_fact fun hname => ?_
    exact (keeps_engine (.inr (congrArg Deed.runs hname)) _).with_post fun _ _ _ hw => hw.1
  · refine (Systemd.current_createUnitFile.with_pre fun w _ hw => hstands w hw).bind fun _ => ?_
    refine (Systemd.keeps_start _).bind fun running => Triple.with_post ?_
      fun _ w _ (hw : w.Current t) => hcurrent w hw
    refine Triple.ite (fun _ => ?_) fun _ => Triple.pure fun _ _ hw => hw
    exact (keeps_checkContainer t quiet_onNode _).bind fun _ => Triple.fail

theorem anchor_waitForExit : Triple nodeEnv (Allowed t) (fun w _ => w.Anchor t) (waitForExit t)
    fun _ w _ => w.Anchor t := by
  refine Triple.ite (fun _ => ?_) fun _ => Triple.pure fun _ _ hw => hw
  refine (keeps_checkContainer t quiet_onNode _).bind fun found => ?_
  refine (keeps_foundContainer found _).bind fun c => ?_
  refine (keeps_ask quiet_onNode (.wait c) rfl _).bind fun rc => ?_
  refine (keeps_ask quiet_onNode (.logs c _) rfl _).bind fun _ => ?_
  refine (keeps_ask quiet_onNode (.logs c _) rfl _).bind fun _ => ?_
  have hexited : Triple nodeEnv (Allowed t) (fun w _ => w.Anchor t) (removeExited t)
      fun _ w _ => w.Anchor t := by
    refine Triple.ite (fun _ => ?_) fun _ => Triple.pure fun _ _ hw => hw
    refine (node_stopContainer t fun w hw => hw.stands.anchor).bind fun _ => ?_
    exact (node_removeContainer t).with_post fun _ _ _ hw => hw.anchor
  exact hexited.bind fun _ => Triple.ite (fun _ => Triple.fail) fun _ => Triple.pure fun _ _ hw => hw

theorem anchor_startContainer : Triple nodeEnv (Allowed t) (fun w _ => w.Anchor t)
    (startContainer rt t) fun _ w _ => w.Anchor t := by
  refine (leaves_ensureImage t _).bind fun _ => (node_removeIfDiffers rt t).bind fun found => ?_
  refine (stands_createIfMissing rt t found).bind fun found => ?_
  refine (keeps_foundContainer found _).bind fun c => ?_
  refine (node_startIfDown t (fun _ hw => hw) (fun _ hw => hw.stands) c).bind fun _ => ?_
  exact (anchor_waitForExit t).with_pre fun _ _ hw => hw.anchor

/-- Where there is no container, one is started with its unit file. -/
theorem current_startContainer (hdetach : t.params.detach = true) :
    Triple nodeEnv (Allowed t) (fun w _ => w.Gone t) (startContainer rt t)
      fun _ w _ => w.Current t := by
  refine (leaves_ensureImage t _).bind fun _ => (gone_removeIfDiffers rt t).bind fun found => ?_
  refine Triple.of_fact fun hnone => ?_
  subst hnone
  refine (current_createIfMissing rt t).bind fun found => ?_
  refine (keeps_foundContainer found _).bind fun c => ?_
  refine (node_startIfDown t (fun _ hw => hw.stands) (fun _ hw => hw) c).bind fun _ => ?_
  refine Triple.ite (fun hwait => ?_) fun _ => Triple.pure fun _ _ hw => hw
  rw [hdetach] at hwait
  cases hwait

/-! ## Recreation -/

theorem node_mustRecreate : Triple nodeEnv (Allowed t) (fun w _ => ψ w) (mustRecreate rt t)
    fun must w _ => ψ w ∧
      (must = false → (configStrategy t).any (Value.isStr "COPY_ONCE") = false) := by
  refine Triple.ite (fun _ => Triple.pure fun _ _ hw => ⟨hw, nofun⟩) fun honce => ?_
  refine (keeps_checkDiffers rt t quiet_onNode _).with_post fun _ _ _ hw => ?_
  exact ⟨hw, fun _ => Bool.eq_false_iff.mpr honce⟩

/-- A container is started from where it is gone, restarted, or left as it is. -/
theorem node_recreateOrRestart
    (hstart : Triple nodeEnv (Allowed t) (fun w _ => w.Gone t) (startContainer rt t)
      fun _ w _ => ψ w)
    (hrestart : ∀ w : Node, w.Current t → ψ w)
    (hleft : (configStrategy t).any (Value.isStr "COPY_ONCE") = false →
      (configStrategy t).any (Value.isStr "COPY_ALWAYS") = false → ∀ w : Node, w.Anchor t → ψ w) :
    Triple nodeEnv (Allowed t) (fun w _ => w.Anchor t) (recreateOrRestartContainer rt t)
      fun _ w _ => ψ w := by
  have hinfo : Triple nodeEnv (Allowed t) (fun w _ => w.Anchor t) (getContainerInfo t)
      fun info w _ => w.Anchor t ∧ info.isSome = w.containers t.params.name := by
    refine (node_checkContainer t).bind fun found => Triple.pure fun w _ hw => ⟨hw.2.1, ?_⟩
    rw [← hw.2.2, Option.isSome_map]
  refine hinfo.bind fun info => ?_
  cases info with
  | none => exact hstart.with_pre fun w _ hw => hw.1.gone hw.2.symm
  | some c =>
    refine Triple.bind (node_mustRecreate rt t) fun must => ?_
    refine Triple.ite (fun _ => ?_) fun hmust => Triple.ite (fun _ => ?_) fun halways => ?_
    · refine (leaves_ensureImage t _).bind fun _ => ?_
      refine Triple.bind ((node_stopContainer t fun w hw => hw.stands.anchor).with_pre fun w _ hw =>
        hw.1.1) fun _ => ?_
      exact (node_removeContainer t).bind fun _ => hstart
    · exact (node_restartContainer t).with_post fun _ w _ hw => hrestart w hw
    · refine Triple.pure fun w _ hw => ?_
      exact hleft (hw.2 (Bool.eq_false_iff.mpr hmust)) (Bool.eq_false_iff.mpr halways) w hw.1.1

/-- A detached container whose configuration is copied stands with its unit file up to date. -/
theorem current_recreate (hdetach : t.params.detach = true)
    (hcopied : (configStrategy t).any (Value.isStr "COPY_ONCE") = true ∨
      (configStrategy t).any (Value.isStr "COPY_ALWAYS") = true) :
    Triple nodeEnv (Allowed t) (fun w _ => w.Anchor t) (recreateOrRestartContainer rt t)
      fun _ w _ => w.Current t := by
  refine node_recreateOrRestart rt t (current_startContainer rt t hdetach) (fun w hw => hw) ?_
  intro honce halways
  rw [honce, halways] at hcopied
  rcases hcopied with h | h <;> cases h

/-! ## The actions -/

theorem leaves_compareContainer : Leaves nodeEnv t (compareContainer rt t) := by
  have hstale : Keeps nodeEnv (Allowed t) (anyOf [
      do return (← checkContainer t).isNone,
      checkDiffers rt t,
      compareConfig t,
      Systemd.checkUnitChange t (Systemd.generateUnitFile t)] : PodmanWorker Bool) := by
    refine keeps_anyOf fun m hm => ?_
    simp only [List.mem_cons, List.not_mem_nil, or_false] at hm
    rcases hm with rfl | rfl | rfl | rfl
    · exact (keeps_checkContainer t quiet_onNode).bind fun _ => Keeps.pure _
    · exact keeps_checkDiffers rt t quiet_onNode
    · exact keeps_compareConfig t quiet_onNode
    · exact Systemd.keeps_checkUnitChange t (fun op => quiet_onNode (.systemd op)) _
  refine (leaves_of_keeps hstale).bind fun stale => ?_
  have hset : Leaves nodeEnv t (setChangedIf stale : PodmanWorker Unit) :=
    Leaves.ite (fun _ => leaves_setChanged true) fun _ => Leaves.pure _
  exact hset.bind fun _ _ => Triple.get fun _ _ hw => hw

theorem leaves_compareImageAction : Leaves nodeEnv t (compareImageAction t) := by
  refine (leaves_of_keeps (keeps_getContainerInfo t quiet_onNode)).bind fun info => ?_
  cases info with
  | none => exact Leaves.pure _
  | some info =>
    exact (leaves_of_keeps (keeps_checkImageAttrs t quiet_onNode)).bind fun _ => Leaves.pure _

theorem leaves_removeImage : Leaves nodeEnv t (removeImage t) := by
  refine (leaves_of_keeps (keeps_checkImage t quiet_onNode)).bind fun image => ?_
  refine Leaves.ite (fun _ => ?_) fun _ => Leaves.pure _
  refine (leaves_of_keeps (keeps_engine (.inl rfl))).bind fun answer => ?_
  split
  · refine (leaves_setChanged true).bind fun _ => ?_
    refine (leaves_of_keeps (keeps_engine (.inl rfl))).bind fun removal => ?_
    cases removal with
    | removed => exact Leaves.pure _
    | conflict | failed => exact Leaves.fail _
  · exact Leaves.fail _

theorem leaves_removeVolume : Leaves nodeEnv t (removeVolume t) := by
  refine (leaves_of_keeps (keeps_checkVolume t quiet_onNode [])).bind fun present => ?_
  refine Leaves.ite (fun _ => (leaves_setChanged true).bind fun _ => ?_) fun _ => Leaves.pure _
  refine (leaves_of_keeps (keeps_engine (.inl rfl))).bind fun removal => ?_
  cases removal with
  | removed => exact Leaves.pure _
  | conflict | failed => exact Leaves.fail _

theorem anchor_stopContainer : Triple nodeEnv (Allowed t) (fun w _ => w.Anchor t) (stopContainer t)
    fun _ w _ => w.Anchor t := node_stopContainer t fun _ hw => hw.stands.anchor

theorem node_stopAndRemoveContainer : Triple nodeEnv (Allowed t) (fun w _ => w.Anchor t)
    (stopAndRemoveContainer t) fun _ w _ => w.Anchor t := by
  refine (keeps_checkContainer t quiet_onNode _).bind fun found => ?_
  refine Triple.ite (fun _ => ?_) fun _ => Triple.pure fun _ _ hw => hw
  refine (anchor_stopContainer t).bind fun _ => ?_
  exact (node_removeContainer t).with_post fun _ _ _ hw => hw.anchor

theorem disciplined : Disciplined nodeEnv (act rt) := by
  intro t action
  cases action with
  | compareContainer => exact leaves_compareContainer rt t _
  | compareImage => exact leaves_compareImageAction t _
  | createVolume => exact (leaves_createVolume t [] _).then_return false
  | ensureImage => exact (leaves_ensureImage t _).then_return false
  | pullImage => exact (leaves_pullImage t _).then_return false
  | recreateOrRestartContainer =>
    refine Triple.then_return (node_recreateOrRestart rt t ?_ ?_ ?_) false
    · exact (anchor_startContainer rt t).with_pre fun _ _ hw => hw.anchor
    · exact fun w hw => hw.stands.anchor
    · exact fun _ _ w hw => hw
  | removeContainer =>
    exact ((node_removeContainer t).with_post fun _ _ _ hw => hw.anchor).then_return false
  | removeImage => exact (leaves_removeImage t _).then_return false
  | removeVolume => exact (leaves_removeVolume t _).then_return false
  | restartContainer =>
    exact ((node_restartContainer t).with_post fun _ _ _ hw => hw.stands.anchor).then_return false
  | startContainer => exact (anchor_startContainer rt t).then_return false
  | stopContainer => exact (anchor_stopContainer t).then_return false
  | stopAndRemoveContainer => exact (node_stopAndRemoveContainer t).then_return false

end Methods

end Podman

end Container
end KollaPowerOps
