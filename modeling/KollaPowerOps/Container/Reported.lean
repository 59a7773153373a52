import KollaPowerOps.Container.DockerReported
import KollaPowerOps.Container.PodmanReported

/-!
# Container.Reported

`changed` at the end of a run.

* `reports_noticed`  : a run of either worker that ends normally and has an alteration which the
  worker takes note of ends with the flag set.
* `removal_untold`   : the Podman worker removes a container and tells nothing.
-/

namespace KollaPowerOps
namespace Container

open Effect

/-- **The flag is set at the end of every run** that ends normally and has an alteration which is
noticed: with Docker, any but the pull of an image under a name that the engine lists for several
images, or not for this one; with Podman, any but the removal of the container. -/
theorem reports_noticed (rt : PyRuntime) (parseRepositoryTag : Text → Text × Option Text)
    (docker : Docker.Naming) (podman : Podman.Naming) (t : Task) (action : Action) :
    Reports (onHost (Docker.replies docker t)) (Docker.Noticed docker t)
        (Docker.act rt parseRepositoryTag t action) ∧
      Reports (onHost (Podman.replies podman t)) Podman.Noticed (Podman.act rt t action) :=
  ⟨reports_of_triple (Docker.told_act action), reports_of_triple (Podman.told_act action)⟩

def cronTask : Task where
  params := { name := "cron".toList, image := "quay.io/openstack.kolla/cron:1".toList }
  restartRetries_ne := restartRetries_default

def cronInfo : ContainerInfo where
  hostConfig := {
    capAdd := none
    securityOpt := none
    ipcMode := none
    pidMode := none
    cgroupnsMode := none
    cgroupMode := none
    privileged := false
    tmpfs := none
    binds := none
    volumesFrom := none
    resources := { scalar := fun _ => none, ulimits := none } }
  config := {
    image := "quay.io/openstack.kolla/cron:1".toList
    labels := .empty
    env := []
    volumes := none
    healthcheck := none }
  image := "sha256:0".toList
  path := []
  args := []
  status := "exited".toList

def exited : PodmanContainer := { name := "cron".toList, status := "exited".toList, attrs := cronInfo }

/-- There is no unit file, and the flag stays down. -/
def removalTrace : List (Event (WorkerCall PodmanCall) WorkerExit) := [
  ⟨.systemd (.isFile (Systemd.unitPath cronTask)), .ok false⟩,
  ⟨.engine .containers, .ok [exited]⟩,
  ⟨.engine (.reload exited), .ok exited⟩,
  ⟨.engine (.removeContainer exited), .ok true⟩]

/-- A host with the container, or after its removal. -/
def cronHost (container : Option Instance) : Host where
  images := []
  nodup := List.nodup_nil
  container := container

def cronNaming : Podman.Naming where
  finds name image := name ∈ image.repoTags
  listedAs args := args.repository ++ ':' :: args.tag

theorem removal_runs (rt : PyRuntime) :
    Finishes ((Podman.act rt cronTask .removeContainer).run false) removalTrace
      (.ok (false, false)) :=
  .ret (.ret (.ret (.ret .nil)))

theorem removal_happens : Happens (onHost (Podman.replies cronNaming cronTask)) Podman.Alters
    (cronHost (some ⟨cronInfo, true⟩)) removalTrace (cronHost none) := by
  have hstays : ∀ touched images, Host.Frame touched images (cronHost (some ⟨cronInfo, true⟩))
      (cronHost (some ⟨cronInfo, true⟩)) := fun _ _ => ⟨fun _ => rfl, fun _ => rfl⟩
  have hremoved : onHost (Podman.replies cronNaming cronTask) (cronHost (some ⟨cronInfo, true⟩))
      ⟨.engine (.removeContainer exited), .ok true⟩ (cronHost none) :=
    ⟨⟨nofun, fun _ => rfl⟩, fun _ => rfl⟩
  refine .later ⟨hstays _ _, rfl⟩ (.later ⟨hstays _ _, ?_⟩ (.later ⟨hstays _ _, ?_⟩ ?_))
  · exact ⟨fun _ => rfl, fun _ => ⟨exited, List.mem_singleton_self _, rfl⟩⟩
  · refine ⟨rfl, fun _ => ?_⟩
    rintro ⟨c, hc, hstarted⟩
    cases hc
    cases hstarted
  · exact .here hremoved rfl .nil

/-- The container is removed, and nothing is told. -/
theorem removal_untold : ¬ ∀ (rt : PyRuntime) (parseRepositoryTag : Text → Text × Option Text)
    (docker : Docker.Naming) (podman : Podman.Naming) (t : Task) (action : Action),
    Reports (onHost (Docker.replies docker t)) Docker.Alters
        (Docker.act rt parseRepositoryTag t action) ∧
      Reports (onHost (Podman.replies podman t)) Podman.Alters (Podman.act rt t action) := by
  intro h
  have hreports := (h .ascii (fun s => (s, none)) ⟨fun _ _ => false, fun r s => r ++ ':' :: s⟩
    cronNaming cronTask .removeContainer).2
  have hchanged := hreports _ _ _ _ _ ⟨removal_runs .ascii, removal_happens.drives⟩ removal_happens
  cases hchanged

end Container
end KollaPowerOps
