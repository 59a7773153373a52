import Mathlib.Data.Finset.Basic
import Mathlib.Data.Finset.Lattice.Lemmas
import KollaPowerOps.Lib.Runs
import KollaPowerOps.Container.DockerWorker
import KollaPowerOps.Container.PodmanWorker

/-!
# Container.VolumeCreation

`create_container_volumes` of both workers, on an engine with volumes.

* `namedVolume`     : the volume that an entry of the list names.
* `CreatesExactly`  : the missing named volumes are created, once, and the flag tells.
* `creations`       : what is created if a name is looked up under a key.
* `creates_exactly_iff` : the lists and engines for which the workers do so.
-/

namespace KollaPowerOps
namespace Container

open Effect

/-! ## What the entries ask for -/

/-- The source of an entry that has one, where it is neither a path nor special. -/
def namedVolume (volume : Text) : Option Text :=
  let src := volume.takeWhile (· ≠ ':')
  if ':' ∈ volume ∧ src ≠ [] ∧ '/' ∉ src ∧ src ≠ "devpts".toList then some src else none

def namedVolumes (volumes : List Text) : List Text := volumes.filterMap namedVolume

/-- The name that `create_volume` takes for an entry. -/
def requestedName (name volume : Text) : Option Text :=
  let src := volume.takeWhile (· ≠ ':')
  if '/' ∈ src then none else some (if src = [] then name else src)

def requestedNames (name : Text) (volumes : List Text) : List Text :=
  volumes.filterMap (requestedName name)

theorem requestedNames_cons (name volume : Text) (volumes : List Text) :
    requestedNames name (volume :: volumes) =
      (requestedName name volume).toList ++ requestedNames name volumes := by
  rw [requestedNames, List.filterMap_cons]
  cases requestedName name volume <;> rfl

theorem requestedName_of_named {name volume src : Text} (h : namedVolume volume = some src) :
    requestedName name volume = some src := by
  rw [namedVolume] at h
  split at h
  · rename_i hnamed
    obtain ⟨_, hne, hpath, _⟩ := hnamed
    rw [requestedName, if_neg hpath, if_neg hne]
    exact h
  · cases h

theorem namedVolumes_subset (name : Text) (volumes : List Text) :
    namedVolumes volumes ⊆ requestedNames name volumes := by
  intro src hsrc
  obtain ⟨volume, hvolume, hnamed⟩ := List.mem_filterMap.mp hsrc
  exact List.mem_filterMap.mpr ⟨volume, hvolume, requestedName_of_named hnamed⟩

/-! ## Creating what a lookup misses -/

section Creations

/-- The names that are created, in their order, where each is looked up under its key. -/
def creations (key : Text → Text) : Finset Text → List Text → List Text
  | _, [] => []
  | w, name :: names =>
    if key name ∈ w then creations key w names else name :: creations key (insert name w) names

theorem creations_congr {key key' : Text → Text} {names : List Text}
    (h : ∀ name ∈ names, key name = key' name) (w : Finset Text) :
    creations key w names = creations key' w names := by
  induction names generalizing w with
  | nil => rfl
  | cons first names ih =>
    obtain ⟨hfirst, hrest⟩ := List.forall_mem_cons.mp h
    rw [creations, creations, hfirst, ih hrest, ih hrest]

/-- Looked up under their own names, exactly the missing ones are created. -/
theorem mem_creations_id {w : Finset Text} {names : List Text} {name : Text} :
    name ∈ creations id w names ↔ name ∈ names ∧ name ∉ w := by
  induction names generalizing w with
  | nil => simp [creations]
  | cons first names ih =>
    rw [creations, List.mem_cons, id_eq]
    split
    · rename_i hfirst
      rw [ih, or_and_right, or_iff_right]
      rintro ⟨rfl, hname⟩
      exact hname hfirst
    · rename_i hfirst
      rw [List.mem_cons, ih, Finset.mem_insert, not_or]
      by_cases hname : name = first
      · subst hname
        simp [hfirst]
      · simp [hname]

theorem nodup_creations_id {w : Finset Text} {names : List Text} :
    (creations id w names).Nodup := by
  induction names generalizing w with
  | nil => exact List.nodup_nil
  | cons first names ih =>
    rw [creations]
    split
    · exact ih
    · refine List.nodup_cons.mpr ⟨fun hmem => ?_, ih⟩
      exact (mem_creations_id.mp hmem).2 (Finset.mem_insert_self _ _)

/-- The names up to the first that is the given one. -/
def upTo (name : Text) : List Text → List Text
  | [] => []
  | first :: names => if first = name then [first] else first :: upTo name names

theorem creations_const_of_mem {name : Text} {w : Finset Text} (h : name ∈ w) (names : List Text) :
    creations (fun _ => name) w names = [] := by
  induction names with
  | nil => rfl
  | cons first names ih => rw [creations, if_pos h, ih]

/-- Looked up under one name, all are created until it is there. -/
theorem creations_const {name : Text} {w : Finset Text} (h : name ∉ w) (names : List Text) :
    creations (fun _ => name) w names = upTo name names := by
  induction names generalizing w with
  | nil => rfl
  | cons first names ih =>
    rw [creations, if_neg h, upTo]
    split
    · rename_i hfirst
      rw [creations_const_of_mem (by rw [hfirst]; exact Finset.mem_insert_self _ _)]
    · rename_i hfirst
      rw [ih]
      rw [Finset.mem_insert, not_or]
      exact ⟨fun heq => hfirst heq.symm, h⟩

end Creations

/-! ## The loop -/

class VolumeCalls (E : Type → Type) where
  /-- the volume that a call creates -/
  creates : {τ : Type} → E τ → Option Text

section Loop

variable {E : Type → Type} [VolumeCalls E]

def createdBy (ev : Event (WorkerCall E) WorkerExit) : Option Text :=
  match ev.op with
  | .engine op => VolumeCalls.creates op
  | .systemd _ => none

/-- The volumes that a run creates, one for each call. -/
def createdVolumes (tr : List (Event (WorkerCall E) WorkerExit)) : List Text :=
  tr.filterMap createdBy

theorem createdVolumes_append (tr tr' : List (Event (WorkerCall E) WorkerExit)) :
    createdVolumes (tr ++ tr') = createdVolumes tr ++ createdVolumes tr' := List.filterMap_append

variable (look : Text → Worker E Bool) (create : Text → E Unit)

def createMissing (name : Text) : Worker E Unit := do
  if !(← look name) then
    setChanged true
    engine (create name)

def createEach : List Text → Worker E Unit
  | [] => pure ()
  | name :: names => do
    createMissing look create name
    createEach names

/-- The lookup finds a volume by its key, and the call adds one. -/
structure Creating (env : Env (WorkerCall E) WorkerExit (Finset Text)) (key : Text → Text) :
    Prop where
  found : ∀ {name w c tr b c' w'}, Runs env w ((look name).run c) tr (.ok (b, c')) w' →
    createdVolumes tr = [] ∧ b = decide (key name ∈ w) ∧ c' = c ∧ w' = w
  looks : ∀ name w c, ∃ tr, Runs env w ((look name).run c) tr (.ok (decide (key name ∈ w), c)) w
  adds : ∀ {name w w'}, env w ⟨.engine (create name), .ok ()⟩ w' ↔ w' = insert name w
  creates : ∀ name, VolumeCalls.creates (create name) = some name

variable {look create} {env : Env (WorkerCall E) WorkerExit (Finset Text)} {key : Text → Text}

theorem Creating.missing (h : Creating look create env key) {name : Text} {w w' : Finset Text}
    {c c' : Bool} {tr : List (Event (WorkerCall E) WorkerExit)}
    (hrun : Runs env w ((createMissing look create name).run c) tr (.ok ((), c')) w') :
    (key name ∈ w ∧ createdVolumes tr = [] ∧ c' = c ∧ w' = w) ∨
      (key name ∉ w ∧ createdVolumes tr = [name] ∧ c' = true ∧ w' = insert name w) := by
  rw [createMissing, StateT.run_bind, Prog.bind_def, runs_bind_ok] at hrun
  obtain ⟨⟨b, c₁⟩, tr₁, tr₂, w₁, rfl, hlook, hrest⟩ := hrun
  obtain ⟨hcreated, rfl, rfl, rfl⟩ := h.found hlook
  rw [createdVolumes_append, hcreated, List.nil_append]
  by_cases hkey : key name ∈ w₁
  · rw [decide_eq_true hkey] at hrest
    change Runs env w₁ (.done (.ok ((), c₁))) tr₂ (.ok ((), c')) w' at hrest
    rw [runs_done] at hrest
    obtain ⟨rfl, hr, rfl⟩ := hrest
    cases hr
    exact .inl ⟨hkey, rfl, rfl, rfl⟩
  · rw [decide_eq_false hkey] at hrest
    change Runs env w₁ (.call (.engine (create name)) fun a => .done (.ok (a, true))) tr₂
      (.ok ((), c')) w' at hrest
    rw [runs_call_ok] at hrest
    obtain ⟨a, w₂, tr₃, rfl, hadds, hdone⟩ := hrest
    rw [runs_done] at hdone
    obtain ⟨rfl, hr, rfl⟩ := hdone
    cases hr
    refine .inr ⟨hkey, ?_, rfl, h.adds.mp hadds⟩
    have hby : createdBy (⟨.engine (create name), .ok ()⟩ : Event (WorkerCall E) WorkerExit) =
        some name := h.creates name
    rw [createdVolumes, List.filterMap_cons_some hby, List.filterMap_nil]

theorem Creating.runs_missing (h : Creating look create env key) (name : Text) (w : Finset Text)
    (c : Bool) :
    ∃ tr c' w', Runs env w ((createMissing look create name).run c) tr (.ok ((), c')) w' := by
  obtain ⟨tr₁, hlook⟩ := h.looks name w c
  rw [createMissing, StateT.run_bind, Prog.bind_def]
  by_cases hkey : key name ∈ w
  · rw [decide_eq_true hkey] at hlook
    exact ⟨_, c, w, runs_bind_ok.mpr ⟨_, tr₁, [], w, rfl, hlook, runs_done.mpr ⟨rfl, rfl, rfl⟩⟩⟩
  · rw [decide_eq_false hkey] at hlook
    refine ⟨_, true, insert name w, runs_bind_ok.mpr
      ⟨_, tr₁, [⟨.engine (create name), .ok ()⟩], w, rfl, hlook, ?_⟩⟩
    exact runs_call_ok.mpr ⟨(), _, [], rfl, h.adds.mpr rfl, runs_done.mpr ⟨rfl, rfl, rfl⟩⟩

/-- What a whole run creates, and what it leaves. -/
theorem Creating.each (h : Creating look create env key) {names : List Text} {w w' : Finset Text}
    {c c' : Bool} {tr : List (Event (WorkerCall E) WorkerExit)}
    (hrun : Runs env w ((createEach look create names).run c) tr (.ok ((), c')) w') :
    createdVolumes tr = creations key w names ∧
      (c' = true ↔ c = true ∨ creations key w names ≠ []) ∧
      w' = w ∪ (creations key w names).toFinset := by
  induction names generalizing w c tr with
  | nil =>
    change Runs env w (.done (.ok ((), c))) tr (.ok ((), c')) w' at hrun
    rw [runs_done] at hrun
    obtain ⟨rfl, hr, rfl⟩ := hrun
    cases hr
    simp [createdVolumes, creations]
  | cons name names ih =>
    rw [createEach, StateT.run_bind, Prog.bind_def, runs_bind_ok] at hrun
    obtain ⟨⟨_, c₁⟩, tr₁, tr₂, w₁, rfl, hfirst, hrest⟩ := hrun
    obtain ⟨hcreated, hflag, hleft⟩ := ih hrest
    rw [createdVolumes_append, hcreated, creations]
    obtain ⟨hkey, hnone, rfl, rfl⟩ | ⟨hkey, hone, rfl, rfl⟩ := h.missing hfirst
    · rw [if_pos hkey, hnone]
      exact ⟨rfl, hflag, hleft⟩
    · rw [if_neg hkey, hone, hleft, List.toFinset_cons]
      refine ⟨rfl, ⟨fun _ => .inr (List.cons_ne_nil _ _), fun _ => hflag.mpr (.inl rfl)⟩, ?_⟩
      rw [Finset.insert_union, Finset.union_insert]

theorem Creating.runs_each (h : Creating look create env key) (names : List Text)
    (w : Finset Text) (c : Bool) :
    ∃ tr c' w', Runs env w ((createEach look create names).run c) tr (.ok ((), c')) w' := by
  induction names generalizing w c with
  | nil => exact ⟨[], c, w, runs_done.mpr ⟨rfl, rfl, rfl⟩⟩
  | cons name names ih =>
    obtain ⟨tr₁, c₁, w₁, hfirst⟩ := h.runs_missing name w c
    obtain ⟨tr₂, c₂, w₂, hrest⟩ := ih w₁ c₁
    rw [createEach, StateT.run_bind, Prog.bind_def]
    exact ⟨_, c₂, w₂, runs_bind_ok.mpr ⟨_, tr₁, tr₂, w₁, rfl, hfirst, hrest⟩⟩

end Loop

/-! ## Exactly the missing volumes -/

/-- The volumes are then those from before and the named ones, each is created that was missing and
only once, and the flag tells whether any was. -/
structure CreatesMissing (named : List Text) (w : Finset Text) (created : List Text)
    (changed : Bool) (w' : Finset Text) : Prop where
  existing : w' = w ∪ named.toFinset
  once : created.Nodup
  missing : ∀ name ∈ created, name ∉ w
  flag : changed = true ↔ created ≠ []

def CreatesExactly {E : Type → Type} [VolumeCalls E]
    (env : Env (WorkerCall E) WorkerExit (Finset Text)) (m : Worker E Unit) (named : List Text)
    (w : Finset Text) : Prop :=
  ∀ tr changed w', Runs env w (m.run false) tr (.ok ((), changed)) w' →
    CreatesMissing named w (createdVolumes tr) changed w'

section Exactly

variable {E : Type → Type} [VolumeCalls E] {look : Text → Worker E Bool} {create : Text → E Unit}
  {env : Env (WorkerCall E) WorkerExit (Finset Text)} {key : Text → Text}

theorem Creating.exactly_iff (h : Creating look create env key) {names named : List Text}
    {w : Finset Text} :
    CreatesExactly env (createEach look create names) named w ↔
      (creations key w names).Nodup ∧
        (∀ name ∈ creations key w names, name ∈ named ∧ name ∉ w) ∧
        ∀ name ∈ named, name ∈ w ∨ name ∈ creations key w names := by
  constructor
  · intro hexact
    obtain ⟨tr, changed, w', hrun⟩ := h.runs_each names w false
    obtain ⟨hcreated, -, hleft⟩ := h.each hrun
    obtain ⟨hexisting, honce, hmissing, -⟩ := hexact tr changed w' hrun
    rw [hcreated] at honce hmissing
    have hmem : ∀ name, name ∈ w ∨ name ∈ creations key w names ↔ name ∈ w ∨ name ∈ named := by
      intro name
      have hiff := Finset.ext_iff.mp (hleft.symm.trans hexisting) name
      rwa [Finset.mem_union, Finset.mem_union, List.mem_toFinset, List.mem_toFinset] at hiff
    refine ⟨honce, fun name hname => ⟨?_, hmissing name hname⟩, fun name hname => ?_⟩
    · exact ((hmem name).mp (.inr hname)).resolve_left (hmissing name hname)
    · exact (hmem name).mpr (.inr hname)
  · rintro ⟨honce, hasked, hall⟩ tr changed w' hrun
    obtain ⟨hcreated, hflag, hleft⟩ := h.each hrun
    rw [hcreated]
    refine ⟨hleft.trans (Finset.ext fun name => ?_), honce, fun name hname => (hasked name hname).2,
      hflag.trans (or_iff_right Bool.false_ne_true)⟩
    rw [Finset.mem_union, Finset.mem_union, List.mem_toFinset, List.mem_toFinset]
    refine ⟨?_, fun hname => hname.elim .inl (hall name)⟩
    rintro (hname | hname)
    · exact .inl hname
    · exact .inr (hasked name hname).1

end Exactly

/-! ## Docker -/

namespace Docker

instance : VolumeCalls DockerCall where
  creates
    | .createVolume name => some name
    | _ => none

/-- The engine, of which only the volumes matter. -/
def volumeEngine : Env (WorkerCall DockerCall) WorkerExit (Finset Text)
  | w, ⟨.engine .volumes, .ok volumes⟩, w' => (volumes.getD []).toFinset = w ∧ w' = w
  | w, ⟨.engine (.createVolume name), .ok _⟩, w' => w' = insert name w
  | w, ⟨.engine (.removeVolume name), .ok .removed⟩, w' => w' = w.erase name
  | w, ⟨_, .ok _⟩, w' => w' = w
  | _, ⟨_, .error _⟩, _ => True

theorem creating (t : Task) :
    Creating (fun _ => checkVolume t) .createVolume volumeEngine fun _ => t.params.name where
  found := by
    intro _ w c tr b c' w' hrun
    change Runs volumeEngine w (.call (.engine .volumes) fun volumes =>
      .done (.ok ((volumes.getD []).contains t.params.name, c))) tr (.ok (b, c')) w' at hrun
    rw [runs_call_ok] at hrun
    obtain ⟨volumes, w₁, tr', rfl, ⟨hlist, rfl⟩, hdone⟩ := hrun
    rw [runs_done] at hdone
    obtain ⟨rfl, hr, rfl⟩ := hdone
    cases hr
    refine ⟨rfl, ?_, rfl, rfl⟩
    rw [← hlist]
    simp
  looks := by
    intro _ w c
    refine ⟨[⟨.engine .volumes, .ok (some w.toList)⟩], runs_call_ok.mpr ⟨some w.toList, w, [], rfl,
      ⟨Finset.toList_toFinset w, rfl⟩, runs_done.mpr ⟨rfl, ?_, rfl⟩⟩⟩
    simp
  adds := Iff.rfl
  creates _ := rfl

theorem createVolumesOf_eq (t : Task) (volumes : List Text) :
    createVolumesOf t volumes = createEach (fun _ => checkVolume t) DockerCall.createVolume
      (requestedNames t.params.name volumes) := by
  induction volumes with
  | nil => rfl
  | cons volume volumes ih =>
    rw [createVolumesOf, ih, createContainerVolume, requestedNames_cons, requestedName]
    by_cases hpath : '/' ∈ volume.takeWhile (· ≠ ':')
    · simp only [if_pos hpath]
      rfl
    · simp only [if_neg hpath]
      rfl

/-- Where the volume with the name of the container is there, no other is missing. Else the entries
up to the first that asks for this volume name the missing ones, once each. -/
structure Foreseen (name : Text) (volumes : List Text) (w : Finset Text) : Prop where
  present : name ∈ w → ∀ src ∈ namedVolumes volumes, src ∈ w
  once : name ∉ w → (upTo name (requestedNames name volumes)).Nodup
  asked : name ∉ w → ∀ src ∈ upTo name (requestedNames name volumes),
    src ∈ namedVolumes volumes ∧ src ∉ w
  reached : name ∉ w → ∀ src ∈ namedVolumes volumes,
    src ∈ w ∨ src ∈ upTo name (requestedNames name volumes)

theorem exactly_iff_foreseen (t : Task) (w : Finset Text) :
    CreatesExactly volumeEngine (createContainerVolumes t)
        (namedVolumes (t.params.volumes.getD [])) w ↔
      Foreseen t.params.name (t.params.volumes.getD []) w := by
  rw [createContainerVolumes, createVolumesOf_eq, (creating t).exactly_iff]
  by_cases hname : t.params.name ∈ w
  · rw [creations_const_of_mem hname]
    constructor
    · rintro ⟨-, -, hall⟩
      exact ⟨fun _ src hsrc => (hall src hsrc).resolve_right (List.not_mem_nil),
        absurd hname, absurd hname, absurd hname⟩
    · intro h
      exact ⟨List.nodup_nil, nofun, fun src hsrc => .inl (h.present hname src hsrc)⟩
  · rw [creations_const hname]
    constructor
    · rintro ⟨honce, hasked, hall⟩
      exact ⟨fun h => absurd h hname, fun _ => honce, fun _ => hasked, fun _ => hall⟩
    · intro h
      exact ⟨h.once hname, h.asked hname, h.reached hname⟩

end Docker

/-! ## Podman -/

namespace Podman

instance : VolumeCalls PodmanCall where
  creates
    | .createVolume name => some name
    | _ => none

def volumeEngine : Env (WorkerCall PodmanCall) WorkerExit (Finset Text)
  | w, ⟨.engine (.getVolume name), .ok found⟩, w' => found = decide (name ∈ w) ∧ w' = w
  | w, ⟨.engine (.createVolume name), .ok _⟩, w' => w' = insert name w
  | w, ⟨.engine (.removeVolume name), .ok .removed⟩, w' => w' = w.erase name
  | w, ⟨_, .ok _⟩, w' => w' = w
  | _, ⟨_, .error _⟩, _ => True

/-- The name that is looked up. -/
def lookedUp (t : Task) (name : Text) : Text := if name = [] then t.params.name else name

theorem creating (t : Task) :
    Creating (checkVolume t) PodmanCall.createVolume volumeEngine (lookedUp t) where
  found := by
    intro name w c tr b c' w' hrun
    change Runs volumeEngine w (.call (.engine (.getVolume (lookedUp t name))) fun found =>
      .done (.ok (found, c))) tr (.ok (b, c')) w' at hrun
    rw [runs_call_ok] at hrun
    obtain ⟨found, w₁, tr', rfl, ⟨rfl, rfl⟩, hdone⟩ := hrun
    rw [runs_done] at hdone
    obtain ⟨rfl, hr, rfl⟩ := hdone
    cases hr
    exact ⟨rfl, rfl, rfl, rfl⟩
  looks := by
    intro name w c
    exact ⟨[⟨.engine (.getVolume (lookedUp t name)), .ok (decide (lookedUp t name ∈ w))⟩],
      runs_call_ok.mpr ⟨_, w, [], rfl, ⟨rfl, rfl⟩, runs_done.mpr ⟨rfl, rfl, rfl⟩⟩⟩
  adds := Iff.rfl
  creates _ := rfl

theorem createVolumesOf_eq (t : Task) (volumes : List Text) :
    createVolumesOf t volumes = createEach (checkVolume t) PodmanCall.createVolume
      (requestedNames t.params.name volumes) := by
  induction volumes with
  | nil => rfl
  | cons volume volumes ih =>
    rw [createVolumesOf, ih, createContainerVolume, requestedNames_cons, requestedName]
    by_cases hpath : '/' ∈ volume.takeWhile (· ≠ ':')
    · simp only [if_pos hpath]
      rfl
    · simp only [if_neg hpath]
      rfl

/-- A name that is requested is not replaced again. -/
theorem lookedUp_requested {t : Task} {volumes : List Text} {name : Text}
    (h : name ∈ requestedNames t.params.name volumes) : lookedUp t name = name := by
  obtain ⟨volume, -, hname⟩ := List.mem_filterMap.mp h
  rw [requestedName] at hname
  split at hname
  · cases hname
  · cases hname
    split
    · exact ite_self t.params.name
    · rename_i hsrc
      rw [lookedUp, if_neg hsrc]

/-- Every entry without a path names a volume, or asks for one that is there. -/
def Foreseen (name : Text) (volumes : List Text) (w : Finset Text) : Prop :=
  ∀ src ∈ requestedNames name volumes, src ∈ w ∨ src ∈ namedVolumes volumes

theorem exactly_iff_foreseen (t : Task) (w : Finset Text) :
    CreatesExactly volumeEngine (createContainerVolumes t)
        (namedVolumes (t.params.volumes.getD [])) w ↔
      Foreseen t.params.name (t.params.volumes.getD []) w := by
  have hkey : creations (lookedUp t) w (requestedNames t.params.name (t.params.volumes.getD [])) =
      creations id w (requestedNames t.params.name (t.params.volumes.getD [])) :=
    creations_congr (fun _ => lookedUp_requested) w
  rw [createContainerVolumes, createVolumesOf_eq, (creating t).exactly_iff, hkey]
  constructor
  · rintro ⟨-, hasked, -⟩ src hsrc
    refine Classical.or_iff_not_imp_left.mpr fun hmissing => ?_
    exact (hasked src (mem_creations_id.mpr ⟨hsrc, hmissing⟩)).1
  · intro h
    refine ⟨nodup_creations_id, fun src hsrc => ?_, fun src hsrc => ?_⟩
    · obtain ⟨hrequested, hmissing⟩ := mem_creations_id.mp hsrc
      exact ⟨(h src hrequested).resolve_left hmissing, hmissing⟩
    · refine Classical.or_iff_not_imp_left.mpr fun hmissing => ?_
      exact mem_creations_id.mpr ⟨namedVolumes_subset t.params.name _ hsrc, hmissing⟩

end Podman

/-- **The workers create exactly the missing named volumes** for the lists and engines that their
lookups foresee. -/
theorem creates_exactly_iff (t : Task) (w : Finset Text) :
    (CreatesExactly Docker.volumeEngine (Docker.createContainerVolumes t)
        (namedVolumes (t.params.volumes.getD [])) w ↔
      Docker.Foreseen t.params.name (t.params.volumes.getD []) w) ∧
    (CreatesExactly Podman.volumeEngine (Podman.createContainerVolumes t)
        (namedVolumes (t.params.volumes.getD [])) w ↔
      Podman.Foreseen t.params.name (t.params.volumes.getD []) w) :=
  ⟨Docker.exactly_iff_foreseen t w, Podman.exactly_iff_foreseen t w⟩

def logging : Task where
  params := {
    name := "fluentd".toList
    image := "fluentd".toList
    volumes := some ["kolla_logs:/var/log/kolla".toList, []] }
  restartRetries_ne := restartRetries_default

/-- The volume of the logs is there and is created again, and so is one for the empty entry. -/
theorem existing_volume_created :
    namedVolumes (logging.params.volumes.getD []) = ["kolla_logs".toList] ∧
      ¬ CreatesExactly Docker.volumeEngine (Docker.createContainerVolumes logging)
        (namedVolumes (logging.params.volumes.getD [])) {"kolla_logs".toList} ∧
      ¬ CreatesExactly Podman.volumeEngine (Podman.createContainerVolumes logging)
        (namedVolumes (logging.params.volumes.getD [])) {"kolla_logs".toList} := by
  have hnamed : namedVolumes (logging.params.volumes.getD []) = ["kolla_logs".toList] := by decide
  refine ⟨hnamed, ?_, ?_⟩
  · rw [Docker.exactly_iff_foreseen]
    intro h
    have hlogs := h.asked (by decide) "kolla_logs".toList (by decide)
    exact hlogs.2 (by decide)
  · rw [Podman.exactly_iff_foreseen]
    intro h
    have hempty := h "fluentd".toList (by decide)
    exact absurd hempty (by decide)

end Container
end KollaPowerOps
