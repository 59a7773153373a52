import Mathlib.Logic.Function.Basic
import KollaPowerOps.Declared.Images
import KollaPowerOps.Lib.OrderedDict
import KollaPowerOps.Lib.Triple

/-!
# Declared.Provenance

What the images that are derived and published consist of.

* `BuildHost`       : the directories of the wheels, the images of the engine, and the registry.
* `onBuildHost`     : what a call does to them. One that raises may have had its effect, and a wheel
  may be copied in part.
* `Traced`          : where the images and the registry come from, after commands that may each have
  been stopped anywhere.
* `publish_confirmed` : a registry sees nothing of a publication that it was not confirmed for.
* `published`       : what a registry holds of a build that was published.
-/

namespace KollaPowerOps
namespace Declared
namespace Cli

open Effect PyText

/-! ## The host -/

/-- A file in the `dist` of a package. What is no archive has no content. -/
structure WheelFile where
  mtime : Nat
  content : Option Archive

/-- An image: what it was made from, and the wheels that are installed in it. -/
structure Image where
  base : String
  context : String
  wheels : List (String × Archive)

structure BuildHost where
  packages : String → OrderedDict String WheelFile
  contexts : String → OrderedDict String (Option Archive)
  images : Arg → Option Image
  registry : Arg → Option Image

namespace BuildHost

def built (w : BuildHost) (package : String) (dist : OrderedDict String WheelFile) : BuildHost :=
  { w with packages := Function.update w.packages package dist }

def copied (w : BuildHost) (context name : String) (content : Option Archive) : BuildHost :=
  { w with contexts := Function.update w.contexts context ((w.contexts context).set name content) }

/-- `COPY dist/*.whl` -/
def wheelsOf (w : BuildHost) (context : String) : List (String × Option Archive) :=
  (w.contexts context).entries.filter fun entry => endsWith ".whl" entry.1

/-- There is a wheel to copy, and pip installs all of them. -/
def Installable (w : BuildHost) (context : String) : Prop :=
  w.wheelsOf context ≠ [] ∧ ∀ entry ∈ w.wheelsOf context, entry.2.isSome = true

/-- The image that the Containerfile of the context makes of a base image. -/
def image (w : BuildHost) (base context : String) : Image where
  base := base
  context := context
  wheels := (w.wheelsOf context).filterMap fun entry => entry.2.map (entry.1, ·)

def derive (w : BuildHost) (tag : Arg) (base context : String) : BuildHost :=
  { w with images := Function.update w.images tag (some (w.image base context)) }

def publish (w : BuildHost) (tag : Arg) : BuildHost :=
  { w with registry := Function.update w.registry tag (w.images tag) }

section Fields

variable (w : BuildHost) (package context name base : String) (tag : Arg)

theorem packages_built (dist : OrderedDict String WheelFile) (other : String) :
    (w.built package dist).packages other = if other = package then dist else w.packages other :=
  Function.update_apply ..

theorem contexts_copied (content : Option Archive) (other : String) :
    (w.copied context name content).contexts other =
      if other = context then (w.contexts context).set name content else w.contexts other :=
  Function.update_apply ..

theorem images_derive (other : Arg) :
    (w.derive tag base context).images other =
      if other = tag then some (w.image base context) else w.images other :=
  Function.update_apply ..

theorem registry_publish (other : Arg) :
    (w.publish tag).registry other = if other = tag then w.images tag else w.registry other :=
  Function.update_apply ..

end Fields

theorem wheelsOf_congr {w w' : BuildHost} {context : String}
    (h : w'.contexts context = w.contexts context) : w'.wheelsOf context = w.wheelsOf context := by
  rw [wheelsOf, h, wheelsOf]

theorem image_congr {w w' : BuildHost} (h : w'.contexts = w.contexts) (base context : String) :
    w'.image base context = w.image base context := by
  rw [image, wheelsOf_congr (congrFun h context), image]

end BuildHost

/-- The files that a glob of the directory finds. -/
def Found (dist : OrderedDict String WheelFile) (pattern : String) (c : Candidate) : Prop :=
  globMatch pattern.toList c.2.toList = true ∧
    ∃ file, dist.get? c.2 = some file ∧ file.mtime = c.1

/-- What a call may do, also one that raises. -/
def ImageCall.Reach (w w' : BuildHost) {τ : Type} : ImageCall τ → Prop
  | .buildWheel package => ∃ dist, w' = w.built package dist
  | .copyWheel package name context =>
    w' = w ∨ w' = w.copied context name none ∨
      ∃ file, (w.packages package).get? name = some file ∧ w' = w.copied context name file.content
  | .engineBuild _ base tag context => w' = w ∨ w.Installable context ∧ w' = w.derive tag base context
  | .push _ tag => w' = w ∨ (w.images tag).isSome = true ∧ w' = w.publish tag
  | _ => w' = w

/-- What a call has done that is answered. -/
def imageReplies (w w' : BuildHost) {τ : Type} : ImageCall τ → τ → Prop
  | .glob package pattern, found => ∀ c, c ∈ found ↔ Found (w.packages package) pattern c
  | .openWheel package name, archive =>
    ∃ mtime, (w.packages package).get? name = some ⟨mtime, some archive⟩
  | .copyWheel package name context, _ =>
    ∃ file, (w.packages package).get? name = some file ∧ w' = w.copied context name file.content
  | .engineBuild _ base tag context, _ => w.Installable context ∧ w' = w.derive tag base context
  | .inspect _ tag, _ => (w.images tag).isSome = true
  | .push _ tag, _ => (w.images tag).isSome = true ∧ w' = w.publish tag
  | _, _ => True

def onBuildHost : Env ImageCall CliError BuildHost := fun w ev w' =>
  ev.op.Reach w w' ∧ ∀ a, ev.answer = .ok a → imageReplies w w' ev.op a

instance (w : BuildHost) (context : String) : Decidable (w.Installable context) :=
  inferInstanceAs (Decidable (_ ∧ _))

/-- A host on which every call does what it can: the globals file has this content, and a build of a
package leaves these wheels. -/
def hostSim (globals : Value) (dists : String → OrderedDict String WheelFile) :
    Simulator ImageCall CliError BuildHost := fun w _ op =>
  match op with
  | .safeLoad => (.ok globals, w)
  | .buildWheel package => (.ok (), w.built package (dists package))
  | .glob package pattern =>
    (.ok (((w.packages package).entries.filter fun entry =>
      globMatch pattern.toList entry.1.toList).map fun entry => (entry.2.mtime, entry.1)), w)
  | .openWheel package name =>
    match ((w.packages package).get? name).bind WheelFile.content with
    | some wheel => (.ok wheel, w)
    | none => (.error .raised, w)
  | .copyWheel package name context =>
    match (w.packages package).get? name with
    | some file => (.ok (), w.copied context name file.content)
    | none => (.error .raised, w)
  | .engineBuild _ base tag context =>
    if w.Installable context then (.ok (), w.derive tag base context) else (.error .raised, w)
  | .inspect _ tag => (if (w.images tag).isSome then .ok () else .error .raised, w)
  | .push _ tag =>
    if (w.images tag).isSome then (.ok (), w.publish tag) else (.error .raised, w)

theorem found_iff {dist : OrderedDict String WheelFile} {pattern : String} {c : Candidate} :
    c ∈ ((dist.entries.filter fun entry => globMatch pattern.toList entry.1.toList).map
      fun entry => (entry.2.mtime, entry.1)) ↔ Found dist pattern c := by
  constructor
  · intro h
    obtain ⟨entry, hentry, rfl⟩ := List.mem_map.mp h
    obtain ⟨hmem, hmatch⟩ := List.mem_filter.mp hentry
    exact ⟨hmatch, entry.2, OrderedDict.mem_entries.mp hmem, rfl⟩
  · rintro ⟨hmatch, file, hfile, hmtime⟩
    refine List.mem_map.mpr ⟨(c.2, file), List.mem_filter.mpr ⟨?_, hmatch⟩, ?_⟩
    · exact OrderedDict.mem_entries.mpr hfile
    · rw [hmtime]

theorem hostSim_sound (globals : Value) (dists : String → OrderedDict String WheelFile)
    (w : BuildHost) {τ : Type} (op : ImageCall τ) :
    onBuildHost w ⟨op, (hostSim globals dists w op).1⟩ (hostSim globals dists w op).2 := by
  cases op with
  | safeLoad => exact ⟨rfl, fun _ _ => trivial⟩
  | buildWheel package => exact ⟨⟨_, rfl⟩, fun _ _ => trivial⟩
  | glob package pattern =>
    refine ⟨rfl, fun found h c => ?_⟩
    obtain rfl := Except.ok.inj h
    exact found_iff
  | openWheel package name =>
    cases hfile : (w.packages package).get? name with
    | none =>
      simp only [hostSim, hfile, Option.bind_none]
      exact ⟨rfl, fun _ h => by cases h⟩
    | some file =>
      obtain ⟨mtime, content⟩ := file
      simp only [hostSim, hfile, Option.bind_some]
      cases content with
      | none => exact ⟨rfl, fun _ h => by cases h⟩
      | some wheel =>
        refine ⟨rfl, fun archive h => ⟨mtime, ?_⟩⟩
        obtain rfl := Except.ok.inj h
        exact hfile
  | copyWheel package name context =>
    cases hfile : (w.packages package).get? name with
    | none =>
      simp only [hostSim, hfile]
      exact ⟨.inl rfl, fun _ h => by cases h⟩
    | some file =>
      simp only [hostSim, hfile]
      exact ⟨.inr (.inr ⟨file, hfile, rfl⟩), fun _ _ => ⟨file, hfile, rfl⟩⟩
  | engineBuild engine base tag context =>
    by_cases hinst : w.Installable context
    · simp only [hostSim, hinst, if_true]
      exact ⟨.inr ⟨hinst, rfl⟩, fun _ _ => ⟨hinst, rfl⟩⟩
    · simp only [hostSim, hinst, if_false]
      exact ⟨.inl rfl, fun _ h => by cases h⟩
  | inspect engine tag =>
    by_cases hsome : (w.images tag).isSome = true
    · simp only [hostSim, hsome, if_true]
      exact ⟨rfl, fun _ _ => hsome⟩
    · simp only [hostSim, hsome]
      exact ⟨rfl, fun _ h => by cases h⟩
  | push engine tag =>
    by_cases hsome : (w.images tag).isSome = true
    · simp only [hostSim, hsome, if_true]
      exact ⟨.inr ⟨hsome, rfl⟩, fun _ _ => ⟨hsome, rfl⟩⟩
    · simp only [hostSim, hsome]
      exact ⟨.inl rfl, fun _ h => by cases h⟩

/-! ### A host with both plugins -/

section Example

def exampleRegistry : String := "registry:5000"

def exampleImage (service : String) : String := exampleRegistry ++ "/" ++ service ++ "-powerops"

def exampleImages (tag : String → String) : Value :=
  .dict (imageServices.map fun service => (.str service, .str (tag service)))

def exampleGlobals : Mapping :=
  [(.str "powerops_base_images", exampleImages fun service => exampleRegistry ++ "/" ++ service),
    (.str "powerops_derived_images", exampleImages exampleImage)]

/-- A wheel whose entry points are these. -/
def exampleWheel (entryPoints : String) : Archive where
  members := [("plugin.py", some ""), ("dist-info/entry_points.txt", some entryPoints)]

def exampleDist (name entryPoints : String) : OrderedDict String WheelFile :=
  OrderedDict.empty.set name ⟨1, some (exampleWheel entryPoints)⟩

def exampleDists (package : String) : OrderedDict String WheelFile :=
  if package = mistralBuild.package then
    exampleDist "openstack_power_actions-1.0.0.whl" "[mistral.actions]"
  else exampleDist "masakari_ironic_fence-1.0.0.whl" "[masakari.task_flow.tasks]"

/-- The parser on the entry points of the two plugins. -/
def exampleRead (text : String) : Option ParsedConfig :=
  if text = "[mistral.actions]" then
    some ⟨[("mistral.actions", ["powerops.acquire_host_lock"])], []⟩
  else if text = "[masakari.task_flow.tasks]" then
    some ⟨[("masakari.task_flow.tasks", ["ironic_fence"])], []⟩
  else none

def exampleHost : BuildHost where
  packages _ := OrderedDict.empty
  contexts _ := OrderedDict.empty
  images _ := none
  registry _ := none

def exampleSim : Simulator ImageCall CliError BuildHost := hostSim (.dict exampleGlobals) exampleDists

def exampleAfter (command : Command) (w : BuildHost) : BuildHost :=
  ((command.run .ascii exampleRead).outcome exampleSim w).2

end Example

section Traced

variable (rt : PyRuntime) (readString : String → Option ParsedConfig)

/-! ## Where wheels come from -/

/-- The wheel declares the entry point of the plugin, in its only list of entry points. -/
def Declares (build : PluginBuild) (wheel : Archive) : Prop :=
  ∃ member text config,
    (wheel.members.filter fun entry => endsWith "/entry_points.txt" entry.1) = [(member, some text)] ∧
      readString text = some config ∧ config.hasOption rt build.entryGroup build.entryName = true

variable {rt readString} in
theorem verify_ok {build : PluginBuild} {wheel : Archive} {name : String} :
    verifyWheelEntrypoint rt readString wheel name build.entryGroup build.entryName = .ok () ↔
      Declares rt readString build wheel := by
  unfold verifyWheelEntrypoint Declares
  constructor
  · intro h
    split at h
    · rename_i member content hmembers
      split at h
      · cases h
      · rename_i config hread
        split at h
        · rename_i hoption
          obtain ⟨text, rfl, hread⟩ := Option.bind_eq_some_iff.mp hread
          exact ⟨member, text, config, hmembers, hread, hoption⟩
        · cases h
    · cases h
  · rintro ⟨member, text, config, hmembers, hread, hoption⟩
    rw [hmembers]
    simp only [Option.bind_some, hread, hoption, if_true]

/-- Made in the context of a plugin, from wheels that declare its entry point. -/
def Image.Derived (i : Image) : Prop :=
  i.wheels ≠ [] ∧ ∃ build ∈ pluginBuilds, build.context = i.context ∧
    ∀ entry ∈ i.wheels, Declares rt readString build entry.2

/-- Every wheel in the context of a plugin declares its entry point. -/
def BuildHost.Clean (w : BuildHost) : Prop :=
  ∀ build ∈ pluginBuilds, ∀ name wheel,
    (w.contexts build.context).get? name = some (some wheel) → Declares rt readString build wheel

/-- The tag names the registry that one of the commands is confirmed for. -/
def Confirmed (commands : List Command) (tag : Arg) : Prop :=
  ∃ confirm, Command.publishImages confirm ∈ commands ∧
    ∃ image, tag = .text image ∧ registryHost (.str image) = .ok confirm

/-- What the commands leave of a host: an image is the one that was there, or a derived one; and in
the registry there is what was there, or under a confirmed name one of these. -/
structure Traced (commands : List Command) (w w' : BuildHost) : Prop where
  clean : w'.Clean rt readString
  images : ∀ tag, w'.images tag = w.images tag ∨
    ∃ i, w'.images tag = some i ∧ i.Derived rt readString
  registry : ∀ tag, w'.registry tag = w.registry tag ∨ Confirmed commands tag ∧
    ∃ i, w'.registry tag = some i ∧ (w.images tag = some i ∨ i.Derived rt readString)

/-- When a command may make a call. -/
def ImageCall.Allowed (commands : List Command) (w : BuildHost) {τ : Type} : ImageCall τ → Prop
  | .copyWheel package name context => ∃ build ∈ pluginBuilds, build.context = context ∧
    ∀ mtime wheel, (w.packages package).get? name = some ⟨mtime, some wheel⟩ →
      Declares rt readString build wheel
  | .engineBuild _ _ _ context => ∃ build ∈ pluginBuilds, build.context = context
  | .push _ tag => Confirmed commands tag
  | _ => True

variable {rt readString} {commands : List Command} {w w' w'' : BuildHost}

theorem context_injective {a b : PluginBuild} (ha : a ∈ pluginBuilds) (hb : b ∈ pluginBuilds)
    (h : a.context = b.context) : a = b := by
  simp only [pluginBuilds, List.mem_cons, List.not_mem_nil, or_false] at ha hb
  rcases ha with rfl | rfl <;> rcases hb with rfl | rfl
  · rfl
  · exact absurd h (by decide)
  · exact absurd h (by decide)
  · rfl

theorem Traced.refl (h : w.Clean rt readString) : Traced rt readString commands w w :=
  ⟨h, fun _ => .inl rfl, fun _ => .inl rfl⟩

/-- What is in a context is installed in the image that is made of it. -/
theorem BuildHost.Clean.derived (hw : w.Clean rt readString) {build : PluginBuild}
    (hbuild : build ∈ pluginBuilds) (hinst : w.Installable build.context) (base : String) :
    (w.image base build.context).Derived rt readString := by
  refine ⟨fun hnil => ?_, build, hbuild, rfl, fun entry hentry => ?_⟩
  · obtain ⟨entry, hentry⟩ := List.exists_mem_of_ne_nil _ hinst.1
    obtain ⟨wheel, hwheel⟩ := Option.isSome_iff_exists.mp (hinst.2 entry hentry)
    have hnone := List.filterMap_eq_nil_iff.mp hnil entry hentry
    rw [hwheel] at hnone
    cases hnone
  · obtain ⟨source, hsource, hmade⟩ := List.mem_filterMap.mp hentry
    obtain ⟨wheel, hwheel, rfl⟩ := Option.map_eq_some_iff.mp hmade
    have hget := OrderedDict.mem_entries.mp (List.mem_filter.mp hsource).1
    rw [hwheel] at hget
    exact hw build hbuild source.1 wheel hget

theorem BuildHost.Clean.copied (hw : w.Clean rt readString) {build : PluginBuild}
    (hbuild : build ∈ pluginBuilds) {name : String} {content : Option Archive}
    (hcontent : ∀ wheel, content = some wheel → Declares rt readString build wheel) :
    (w.copied build.context name content).Clean rt readString := by
  intro other hother file wheel hget
  by_cases hsame : other.context = build.context
  · obtain rfl := context_injective hother hbuild hsame
    rw [BuildHost.contexts_copied, if_pos rfl, OrderedDict.get?_set] at hget
    split at hget
    · exact hcontent wheel (Option.some.inj hget)
    · exact hw other hother file wheel hget
  · rw [BuildHost.contexts_copied, if_neg hsame] at hget
    exact hw other hother file wheel hget

theorem Traced.derive (h : Traced rt readString commands w w') {tag : Arg} {base : String}
    {build : PluginBuild} (hbuild : build ∈ pluginBuilds) (hinst : w'.Installable build.context) :
    Traced rt readString commands w (w'.derive tag base build.context) := by
  refine ⟨h.clean, fun other => ?_, h.registry⟩
  rw [BuildHost.images_derive]
  split
  · exact .inr ⟨_, rfl, h.clean.derived hbuild hinst base⟩
  · exact h.images other

theorem Traced.publish (h : Traced rt readString commands w w') {tag : Arg}
    (hconfirmed : Confirmed commands tag) (hsome : (w'.images tag).isSome = true) :
    Traced rt readString commands w (w'.publish tag) := by
  refine ⟨h.clean, h.images, fun other => ?_⟩
  rw [BuildHost.registry_publish]
  split
  · rename_i htag
    subst htag
    obtain ⟨i, hi⟩ := Option.isSome_iff_exists.mp hsome
    refine .inr ⟨hconfirmed, i, hi, ?_⟩
    rcases h.images other with hold | ⟨i', hi', hderived⟩
    · exact .inl (hold ▸ hi)
    · cases hi.symm.trans hi'
      exact .inr hderived
  · exact h.registry other

/-- An allowed call, answered or not. -/
theorem Traced.step (h : Traced rt readString commands w w') {ev : Event ImageCall CliError}
    (hallowed : ev.op.Allowed rt readString commands w') (hev : onBuildHost w' ev w'') :
    Traced rt readString commands w w'' := by
  obtain ⟨hreach, -⟩ := hev
  obtain ⟨op, x⟩ := ev
  cases op with
  | safeLoad | glob | openWheel | inspect =>
    cases hreach
    exact h
  | buildWheel package =>
    obtain ⟨dist, rfl⟩ := hreach
    exact ⟨h.clean, h.images, h.registry⟩
  | copyWheel package name context =>
    obtain ⟨build, hbuild, rfl, hdeclares⟩ := hallowed
    rcases hreach with rfl | rfl | ⟨⟨mtime, content⟩, hfile, rfl⟩
    · exact h
    · exact ⟨h.clean.copied hbuild fun _ => nofun, h.images, h.registry⟩
    · refine ⟨h.clean.copied hbuild fun wheel hwheel => ?_, h.images, h.registry⟩
      obtain rfl : content = some wheel := hwheel
      exact hdeclares mtime wheel hfile
  | engineBuild engine base tag context =>
    obtain ⟨build, hbuild, rfl⟩ := hallowed
    rcases hreach with rfl | ⟨hinst, rfl⟩
    · exact h
    · exact h.derive hbuild hinst
  | push engine tag =>
    rcases hreach with rfl | ⟨hsome, rfl⟩
    · exact h
    · exact h.publish hallowed hsome

/-! ## The commands -/

section Wp

variable {Q : List Value → BuildHost → Prop}

/-- An exception or a value of the program's own. -/
theorem wp_done {α : Type} {P : BuildHost → ∀ {τ : Type}, ImageCall τ → Prop} {x : Except CliError α}
    {Q : α → BuildHost → Prop} (h : ∀ a, x = .ok a → Q a w) : (Prog.done x).wp onBuildHost P Q w := by
  cases x with
  | ok a => exact h a rfl
  | error e => trivial

/-- The wheel that the tool takes: the newest of those that the pattern finds. -/
def Newest (dist : OrderedDict String WheelFile) (pattern : String) (c : Candidate) : Prop :=
  Found dist pattern c ∧ ∀ d, Found dist pattern d → toLex d ≤ toLex c

theorem builtWheel_wp {P : BuildHost → ∀ {τ : Type}, ImageCall τ → Prop} {build : PluginBuild}
    (hP : P w (.glob build.package build.wheel)) :
    (builtWheel build).wp onBuildHost P
      (fun c w' => w' = w ∧ Newest (w.packages build.package) build.wheel c) w := by
  refine ⟨hP, fun found w' hev => ?_⟩
  obtain ⟨rfl, hreply⟩ := hev
  have hfound := hreply found rfl
  beta_reduce
  split
  · trivial
  · rename_i c hnewest
    obtain ⟨hmem, hmax⟩ := newest_spec hnewest
    exact ⟨rfl, (hfound c).mp hmem, fun d hd => hmax d ((hfound d).mpr hd)⟩

variable (rt readString) in
/-- The newest wheel of the plugin declares the entry point, and is in the context. -/
def Prepared (build : PluginBuild) (w : BuildHost) : Prop :=
  ∃ c wheel, Newest (w.packages build.package) build.wheel c ∧
    (w.packages build.package).get? c.2 = some ⟨c.1, some wheel⟩ ∧
    Declares rt readString build wheel ∧ (w.contexts build.context).get? c.2 = some (some wheel)

/-- The other packages and contexts are as they were, and so are all images. -/
structure Beside (build : PluginBuild) (w w' : BuildHost) : Prop where
  packages : ∀ other, other ≠ build.package → w'.packages other = w.packages other
  contexts : ∀ other, other ≠ build.context → w'.contexts other = w.contexts other
  images : w'.images = w.images

theorem preparePlugin_wp {build : PluginBuild} (hbuild : build ∈ pluginBuilds) :
    (preparePlugin rt readString build).wp onBuildHost (ImageCall.Allowed rt readString commands)
      (fun kind w' => kind = build.kind ∧ Prepared rt readString build w' ∧
        Beside build w w') w := by
  refine wp_bind ⟨trivial, fun _ w₁ hbuilt => wp_bind (wp_mono (builtWheel_wp trivial) ?_)⟩
  obtain ⟨⟨dist, rfl⟩, -⟩ := hbuilt
  rintro ⟨mtime, name⟩ _ ⟨rfl, hnewest⟩
  refine wp_bind ⟨trivial, fun wheel w₂ hopen => wp_bind (wp_done fun _ hverify => ?_)⟩
  obtain ⟨rfl, hreply⟩ := hopen
  obtain ⟨mtime', hfile⟩ := hreply wheel rfl
  have hdeclares := verify_ok.mp hverify
  refine wp_bind ⟨⟨build, hbuild, rfl, fun mtime content hcontent => ?_⟩, fun _ w₃ hcopied => ?_⟩
  · cases hfile.symm.trans hcontent
    exact hdeclares
  · obtain ⟨-, hreply⟩ := hcopied
    obtain ⟨file, hget, rfl⟩ := hreply _ rfl
    cases hfile.symm.trans hget
    -- The name determines the file, so the glob has found the one that was verified.
    obtain ⟨-, found, hfound, hmtime⟩ := hnewest.1
    cases hfile.symm.trans hfound
    obtain rfl := hmtime
    refine ⟨rfl, ⟨(mtime', name), wheel, hnewest, hfile, hdeclares, ?_⟩, ?_⟩
    · rw [BuildHost.contexts_copied, if_pos rfl, OrderedDict.get?_set_self]
    · refine ⟨fun other hother => ?_, fun other hother => ?_, rfl⟩
      · exact (w.packages_built build.package dist other).trans (if_neg hother)
      · exact (BuildHost.contexts_copied _ _ _ _ _).trans (if_neg hother)

theorem package_injective {a b : PluginBuild} (ha : a ∈ pluginBuilds) (hb : b ∈ pluginBuilds)
    (h : a.package = b.package) : a = b := by
  simp only [pluginBuilds, List.mem_cons, List.not_mem_nil, or_false] at ha hb
  rcases ha with rfl | rfl <;> rcases hb with rfl | rfl
  · rfl
  · exact absurd h (by decide)
  · exact absurd h (by decide)
  · rfl

theorem Beside.prepared {build other : PluginBuild} (h : Beside build w w')
    (hbuild : build ∈ pluginBuilds) (hother : other ∈ pluginBuilds) (hne : other ≠ build)
    (hprepared : Prepared rt readString other w) : Prepared rt readString other w' := by
  have hpackage : other.package ≠ build.package := fun heq =>
    hne (package_injective hother hbuild heq)
  have hcontext : other.context ≠ build.context := fun heq =>
    hne (context_injective hother hbuild heq)
  unfold Prepared
  rw [h.packages _ hpackage, h.contexts _ hcontext]
  exact hprepared

theorem preparePlugins_wp {builds : List PluginBuild} (hbuilds : builds ⊆ pluginBuilds)
    (hnodup : builds.Nodup) :
    (preparePlugins rt readString builds).wp onBuildHost
      (ImageCall.Allowed rt readString commands)
      (fun _ w' => (∀ build ∈ builds, Prepared rt readString build w') ∧
        (∀ other ∈ pluginBuilds, other ∉ builds → Prepared rt readString other w →
          Prepared rt readString other w') ∧ w'.images = w.images) w := by
  induction builds generalizing w with
  | nil => exact ⟨List.forall_mem_nil _, fun _ _ _ h => h, rfl⟩
  | cons build builds ih =>
    obtain ⟨hbuild, hrest⟩ := List.cons_subset.mp hbuilds
    obtain ⟨hnew, hnodup⟩ := List.nodup_cons.mp hnodup
    refine wp_bind (wp_mono (preparePlugin_wp hbuild) fun _ w₁ ⟨_, hprepared, hbeside⟩ => ?_)
    refine wp_bind (wp_mono (ih hrest hnodup) fun _ w₂ ⟨hothers, hkept, himages⟩ => ?_)
    refine ⟨List.forall_mem_cons.mpr ⟨hkept build hbuild hnew hprepared, hothers⟩, ?_, ?_⟩
    · intro other hother hnot hbefore
      rw [List.mem_cons, not_or] at hnot
      obtain ⟨hne, hnot⟩ := hnot
      exact hkept other hother hnot (hbeside.prepared hbuild hother hne hbefore)
    · exact himages.trans hbeside.images

theorem serviceContext_mem (service : String) :
    ∃ build ∈ pluginBuilds, build.context = serviceContext service := by
  unfold serviceContext serviceKind
  split
  · exact ⟨masakariBuild, by simp [pluginBuilds], rfl⟩
  · exact ⟨mistralBuild, by simp [pluginBuilds], rfl⟩

variable (rt) in
/-- The derived image of the service is made from its base image, with the wheels in its context. -/
def BuiltFrom (base derived : Mapping) (service : String) (w : BuildHost) : Prop :=
  ∃ tag, processArg (Value.entry derived service) = .ok tag ∧
    w.images tag = some (w.image ((Value.entry base service).toStr rt) (serviceContext service))

/-- No later service has the same derived image. -/
def LastOf (derived : Mapping) (services : List String) (service : String) : Prop :=
  ∃ before after, services = before ++ service :: after ∧
    ∀ later ∈ after, Value.entry derived later ≠ Value.entry derived service

theorem processArg_injective {v v' : Value} {arg : Arg} (h : processArg v = .ok arg)
    (h' : processArg v' = .ok arg) : v = v' := by
  cases v <;> cases h <;> cases v' <;> cases h' <;> rfl

theorem deriveImage_wp {engine : Value} {base derived : Mapping} {kinds : List String}
    {service : String} :
    (deriveImage rt engine base derived kinds service).wp onBuildHost
      (ImageCall.Allowed rt readString commands)
      (fun _ w' => ∃ tag, processArg (Value.entry derived service) = .ok tag ∧
        w' = w.derive tag ((Value.entry base service).toStr rt) (serviceContext service)) w := by
  unfold deriveImage
  split
  · trivial
  · refine wp_bind (wp_done fun engineArg _ => wp_bind (wp_done fun tag htag => ?_))
    refine ⟨serviceContext_mem service, fun _ w' hev => ?_⟩
    exact ⟨tag, htag, (hev.2 _ rfl).2⟩

theorem deriveImages_wp {engine : Value} {base derived : Mapping} {kinds services : List String} :
    (deriveImages rt engine base derived kinds services).wp onBuildHost
      (ImageCall.Allowed rt readString commands)
      (fun _ w' => w'.packages = w.packages ∧ w'.contexts = w.contexts ∧
        (∀ tag, (∀ s ∈ services, processArg (Value.entry derived s) ≠ .ok tag) →
          w'.images tag = w.images tag) ∧
        ∀ s, LastOf derived services s → BuiltFrom rt base derived s w') w := by
  induction services generalizing w with
  | nil =>
    refine ⟨rfl, rfl, fun _ _ => rfl, ?_⟩
    rintro s ⟨before, after, h, -⟩
    exact absurd h (by simp)
  | cons service services ih =>
    refine wp_bind (wp_mono deriveImage_wp ?_)
    rintro _ _ ⟨tag, htag, rfl⟩
    refine wp_mono ih ?_
    rintro _ w' ⟨hpackages, hcontexts, hframe, hlast⟩
    refine ⟨hpackages, hcontexts, fun other hother => ?_, fun s hs => ?_⟩
    · obtain ⟨hfirst, hrest⟩ := List.forall_mem_cons.mp hother
      have hne : other ≠ tag := fun heq => hfirst (heq ▸ htag)
      rw [hframe other hrest, BuildHost.images_derive, if_neg hne]
    · obtain ⟨before, after, hsplit, hlater⟩ := hs
      cases before with
      | nil =>
        -- The image of the first service stays, as no later one has its tag.
        obtain ⟨rfl, rfl⟩ := List.cons.inj hsplit
        refine ⟨tag, htag, ?_⟩
        have hkept := hframe tag fun s hs heq => hlater s hs (processArg_injective heq htag)
        rw [hkept, BuildHost.images_derive, if_pos rfl, BuildHost.image_congr hcontexts]
        rfl
      | cons first before =>
        obtain ⟨-, hsplit⟩ := List.cons.inj hsplit
        exact hlast s ⟨before, after, hsplit, hlater⟩

/-- What a build leaves. -/
structure Built (rt : PyRuntime) (readString : String → Option ParsedConfig)
    (base derived : Mapping) (w : BuildHost) : Prop where
  prepared : ∀ build ∈ pluginBuilds, Prepared rt readString build w
  images : ∀ service, LastOf derived imageServices service → BuiltFrom rt base derived service w

theorem buildImages_wp (data : Mapping) :
    (buildImages rt readString data).wp onBuildHost (ImageCall.Allowed rt readString commands)
      (fun _ w' => ∃ base derived, imageMappings data = .ok (base, derived) ∧
        Built rt readString base derived w') w := by
  refine wp_bind (wp_done ?_)
  rintro ⟨base, derived⟩ hmappings
  refine wp_bind (wp_mono (preparePlugins_wp (List.Subset.refl _) (by decide)) ?_)
  rintro kinds w₁ ⟨hprepared, -, -⟩
  refine wp_bind (wp_mono deriveImages_wp ?_)
  rintro _ w₂ ⟨hpackages, hcontexts, -, hlast⟩
  refine ⟨base, derived, hmappings, fun build hbuild => ?_, hlast⟩
  unfold Prepared
  rw [hpackages, hcontexts]
  exact hprepared build hbuild

/-! ## Publishing -/

def derivedImages (derived : Mapping) : List Value := imageServices.map (Value.entry derived)

theorem registryHost_text {image : Value} {host : String} (h : registryHost image = .ok host) :
    ∃ s, image = .str s := by
  cases image with
  | str s => exact ⟨s, rfl⟩
  | _ => cases h

theorem confirmRegistry_spec {confirm : String} {images : List Value}
    (h : confirmRegistry confirm images = .ok true) :
    ∀ image ∈ images, registryHost image = .ok confirm := by
  induction images with
  | nil => exact List.forall_mem_nil _
  | cons image images ih =>
    obtain ⟨host, hhost, h⟩ := pyBind_ok.mp h
    obtain ⟨rest, hrest, h⟩ := pyBind_ok.mp h
    obtain ⟨hconfirm, rfl⟩ := Bool.and_eq_true_iff.mp (Except.ok.inj h)
    exact List.forall_mem_cons.mpr ⟨beq_iff_eq.mp hconfirm ▸ hhost, ih hrest⟩

section Publish

variable {P : BuildHost → ∀ {τ : Type}, ImageCall τ → Prop} {engine : Value} {images : List Value}

/-- All images are there. -/
def Present (images : List Value) (w : BuildHost) : Prop :=
  ∀ image ∈ images, ∃ tag, processArg image = .ok tag ∧ (w.images tag).isSome = true

theorem eachInspect_wp (hP : ∀ engine tag, P w (.inspect engine tag)) :
    (eachImage .inspect engine images).wp onBuildHost P
      (fun _ w' => w' = w ∧ Present images w) w := by
  induction images with
  | nil => exact ⟨rfl, List.forall_mem_nil _⟩
  | cons image images ih =>
    refine wp_bind (wp_done fun engineArg _ => wp_bind (wp_done fun tag htag => ?_))
    refine wp_bind ⟨hP engineArg tag, fun _ w₁ hev => ?_⟩
    obtain ⟨rfl, hreply⟩ := hev
    refine wp_mono (p := eachImage .inspect engine images) ih ?_
    rintro _ _ ⟨rfl, hpresent⟩
    exact ⟨rfl, List.forall_mem_cons.mpr ⟨⟨tag, htag, hreply _ rfl⟩, hpresent⟩⟩

/-- The images of the engine are in the registry, and only they have changed there. -/
structure Pushed (images : List Value) (w w' : BuildHost) : Prop where
  packages : w'.packages = w.packages
  contexts : w'.contexts = w.contexts
  kept : w'.images = w.images
  pushed : ∀ image ∈ images, ∃ tag, processArg image = .ok tag ∧ w'.registry tag = w.images tag
  registry : ∀ tag, w'.registry tag = w.registry tag ∨ w'.registry tag = w.images tag

theorem eachPush_wp
    (hP : ∀ u engine, u.images = w.images → ∀ image ∈ images, ∀ tag, processArg image = .ok tag →
      P u (.push engine tag)) :
    (eachImage .push engine images).wp onBuildHost P (fun _ w' => Pushed images w w') w := by
  induction images generalizing w with
  | nil => exact ⟨rfl, rfl, rfl, List.forall_mem_nil _, fun _ => .inl rfl⟩
  | cons image images ih =>
    refine wp_bind (wp_done fun engineArg _ => wp_bind (wp_done fun tag htag => ?_))
    refine wp_bind ⟨hP w engineArg rfl image List.mem_cons_self tag htag, fun _ w₁ hev => ?_⟩
    obtain ⟨-, rfl⟩ := hev.2 _ rfl
    have hlater : ∀ u engine, u.images = (w.publish tag).images → ∀ image ∈ images, ∀ tag,
        processArg image = .ok tag → P u (.push engine tag) :=
      fun u engine hu image himage => hP u engine hu image (List.mem_cons_of_mem _ himage)
    refine wp_mono (p := eachImage .push engine images) (ih hlater) fun _ w' h => ?_
    have hkept : ∀ other, w'.registry other = w.registry other ∨
        w'.registry other = w.images other := by
      intro other
      rcases h.registry other with hold | hnew
      · rw [hold, BuildHost.registry_publish]
        split
        · rename_i heq
          exact .inr (heq ▸ rfl)
        · exact .inl rfl
      · exact .inr hnew
    refine ⟨h.packages, h.contexts, h.kept, List.forall_mem_cons.mpr ⟨⟨tag, htag, ?_⟩, h.pushed⟩,
      hkept⟩
    rcases h.registry tag with hold | hnew
    · rw [hold, BuildHost.registry_publish, if_pos rfl]
    · exact hnew

theorem publishImages_wp {data : Mapping} {confirm : String}
    (hP : ∀ u engine tag, P u (.inspect engine tag))
    (hpush : ∀ base derived, imageMappings data = .ok (base, derived) →
      (∀ image ∈ derivedImages derived, registryHost image = .ok confirm) →
      Present (derivedImages derived) w → ∀ u engine, u.images = w.images →
      ∀ image ∈ derivedImages derived, ∀ tag, processArg image = .ok tag → P u (.push engine tag)) :
    (publishImages data confirm).wp onBuildHost P
      (fun _ w' => ∃ base derived, imageMappings data = .ok (base, derived) ∧
        (∀ image ∈ derivedImages derived, registryHost image = .ok confirm) ∧
        Pushed (derivedImages derived) w w') w := by
  refine wp_bind (wp_done ?_)
  rintro ⟨base, derived⟩ hmappings
  refine wp_bind (wp_done fun confirmed hconfirmed => ?_)
  split
  · trivial
  · rename_i htrue
    rw [Bool.not_eq_true, Bool.not_eq_false'] at htrue
    obtain rfl := htrue
    have hhosts := confirmRegistry_spec hconfirmed
    refine wp_bind (wp_mono (eachInspect_wp fun engine tag => hP w engine tag) ?_)
    rintro _ _ ⟨rfl, hpresent⟩
    refine wp_bind (wp_mono (eachPush_wp (hpush base derived hmappings hhosts hpresent)) ?_)
    intro _ w' hpushed
    exact ⟨base, derived, hmappings, hhosts, hpushed⟩

end Publish

end Wp

/-! ## Commands after one another -/

theorem loadConfig_wp {P : BuildHost → ∀ {τ : Type}, ImageCall τ → Prop} (hP : P w .safeLoad) :
    loadConfig.wp onBuildHost P (fun _ w' => w' = w) w := by
  refine ⟨hP, fun loaded w' hev => ?_⟩
  obtain ⟨rfl, -⟩ := hev
  beta_reduce
  split
  · rfl
  · trivial

theorem run_allowed {command : Command} (hcommand : command ∈ commands) :
    (command.run rt readString).wp onBuildHost (ImageCall.Allowed rt readString commands)
      (fun _ _ => True) w := by
  cases command with
  | buildImages =>
    refine wp_bind (wp_mono (loadConfig_wp trivial) fun data w' _ => ?_)
    exact wp_mono (buildImages_wp data) fun _ _ _ => trivial
  | publishImages confirm =>
    refine wp_bind (wp_mono (loadConfig_wp trivial) fun data w' _ => ?_)
    refine wp_mono (publishImages_wp (fun _ _ _ => trivial) ?_) fun _ _ _ => trivial
    intro base derived _ hhosts _ u engine _ image himage tag htag
    obtain ⟨text, rfl⟩ := registryHost_text (hhosts image himage)
    exact ⟨confirm, hcommand, text, (Except.ok.inj htag).symm, hhosts _ himage⟩

variable (rt readString) in
/-- Commands one after another, each of which may be stopped anywhere. -/
inductive Operated : List Command → BuildHost → BuildHost → Prop where
  | nil {w : BuildHost} : Operated [] w w
  | cons {command : Command} {commands : List Command} {w w₁ w₂ : BuildHost}
      {tr : List (Event ImageCall CliError)} {p : ImageOp (List Value)} :
      Steps (command.run rt readString) tr p → Drives onBuildHost w tr w₁ →
      Operated commands w₁ w₂ → Operated (command :: commands) w w₂

theorem Operated.traced {some : List Command} (h : Operated rt readString some w' w'')
    (hsome : some ⊆ commands) (hw : Traced rt readString commands w w') :
    Traced rt readString commands w w'' := by
  induction h with
  | nil => exact hw
  | cons hsteps hdrives _ ih =>
    obtain ⟨hcommand, hrest⟩ := List.cons_subset.mp hsome
    refine ih hrest (wp_invariant ?_ hsteps hdrives (run_allowed hcommand) hw)
    intro u ev u' hu hallowed hev
    exact hu.step hallowed hev

/-- **Provenance.** From contexts whose wheels all declare their entry point, whatever commands are
run and wherever each of them stops: an image that was not there before is made from wheels that
declare their entry point, at least one, and nothing comes into a registry but such an image or one
that was there, under the name of a registry that a publication was confirmed for. -/
theorem operated_provenance (h : Operated rt readString commands w w')
    (hw : w.Clean rt readString) : Traced rt readString commands w w' :=
  h.traced (List.Subset.refl _) (Traced.refl hw)

def exampleCommands : List Command := [.buildImages, .publishImages exampleRegistry]

def examplePublished : BuildHost :=
  exampleAfter (.publishImages exampleRegistry) (exampleAfter .buildImages exampleHost)

theorem exampleAfter_operated (command : Command) (h : Operated .ascii exampleRead commands
    (exampleAfter command w) w') :
    Operated .ascii exampleRead (command :: commands) w w' := by
  obtain ⟨hsteps, hdrives⟩ := Prog.simulate_finishes (hostSim_sound (.dict exampleGlobals)
    exampleDists) (command.run .ascii exampleRead) w
  exact .cons hsteps hdrives h

theorem examplePublished_registry :
    (examplePublished.registry (.text (exampleImage "masakari-engine"))).isSome = true := by
  decide +kernel

theorem operated_provenance_example :
    (examplePublished.registry (.text (exampleImage "masakari-engine"))).isSome = true ∧
      Traced .ascii exampleRead exampleCommands exampleHost examplePublished := by
  refine ⟨examplePublished_registry, operated_provenance ?_ fun _ _ _ _ h => ?_⟩
  · exact exampleAfter_operated _ (exampleAfter_operated _ .nil)
  · cases h

/-! ## One publication -/

/-- The host without the registry. -/
structure SameImages (w w' : BuildHost) : Prop where
  packages : w'.packages = w.packages
  contexts : w'.contexts = w.contexts
  images : w'.images = w.images

theorem SameImages.refl : SameImages w w := ⟨rfl, rfl, rfl⟩

theorem SameImages.publish (h : SameImages w w') (tag : Arg) : SameImages w (w'.publish tag) :=
  ⟨h.packages, h.contexts, h.images⟩

/-- What a publication of these images may have done so far. -/
structure Publishing (images : List Value) (w w' : BuildHost) : Prop where
  same : SameImages w w'
  registry : ∀ tag, w'.registry tag = w.registry tag ∨
    (∃ image ∈ images, processArg image = .ok tag) ∧ w'.registry tag = w.images tag

/-- When a publication may push. -/
def PushAllowed (data : Mapping) (confirm : String) (w : BuildHost) (_ : BuildHost) {τ : Type} :
    ImageCall τ → Prop
  | .safeLoad => True
  | .inspect _ _ => True
  | .push _ tag => ∃ base derived, imageMappings data = .ok (base, derived) ∧
      (∀ image ∈ derivedImages derived, registryHost image = .ok confirm) ∧
      Present (derivedImages derived) w ∧
      ∃ image ∈ derivedImages derived, processArg image = .ok tag
  | _ => False

variable (w) in
/-- Either nothing has happened yet, or all was in order before. -/
def Cautious (data : Mapping) (confirm : String) (w' : BuildHost) : Prop :=
  w' = w ∨ ∃ base derived, imageMappings data = .ok (base, derived) ∧
    (∀ image ∈ derivedImages derived, registryHost image = .ok confirm) ∧
    Present (derivedImages derived) w ∧ Publishing (derivedImages derived) w w'

theorem publishImages_allowed (data : Mapping) (confirm : String) :
    (publishImages data confirm).wp onBuildHost (PushAllowed data confirm w) (fun _ _ => True) w := by
  refine wp_mono (publishImages_wp (fun _ _ _ => trivial) ?_) fun _ _ _ => trivial
  intro base derived hmappings hhosts hpresent u engine _ image himage tag htag
  exact ⟨base, derived, hmappings, hhosts, hpresent, image, himage, htag⟩

theorem Cautious.step {data : Mapping} {confirm : String} (h : Cautious w data confirm w')
    {ev : Event ImageCall CliError} (hallowed : PushAllowed data confirm w w' ev.op)
    (hev : onBuildHost w' ev w'') : Cautious w data confirm w'' := by
  obtain ⟨hreach, -⟩ := hev
  obtain ⟨op, x⟩ := ev
  cases op with
  | safeLoad | inspect =>
    cases hreach
    exact h
  | push engine tag =>
    rcases hreach with rfl | ⟨-, rfl⟩
    · exact h
    obtain ⟨base, derived, hmappings, hhosts, hpresent, image, himage, htag⟩ := hallowed
    have hso_far : Publishing (derivedImages derived) w w' := by
      rcases h with rfl | ⟨base', derived', hmappings', -, -, hpublishing⟩
      · exact ⟨SameImages.refl, fun _ => .inl rfl⟩
      · cases hmappings.symm.trans hmappings'
        exact hpublishing
    refine .inr ⟨base, derived, hmappings, hhosts, hpresent, hso_far.same.publish tag, fun other => ?_⟩
    rw [BuildHost.registry_publish]
    split
    · rename_i heq
      subst heq
      exact .inr ⟨⟨image, himage, htag⟩, by rw [hso_far.same.images]⟩
    · exact hso_far.registry other
  | buildWheel | glob | openWheel | copyWheel | engineBuild => exact hallowed.elim

/-- **All or nothing.** Wherever a publication stops, either it has changed nothing, or all derived
images name the registry that was confirmed, all of them are there, and what has changed is that some
of them are in the registry as they are here. -/
theorem publish_confirmed {data : Mapping} {confirm : String} {tr : List (Event ImageCall CliError)}
    {p : ImageOp (List Value)} (hsteps : Steps (publishImages data confirm) tr p)
    (hdrives : Drives onBuildHost w tr w') : Cautious w data confirm w' := by
  refine wp_invariant ?_ hsteps hdrives (publishImages_allowed data confirm) (.inl rfl)
  intro u ev u' hu hallowed hev
  exact hu.step hallowed hev

def exampleRun (p : ImageOp (List Value)) (w : BuildHost) :
    List (Event ImageCall CliError) × Except CliError (List Value) × BuildHost :=
  p.simulate exampleSim w

theorem exampleRun_runs {p : ImageOp (List Value)} (h : (exampleRun p w).2.1.isOk = true) :
    ∃ images, Runs onBuildHost w p (exampleRun p w).1 (.ok images) (exampleRun p w).2.2 := by
  obtain ⟨images, himages⟩ := ok_of_isOk h
  exact ⟨images, Prog.simulate_returns (hostSim_sound (.dict exampleGlobals) exampleDists) himages⟩

def exampleBuild : ImageOp (List Value) := buildImages .ascii exampleRead exampleGlobals

def exampleBuilt : BuildHost := (exampleRun exampleBuild exampleHost).2.2

theorem exampleBuild_ok : (exampleRun exampleBuild exampleHost).2.1.isOk = true := by
  decide +kernel

def examplePublish : ImageOp (List Value) := publishImages exampleGlobals exampleRegistry

theorem examplePublish_ok : (exampleRun examplePublish exampleBuilt).2.1.isOk = true := by
  decide +kernel

theorem publish_confirmed_example :
    Cautious exampleBuilt exampleGlobals exampleRegistry (exampleRun examplePublish exampleBuilt).2.2 := by
  obtain ⟨images, hruns⟩ := exampleRun_runs examplePublish_ok
  exact publish_confirmed hruns.1 hruns.2

/-! ## A build and its publication -/

/-- The call builds nothing. -/
def ImageCall.Publishes {τ : Type} : ImageCall τ → Prop
  | .buildWheel _ => False
  | .copyWheel _ _ _ => False
  | .engineBuild _ _ _ _ => False
  | _ => True

theorem SameImages.step (h : SameImages w w') {ev : Event ImageCall CliError}
    (hop : ev.op.Publishes) (hev : onBuildHost w' ev w'') : SameImages w w'' := by
  obtain ⟨hreach, -⟩ := hev
  obtain ⟨op, x⟩ := ev
  cases op with
  | safeLoad | glob | openWheel | inspect =>
    cases hreach
    exact h
  | push engine tag =>
    rcases hreach with rfl | ⟨-, rfl⟩
    · exact h
    · exact h.publish tag
  | buildWheel | copyWheel | engineBuild => exact hop.elim

/-- Publications leave the images that are published. -/
theorem Operated.same {publications : List Command}
    (h : Operated rt readString publications w' w'')
    (hpublications : ∀ command ∈ publications, ∃ confirm, command = .publishImages confirm)
    (hw : SameImages w w') : SameImages w w'' := by
  induction h with
  | nil => exact hw
  | @cons command commands u u₁ u₂ tr p hsteps hdrives _ ih =>
    obtain ⟨⟨confirm, rfl⟩, hrest⟩ := List.forall_mem_cons.mp hpublications
    refine ih hrest (wp_invariant (P := fun _ => ImageCall.Publishes) (Q := fun _ _ => True) ?_ hsteps
      hdrives ?_ hw)
    · intro v ev v' hv hop hev
      exact hv.step hop hev
    · refine wp_bind (wp_mono (loadConfig_wp trivial) fun data u' _ => ?_)
      refine wp_mono (publishImages_wp (fun _ _ _ => trivial) ?_) fun _ _ _ => trivial
      exact fun _ _ _ _ _ _ _ _ _ _ _ _ => trivial

theorem LastOf.mem {derived : Mapping} {services : List String} {service : String}
    (h : LastOf derived services service) : service ∈ services := by
  obtain ⟨before, after, rfl, -⟩ := h
  exact List.mem_append_right before List.mem_cons_self

variable (rt readString) in
/-- In the registry there is, under the name of the derived image, an image that is made from the base
image, with the newest wheel of the service's plugin. -/
def Delivered (base : Mapping) (w : BuildHost) (service image : String) (w' : BuildHost) : Prop :=
  ∃ build ∈ pluginBuilds, build.context = serviceContext service ∧
    ∃ c wheel, Newest (w.packages build.package) build.wheel c ∧
      (w.packages build.package).get? c.2 = some ⟨c.1, some wheel⟩ ∧
      Declares rt readString build wheel ∧
      ∃ i, w'.registry (.text image) = some i ∧ i.base = (Value.entry base service).toStr rt ∧
        i.context = serviceContext service ∧ (c.2, wheel) ∈ i.wheels

/-- What was prepared is in the image. -/
theorem Prepared.wheel_mem {build : PluginBuild} (hbuild : build ∈ pluginBuilds) {c : Candidate}
    {wheel : Archive} (hnewest : Newest (w.packages build.package) build.wheel c)
    (hcopied : (w.contexts build.context).get? c.2 = some (some wheel)) (base : String) :
    (c.2, wheel) ∈ (w.image base build.context).wheels := by
  refine List.mem_filterMap.mpr ⟨(c.2, some wheel), List.mem_filter.mpr ⟨?_, ?_⟩, rfl⟩
  · exact OrderedDict.mem_entries.mpr hcopied
  · exact wheel_endsWith hbuild hnewest.1.1

/-- **Delivery.** After a build that ran to its end, and any publications, a publication with the same
configuration that runs to its end delivers every service its image: unless a later service has the
same derived image, which then is that one's. -/
theorem published {data : Mapping} {confirm : String} {w₁ w₂ w₃ : BuildHost}
    {tr tr' : List (Event ImageCall CliError)} {images images' : List Value}
    {publications : List Command}
    (hbuild : Runs onBuildHost w (buildImages rt readString data) tr (.ok images) w₁)
    (hbetween : Operated rt readString publications w₁ w₂)
    (hpublications : ∀ command ∈ publications, ∃ confirm, command = .publishImages confirm)
    (hpublish : Runs onBuildHost w₂ (publishImages data confirm) tr' (.ok images') w₃) :
    ∃ base derived, imageMappings data = .ok (base, derived) ∧
      ∀ service, LastOf derived imageServices service →
        ∃ image, Value.entry derived service = .str image ∧
          registryHost (.str image) = .ok confirm ∧
          Delivered rt readString base w₁ service image w₃ := by
  have hwp : (buildImages rt readString data).wp onBuildHost (ImageCall.Allowed rt readString [])
      (fun _ w' => ∃ base derived, imageMappings data = .ok (base, derived) ∧
        Built rt readString base derived w') w := buildImages_wp data
  obtain ⟨base, derived, hmappings, hbuilt⟩ := wp_steps hbuild.1 hbuild.2 hwp
  have hpublished := wp_steps hpublish.1 hpublish.2
    (publishImages_wp (P := fun _ _ _ => True) (fun _ _ _ => trivial)
      fun _ _ _ _ _ _ _ _ _ _ _ _ => trivial)
  obtain ⟨base', derived', hmappings', hhosts, hpushed⟩ := hpublished
  cases hmappings.symm.trans hmappings'
  have hsame := hbetween.same hpublications SameImages.refl
  refine ⟨base, derived, hmappings, fun service hlast => ?_⟩
  have hderived : Value.entry derived service ∈ derivedImages derived :=
    List.mem_map_of_mem hlast.mem
  obtain ⟨image, himage⟩ := registryHost_text (hhosts _ hderived)
  refine ⟨image, himage, himage ▸ hhosts _ hderived, ?_⟩
  obtain ⟨tag, htag, hregistry⟩ := hpushed.pushed _ hderived
  obtain ⟨tag', htag', hmade⟩ := hbuilt.images service hlast
  cases htag.symm.trans htag'
  obtain ⟨build, hplugin, hcontext⟩ := serviceContext_mem service
  obtain ⟨c, wheel, hnewest, hfile, hdeclares, hcopied⟩ := hbuilt.prepared build hplugin
  have htext : tag = .text image := by
    rw [himage] at htag
    exact (Except.ok.inj htag).symm
  rw [htext, hsame.images, ← htext, hmade, ← hcontext] at hregistry
  exact ⟨build, hplugin, hcontext, c, wheel, hnewest, hfile, hdeclares, _, htext ▸ hregistry, rfl,
    hcontext, Prepared.wheel_mem hplugin hnewest hcopied _⟩

theorem published_example :
    ∃ image, Value.entry (imageServices.map fun s => (.str s, .str (exampleImage s))) "mistral-api" =
        .str image ∧ registryHost (.str image) = .ok exampleRegistry ∧
      Delivered .ascii exampleRead
        (imageServices.map fun s => (.str s, .str (exampleRegistry ++ "/" ++ s)))
        exampleBuilt "mistral-api" image (exampleRun examplePublish exampleBuilt).2.2 := by
  obtain ⟨images, hbuild⟩ := exampleRun_runs exampleBuild_ok
  obtain ⟨images', hpublish⟩ := exampleRun_runs examplePublish_ok
  obtain ⟨base, derived, hmappings, hservice⟩ := published hbuild .nil (List.forall_mem_nil _) hpublish
  have hpair := (Except.ok.inj hmappings).symm
  obtain ⟨rfl, rfl⟩ := Prod.mk.inj hpair
  refine hservice "mistral-api" ⟨[], _, rfl, fun later hlater => ?_⟩
  simp only [List.mem_cons, List.not_mem_nil, or_false] at hlater
  rcases hlater with rfl | rfl | rfl <;> exact fun h => absurd (Value.str.inj h) (by decide)

end Traced

end Cli
end Declared
end KollaPowerOps
