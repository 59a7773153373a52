import KollaPowerOps.Container.DockerCreate

/-!
# Container.Fixpoint

The Docker worker compares a container with the parameters it was created with.

* `Creation`    : what a created container reports of each parameter.
* `Stable`      : the parameters that are read back as they were written.
* `fixpoint_iff` : a container that was created is found the same exactly for those.
-/

namespace KollaPowerOps
namespace Container
namespace Docker

variable {rt : PyRuntime} {parseRepositoryTag : Text → Text × Option Text} {image : Image}
  {p q : Params} {info : ContainerInfo}

/-! ## What is reported -/

theorem parseDimensions_ok {d : Dimensions} {resources : ResourceOptions}
    (h : parseDimensions d = .ok resources) : d.other = [] ∧ resources.scalar = d.scalar ∧
      resources.ulimits.getD [] = buildUlimits ((d.ulimits.getD none).getD .empty) := by
  rw [parseDimensions] at h
  split at h
  · cases h
  · rename_i hother
    cases h
    refine ⟨not_not.mp hother, rfl, ?_⟩
    rcases d.ulimits with _ | _ | ulimits
    · rfl
    · rfl
    · dsimp only [Option.getD_some]
      split
      · rename_i hempty
        rw [buildUlimits, hempty]
        rfl
      · rfl

/-- What a created container reports. -/
structure Creation (rt : PyRuntime) (image : Image) (p : Params) (info : ContainerInfo) : Prop where
  capAdd : info.hostConfig.capAdd = some p.capAdd
  securityOpt : info.hostConfig.securityOpt = some p.securityOpt
  ipcMode : info.hostConfig.ipcMode = p.ipcMode.map IpcMode.text
  pidMode : info.hostConfig.pidMode = p.pidMode.map PidMode.text
  cgroupnsMode : info.hostConfig.cgroupnsMode = p.cgroupnsMode.map CgroupnsMode.text
  privileged : info.hostConfig.privileged = p.privileged
  tmpfs : info.hostConfig.tmpfs = (generateTmpfs p).map fun ts => .ofList (ts.map tmpfsMount)
  volumes : ∃ volumes, generateVolumes p.volumes = .ok volumes ∧
    info.config.volumes = volumes.map Volumes.volList ∧
    info.hostConfig.binds = volumes.map fun v => v.volDict.entries.map bindText
  volumesFrom : info.hostConfig.volumesFrom = p.volumesFrom
  resources : ∃ resources, parseDimensions p.dimensions = .ok resources ∧
    info.hostConfig.resources = hostResources resources
  imageName : info.config.image = p.image
  imageId : info.image = image.id
  labels : info.config.labels = image.labels.update p.labels
  env : info.config.env = (image.env.update (envTexts rt (formatEnvVars p))).entries.map envEntry
  healthcheck : parseHealthcheck rt p.healthcheck = .ok info.config.healthcheck
  command : ∃ words, commandWords image p.command = .ok words ∧ info.path = words.headD [] ∧
    info.args = words.tail
  status : info.status = p.state.text
  limits : ∀ l v, p.dimensions.scalar (.limit l) = some (some v) → ∃ n, limitNumber v = some n
  paths : ∀ t ∈ (generateTmpfs p).getD [], (tmpfsMount t).1 ≠ []
  destinations : [] ∉ info.config.volumes.getD []

/-- What the options must be for a container to come of them. -/
theorem not_refused {o : ContainerOptions} (h : refused o = false) :
    (∀ l v, o.hostConfig.resources.scalar (.limit l) = some (some v) → ∃ n, limitNumber v = some n) ∧
      (∀ t ∈ o.hostConfig.tmpfs.getD [], (tmpfsMount t).1 ≠ []) ∧ [] ∉ o.volumes.getD [] := by
  rw [refused, Bool.or_eq_false_iff, Bool.or_eq_false_iff, List.any_eq_false, List.any_eq_false,
    List.any_eq_false] at h
  obtain ⟨⟨hlimits, hpaths⟩, hdestinations⟩ := h
  refine ⟨fun l v hv => ?_, fun t ht hnil => ?_, fun hmem => ?_⟩
  · have hl := hlimits (.limit l) (mem_dimensionMap _)
    rw [hv] at hl
    exact Option.ne_none_iff_exists'.mp (by simpa using hl)
  · exact hpaths t ht (decide_eq_true hnil)
  · exact hdestinations [] hmem (decide_eq_true rfl)

theorem creation_of_created (h : created rt image p = .ok info) : Creation rt image p info := by
  rw [created, pyBind_ok] at h
  obtain ⟨o, ho, h⟩ := h
  rw [pyBind_ok] at h
  obtain ⟨words, hwords, h⟩ := h
  have hrefused : refused o = false := by
    by_contra hrefused
    rw [Bool.not_eq_false] at hrefused
    rw [if_pos hrefused] at h
    cases h
  rw [hrefused] at h
  cases h
  rw [buildContainerOptions, pyBind_ok] at ho
  obtain ⟨volumes, hvolumes, ho⟩ := ho
  rw [pyBind_ok] at ho
  obtain ⟨hostConfig, hhost, ho⟩ := ho
  rw [pyBind_ok] at ho
  obtain ⟨healthcheck, hhealth, ho⟩ := ho
  cases ho
  rw [buildHostConfig, pyBind_ok] at hhost
  obtain ⟨resources, hresources, hhost⟩ := hhost
  cases hhost
  obtain ⟨hlimits, hpaths, hdestinations⟩ := not_refused hrefused
  have hscalar : resources.scalar = p.dimensions.scalar := (parseDimensions_ok hresources).2.1
  refine ⟨rfl, rfl, rfl, rfl, rfl, rfl, rfl, ⟨volumes, hvolumes, rfl, ?_⟩, rfl,
    ⟨resources, hresources, rfl⟩, rfl, rfl, rfl, rfl, hhealth, ⟨words, hwords, rfl, rfl⟩, rfl,
    fun l v hv => hlimits l v ?_, hpaths, hdestinations⟩
  · cases volumes <;> rfl
  · exact (congrFun hscalar _).trans hv

/-! ## The comparisons that always agree -/

theorem capAdd_eq_false (h : Creation rt image p info) :
    compareCapAdd q info = false ↔ ∀ t, t ∈ q.capAdd ↔ t ∈ p.capAdd := by
  rw [compareCapAdd, h.capAdd, setsDiffer_eq_false]
  rfl

theorem securityOpt_same (h : Creation rt image p info) (hq : q.securityOpt = p.securityOpt) :
    compareSecurityOpt q info = false := by
  rw [compareSecurityOpt, h.securityOpt, hq]
  split
  · rfl
  · exact setsDiffer_eq_false.mpr fun t => Iff.rfl

theorem image_same (h : Creation rt image p info) (hq : q.image = p.image) :
    compareImage parseRepositoryTag q (some image) info = false := by
  rw [compareImage, h.imageId, h.imageName, hq]
  simp

theorem ipcMode_same (h : Creation rt image p info) (hq : q.ipcMode = p.ipcMode) :
    compareIpcMode q info = false := by
  rw [compareIpcMode, h.ipcMode, hq]
  cases p.ipcMode <;> simp

theorem privileged_same (h : Creation rt image p info) (hq : q.privileged = p.privileged) :
    comparePrivileged q info = false := by
  rw [comparePrivileged, h.privileged, hq]
  simp

theorem pidMode_same (h : Creation rt image p info) (hq : q.pidMode = p.pidMode) :
    comparePidMode q info = false := by
  rw [comparePidMode, h.pidMode, hq]
  rcases p.pidMode with _ | _ | _ <;> decide

theorem cgroupnsMode_same (h : Creation rt image p info) (hq : q.cgroupnsMode = p.cgroupnsMode) :
    compareCgroupnsMode q info = false := by
  rw [compareCgroupnsMode, h.cgroupnsMode, hq]
  rcases p.cgroupnsMode with _ | _ | _ <;> rfl

theorem volumesFrom_eq_false (h : Creation rt image p info) :
    compareVolumesFrom q info = false ↔
      ∀ t, t ∈ p.volumesFrom.getD [] ↔ t ∈ q.volumesFrom.getD [] := by
  rw [compareVolumesFrom, h.volumesFrom, setsDiffer_eq_false]

theorem state_same (h : Creation rt image p info) (hq : q.state = p.state) :
    compareContainerState q info = false := by
  rw [compareContainerState, h.status, hq]
  simp

theorem volumes_same (h : Creation rt image p info) (hq : q.volumes = p.volumes) :
    compareVolumes q info = .ok false := by
  obtain ⟨volumes, hvolumes, hlist, hbinds⟩ := h.volumes
  have hsets : setsDiffer (volumes.getD {}).volList (info.config.volumes.getD []) = false := by
    rw [hlist]
    cases volumes <;> exact setsDiffer_eq_false.mpr fun t => Iff.rfl
  have hbinds' : setsDiffer ((volumes.getD {}).volDict.entries.map bindText)
      (info.hostConfig.binds.getD []) = false := by
    rw [hbinds]
    cases volumes <;> exact setsDiffer_eq_false.mpr fun t => Iff.rfl
  rw [compareVolumes, hq, hvolumes]
  simp only [bind, Except.bind, hsets, hbinds']
  rfl

theorem healthcheck_same (h : Creation rt image p info) (hq : q.healthcheck = p.healthcheck) :
    compareHealthcheck rt q info = .ok false := by
  rw [compareHealthcheck, hq, h.healthcheck]
  cases hh : info.config.healthcheck <;> simp [bind, Except.bind, pure, Except.pure]

/-! ## Labels -/

/-- The requested labels say nothing else than those of the image. -/
def LabelsAgree (image : Image) (new : OrderedDict Text Text) : Prop :=
  ∀ k v v', image.labels.get? k = some v → new.get? k = some v' → v = v'

theorem withoutImageLabels_agree {new : OrderedDict Text Text} {es : List (Text × Text)}
    {current : OrderedDict Text Text} (hkeys : ∀ e ∈ es, e.1 ∈ current.keys)
    (hnodup : (es.map Prod.fst).Nodup) (hagree : ∀ e ∈ es, ∀ v', new.get? e.1 = some v' → e.2 = v') :
    ∃ rest, withoutImageLabels new es current = .ok (some rest) ∧ ∀ k, rest.get? k =
      if k ∈ es.map Prod.fst ∧ new.get? k = none then none else current.get? k := by
  induction es generalizing current with
  | nil => exact ⟨current, rfl, fun k => by simp⟩
  | cons e es ih =>
    obtain ⟨k₀, v₀⟩ := e
    obtain ⟨hkey, hkeys⟩ := List.forall_mem_cons.mp hkeys
    obtain ⟨hsame, hagree⟩ := List.forall_mem_cons.mp hagree
    rw [List.map_cons, List.nodup_cons] at hnodup
    dsimp only at hnodup hkey hsame
    rw [withoutImageLabels]
    cases hnew : new.get? k₀ with
    | some v' =>
      have hv : v₀ = v' := hsame v' hnew
      obtain ⟨rest, hrest, hget⟩ := ih hkeys hnodup.2 hagree
      refine ⟨rest, (if_neg (not_not.mpr hv)).trans hrest, fun k => ?_⟩
      rw [hget k, List.map_cons]
      by_cases hk : k = k₀
      · subst hk
        simp [hnew]
      · simp only [List.mem_cons, hk, false_or]
    | none =>
      have hkeys' : ∀ e ∈ es, e.1 ∈ (current.erase k₀).keys := by
        intro e he
        obtain ⟨v, hv⟩ := OrderedDict.mem_keys.mp (hkeys e he)
        refine OrderedDict.mem_keys.mpr ⟨v, ?_⟩
        have hne : e.1 ≠ k₀ := by
          rintro rfl
          exact hnodup.1 (List.mem_map_of_mem he)
        rw [OrderedDict.get?_erase, if_neg hne, hv]
      obtain ⟨rest, hrest, hget⟩ := ih hkeys' hnodup.2 hagree
      refine ⟨rest, (if_pos hkey).trans hrest, fun k => ?_⟩
      rw [hget k, OrderedDict.get?_erase, List.map_cons]
      by_cases hk : k = k₀
      · subst hk
        simp [hnew]
      · rw [if_neg hk]
        simp only [List.mem_cons, hk, false_or]

theorem withoutImageLabels_ok {new : OrderedDict Text Text} {es : List (Text × Text)}
    {current rest : OrderedDict Text Text} (h : withoutImageLabels new es current = .ok (some rest)) :
    ∀ e ∈ es, ∀ v', new.get? e.1 = some v' → e.2 = v' := by
  induction es generalizing current with
  | nil => exact fun e he => by cases he
  | cons e es ih =>
    obtain ⟨k₀, v₀⟩ := e
    rw [withoutImageLabels] at h
    cases hnew : new.get? k₀ with
    | some v' =>
      rw [hnew] at h
      dsimp only at h
      split at h
      · cases h
      · rename_i hv
        refine List.forall_mem_cons.mpr ⟨fun w hw => ?_, ih h⟩
        rw [hnew, Option.some.injEq] at hw
        rw [← hw]
        exact not_not.mp hv
    | none =>
      rw [hnew] at h
      dsimp only at h
      split at h
      · refine List.forall_mem_cons.mpr ⟨fun w hw => ?_, ih h⟩
        rw [hnew] at hw
        cases hw
      · cases h

/-- The labels are found the same where those of the image are not requested with another value. -/
theorem labels_eq_false (h : Creation rt image p info) :
    compareLabels q (some image) info = .ok false ↔
      LabelsAgree image q.labels ∧ ∀ k, q.labels.get? k =
        if k ∈ image.labels.keys ∧ q.labels.get? k = none then none
        else (p.labels.get? k).or (image.labels.get? k) := by
  have hkeys : ∀ e ∈ image.labels.entries, e.1 ∈ info.config.labels.keys := by
    intro e he
    rw [h.labels, OrderedDict.keys_update, OrderedDict.mem_firsts]
    exact List.mem_append_left _ (List.mem_map_of_mem he)
  have hlift : LabelsAgree image q.labels ↔
      ∀ e ∈ image.labels.entries, ∀ v', q.labels.get? e.1 = some v' → e.2 = v' := by
    constructor
    · intro hagree e he v' hv'
      exact hagree e.1 e.2 v' (OrderedDict.mem_entries.mp he) hv'
    · intro hagree k v v' hv hv'
      exact hagree (k, v) (OrderedDict.mem_entries.mpr hv) v' hv'
  rw [hlift, compareLabels]
  constructor
  · intro hsame
    rw [pyBind_ok] at hsame
    obtain ⟨rest, hrest, hsame⟩ := hsame
    cases rest with
    | none => cases hsame
    | some rest =>
      have hagree := withoutImageLabels_ok hrest
      obtain ⟨rest', hrest', hget⟩ := withoutImageLabels_agree hkeys image.labels.nodup hagree
      rw [hrest, Except.ok.injEq, Option.some.injEq] at hrest'
      subst hrest'
      have hdict : q.labels.same rest = true := by simpa [pure, Except.pure] using hsame
      refine ⟨hagree, fun k => ?_⟩
      refine (OrderedDict.same_iff.mp hdict k).trans ((hget k).trans ?_)
      rw [h.labels, OrderedDict.get?_update]
      rfl
  · rintro ⟨hagree, hall⟩
    obtain ⟨rest, hrest, hget⟩ := withoutImageLabels_agree hkeys image.labels.nodup hagree
    rw [hrest]
    have hdict : q.labels.same rest = true := by
      rw [OrderedDict.same_iff]
      intro k
      rw [hget k, h.labels, OrderedDict.get?_update]
      exact hall k
    simp [bind, Except.bind, pure, Except.pure, hdict]

/-! ## Temporary file systems -/

theorem tmpfs_eq_false (h : Creation rt image p info) :
    compareTmpfs q info = false ↔
      ∀ t, (∃ s ∈ (generateTmpfs p).getD [], (tmpfsMount s).1 = t) ↔ t ∈ (generateTmpfs q).getD [] := by
  rw [compareTmpfs, h.tmpfs, setsDiffer_eq_false]
  refine forall_congr' fun t => iff_congr ?_ Iff.rfl
  cases generateTmpfs p with
  | none => simp
  | some ts =>
    rw [Option.map_some, Option.getD_some, OrderedDict.keys_ofList, OrderedDict.mem_firsts]
    simp

theorem not_mem_tmpfsMount (t : Text) : ':' ∉ (tmpfsMount t).1 := by
  intro hmem
  have hcolon := List.mem_takeWhile_imp hmem
  simp at hcolon

theorem tmpfsMount_eq_self {t : Text} (h : ':' ∉ t) : tmpfsMount t = (t, []) := by
  have hall : ∀ c ∈ t, (decide (c ≠ ':')) = true := by
    intro c hc
    exact decide_eq_true fun heq => h (heq ▸ hc)
  rw [tmpfsMount, List.takeWhile_eq_self_iff.mpr hall, List.dropWhile_eq_nil_iff.mpr hall]
  rfl

/-- A path with options is never found among the paths. -/
theorem tmpfs_same_iff (h : Creation rt image p info) :
    compareTmpfs p info = false ↔ ∀ t ∈ (generateTmpfs p).getD [], ':' ∉ t := by
  rw [tmpfs_eq_false h]
  constructor
  · intro hsame t ht
    obtain ⟨s, _, hs⟩ := (hsame t).mpr ht
    rw [← hs]
    exact not_mem_tmpfsMount s
  · intro hplain t
    constructor
    · rintro ⟨s, hs, rfl⟩
      rw [tmpfsMount_eq_self (hplain s hs)]
      exact hs
    · intro ht
      exact ⟨t, ht, congrArg Prod.fst (tmpfsMount_eq_self (hplain t ht))⟩

/-! ## The environment -/

/-- The parts of an entry, split at the first `=`. -/
def readEnv (kv : Text) : Text × Text := (kv.takeWhile (· ≠ '='), (kv.dropWhile (· ≠ '=')).drop 1)

theorem readEnv_envEntry {e : Text × Text} (h : '=' ∉ e.1) : readEnv (envEntry e) = e := by
  have hall : ∀ c ∈ e.1, (decide (c ≠ '=')) = true := by
    intro c hc
    exact decide_eq_true fun heq => h (heq ▸ hc)
  rw [readEnv, envEntry, List.takeWhile_append_of_pos hall, List.dropWhile_append_of_pos hall]
  simp

theorem not_mem_readEnv (kv : Text) : '=' ∉ (readEnv kv).1 := by
  intro hmem
  have hequals := List.mem_takeWhile_imp hmem
  simp at hequals

theorem mapM_splitEnv (es : List (Text × Text)) :
    (es.map envEntry).mapM splitEnv = .ok ((es.map envEntry).map readEnv) := by
  induction es with
  | nil => rfl
  | cons e es ih =>
    have hequals : '=' ∈ envEntry e := by simp [envEntry]
    rw [List.map_cons, List.mapM_cons, ih, splitEnv, if_pos hequals]
    rfl

/-- The variables of a container, as its entries are read. -/
def currentEnv (info : ContainerInfo) : OrderedDict Text Text := .ofList (info.config.env.map readEnv)

theorem not_mem_currentEnv {k : Text} (h : k ∈ (currentEnv info).keys) : '=' ∉ k := by
  rw [currentEnv, OrderedDict.keys_ofList, OrderedDict.mem_firsts, List.mem_map] at h
  obtain ⟨e, he, rfl⟩ := h
  obtain ⟨kv, _, rfl⟩ := List.mem_map.mp he
  exact not_mem_readEnv kv

/-- The comparison looks at the variables that are requested. -/
theorem environment_eq_false (h : Creation rt image p info) :
    compareEnvironment q info = .ok false ↔ ∀ k v, q.environment.get? k = some v →
      ∃ s, v = .str s ∧ (currentEnv info).get? k = some s.toList := by
  have hentries : (∀ k v, q.environment.get? k = some v →
      ∃ s, v = .str s ∧ (currentEnv info).get? k = some s.toList) ↔
      ∀ e ∈ q.environment.entries, ∃ s, e.2 = .str s ∧ (currentEnv info).get? e.1 = some s.toList := by
    constructor
    · intro hall e he
      exact hall e.1 e.2 (OrderedDict.mem_entries.mp he)
    · intro hall k v hv
      exact hall (k, v) (OrderedDict.mem_entries.mpr hv)
  rw [hentries, compareEnvironment]
  by_cases hempty : q.environment.entries = []
  · rw [if_pos hempty, hempty]
    simp
  · rw [if_neg hempty, h.env, mapM_splitEnv, ← h.env]
    change Except.ok _ = Except.ok false ↔ _
    rw [Except.ok.injEq, List.any_eq_false]
    refine forall₂_congr fun e _ => ?_
    have hcurrent : OrderedDict.ofList (info.config.env.map readEnv) = currentEnv info := rfl
    rw [hcurrent]
    cases (currentEnv info).get? e.1 with
    | none => simp
    | some t =>
      dsimp only
      rw [Bool.not_eq_true, Bool.not_eq_false', Value.isStr_iff]
      constructor
      · intro hv
        exact ⟨_, hv, by rw [String.toList_ofList]⟩
      · rintro ⟨s, hs, ht⟩
        rw [hs, Option.some.inj ht, String.ofList_toList]

/-- A variable that is read back: it is a text, and the name of the service where it is set to that. -/
def EnvironmentStable (p : Params) : Prop :=
  ∀ k v, p.environment.get? k = some v →
    '=' ∉ k ∧ ∃ s, v = .str s ∧ (k = serviceNameKey → s.toList = serviceName p)

/-- The text that a requested variable is set to. -/
theorem get?_requested (rt : PyRuntime) {k : Text} {v : Value} (hv : p.environment.get? k = some v) :
    ∃ t, (envTexts rt (formatEnvVars p)).get? k = some t ∧
      ∀ s, v = .str s → (t = s.toList ↔ (k = serviceNameKey → s.toList = serviceName p)) := by
  rw [envTexts, OrderedDict.get?_mapValues, formatEnvVars, OrderedDict.get?_mapValues, injectEnvVar,
    OrderedDict.get?_set]
  by_cases hk : k = serviceNameKey
  · refine ⟨serviceName p, ?_, fun s _ => ?_⟩
    · rw [if_pos hk]
      simp [Value.toStr]
    · exact ⟨fun h _ => h.symm, fun h => (h hk).symm⟩
  · rw [if_neg hk, hv]
    refine ⟨_, rfl, ?_⟩
    rintro s rfl
    simp [hk, Value.toStr]

/-- Where no name has an `=`, the container has the variables that were requested. -/
theorem get?_currentEnv (h : Creation rt image p info)
    (hplain : ∀ k ∈ p.environment.keys, '=' ∉ k) {k : Text} {t : Text}
    (ht : (envTexts rt (formatEnvVars p)).get? k = some t) : (currentEnv info).get? k = some t := by
  have hkeys : ∀ e ∈ (image.env.update (envTexts rt (formatEnvVars p))).entries, '=' ∉ e.1 := by
    intro e he
    have hmem : e.1 ∈ (image.env.update (envTexts rt (formatEnvVars p))).keys := List.mem_map_of_mem he
    rw [OrderedDict.keys_update, OrderedDict.mem_firsts, List.mem_append, envTexts,
      OrderedDict.keys_mapValues, formatEnvVars, OrderedDict.keys_mapValues, injectEnvVar,
      OrderedDict.keys_set] at hmem
    rcases hmem with hmem | hmem
    · exact image.env_plain _ hmem
    · split at hmem
      · exact hplain _ hmem
      · rcases List.mem_append.mp hmem with hmem | hmem
        · exact hplain _ hmem
        · rw [List.mem_singleton.mp hmem]
          decide
  have hread : info.config.env.map readEnv =
      (image.env.update (envTexts rt (formatEnvVars p))).entries := by
    rw [h.env, List.map_map]
    refine (List.map_congr_left fun e he => ?_).trans (List.map_id _)
    exact readEnv_envEntry (hkeys e he)
  rw [currentEnv, hread, OrderedDict.get?_ofList_entries, OrderedDict.get?_update, ht, Option.some_or]

theorem environment_same_iff (h : Creation rt image p info) :
    compareEnvironment p info = .ok false ↔ EnvironmentStable p := by
  rw [environment_eq_false h]
  constructor
  · intro hsame
    have hplain : ∀ k ∈ p.environment.keys, '=' ∉ k := by
      intro k hk
      obtain ⟨v, hv⟩ := OrderedDict.mem_keys.mp hk
      obtain ⟨s, _, hs⟩ := hsame k v hv
      exact not_mem_currentEnv (OrderedDict.mem_keys.mpr ⟨_, hs⟩)
    intro k v hv
    obtain ⟨s, hstr, hs⟩ := hsame k v hv
    obtain ⟨t, ht, htext⟩ := get?_requested rt hv
    rw [get?_currentEnv h hplain ht, Option.some.injEq] at hs
    exact ⟨hplain k (OrderedDict.mem_keys.mpr ⟨v, hv⟩), s, hstr, (htext s hstr).mp hs⟩
  · intro hstable k v hv
    have hplain : ∀ k ∈ p.environment.keys, '=' ∉ k := by
      intro k hk
      obtain ⟨v, hv⟩ := OrderedDict.mem_keys.mp hk
      exact (hstable k v hv).1
    obtain ⟨_, s, hstr, hname⟩ := hstable k v hv
    obtain ⟨t, ht, htext⟩ := get?_requested rt hv
    refine ⟨s, hstr, ?_⟩
    rw [get?_currentEnv h hplain ht, (htext s hstr).mpr hname]

/-! ## Dimensions -/

/-- Dimensions that can be compared: no limit is null, and there is no kernel memory. -/
structure DimensionsStable (d : Dimensions) : Prop where
  kernelMemory : d.scalar (.limit .kernelMemory) = none
  limit : ∀ l, d.scalar (.limit l) ≠ some none
  ulimits : d.ulimits ≠ some none

/-- The text that a number is compared as. -/
theorem expand_of_number {v : Scalar} {n : Int} (h : limitNumber v = some n) :
    ∃ c t, lastChar v.str = .ok c ∧ expandUnit v.str c = .ok t ∧ PyNumber.parseInt t = some n := by
  rw [limitNumber] at h
  cases hc : lastChar v.str with
  | error e => rw [hc] at h; cases h
  | ok c =>
    rw [hc] at h
    dsimp only at h
    cases ht : expandUnit v.str c with
    | error e => rw [ht] at h; cases h
    | ok t => rw [ht] at h; exact ⟨c, t, rfl, ht, h⟩

theorem dimensionsDiffer_self {v : Scalar} {n : Int} (h : limitNumber v = some n) (key : Dimension) :
    Container.dimensionsDiffer (some v) (some v) key = .ok false := by
  obtain ⟨c, t, hc, ht, _⟩ := expand_of_number h
  rw [Container.dimensionsDiffer]
  simp [hc, ht, bind, Except.bind, pure, Except.pure]

theorem scalar_same_iff {d : Dimensions} {resources : ResourceOptions}
    (h : resources.scalar = d.scalar)
    (hlimits : ∀ l v, d.scalar (.limit l) = some (some v) → ∃ n, limitNumber v = some n)
    {key : Dimension} (hkey : key ≠ .limit .kernelMemory) :
    scalarDiffers d (hostResources resources) key = .ok false ↔
      ∀ l, key = .limit l → d.scalar (.limit l) ≠ some none := by
  rw [scalarDiffers, hostResources, h]
  cases key with
  | limit l =>
    simp only [Dimension.limit.injEq, forall_eq']
    cases ha : d.scalar (.limit l) with
    | none =>
      have hdefault : defaultScalar (.limit l) = some (.int 0) := by
        cases l <;> first | rfl | exact absurd rfl hkey
      simp [hdefault, Scalar.truthy]
    | some a =>
      cases a with
      | none => simp [dimensionsDiffer, Container.dimensionsDiffer]
      | some v =>
        obtain ⟨n, hn⟩ := hlimits l v ha
        simpa [dimensionsDiffer] using dimensionsDiffer_self hn (.limit l)
  | cpuset s =>
    cases ha : d.scalar (.cpuset s) with
    | none => simp [ha, defaultScalar, Scalar.truthy]
    | some a =>
      cases a with
      | none => simp [ha, dimensionsDiffer, defaultScalar, strOr, Scalar.truthy]
      | some v => simp [ha, dimensionsDiffer]

theorem ulimits_same_iff {d : Dimensions} {resources : ResourceOptions}
    (h : resources.ulimits.getD [] = buildUlimits ((d.ulimits.getD none).getD .empty)) :
    ulimitsDiffer d (hostResources resources) = .ok false ↔ d.ulimits ≠ some none := by
  rw [ulimitsDiffer, hostResources]
  rcases hd : d.ulimits with _ | _ | ulimits
  · rw [hd] at h
    simp [h, buildUlimits, OrderedDict.empty]
  · simp
  · rw [hd] at h
    simp [compareUlimits, h]

theorem dimensions_same_iff (h : Creation rt image p info) :
    compareDimensions p.dimensions info.hostConfig.resources = .ok false ↔
      DimensionsStable p.dimensions := by
  obtain ⟨resources, hparse, hreport⟩ := h.resources
  obtain ⟨hother, hscalar, hulimits⟩ := parseDimensions_ok hparse
  rw [hreport, compareDimensions, compareWith_eq_false, unsupported_iff, and_iff_right hother,
    ulimits_same_iff hulimits]
  constructor
  · rintro ⟨hkernel, hscalars, hnull⟩
    refine ⟨hkernel, fun l => ?_, hnull⟩
    by_cases hl : l = .kernelMemory
    · rw [hl, hkernel]
      exact (Option.some_ne_none none).symm
    · have hne : Dimension.limit l ≠ .limit .kernelMemory := fun heq => hl (Dimension.limit.inj heq)
      exact (scalar_same_iff hscalar h.limits hne).mp (hscalars _ (mem_dockerMap.mpr hne)) l rfl
  · rintro ⟨hkernel, hlimits, hnull⟩
    refine ⟨hkernel, fun key hkey => ?_, hnull⟩
    exact (scalar_same_iff hscalar h.limits (mem_dockerMap.mp hkey)).mpr fun l _ => hlimits l

/-! ## The command -/

theorem command_same_iff (h : Creation rt image p info) :
    compareCommand p info = .ok false ↔ ∀ c, p.command = some c → Shlex.split c ≠ some [] := by
  obtain ⟨words, hwords, hpath, hargs⟩ := h.command
  rw [compareCommand]
  cases hcommand : p.command with
  | none => simp
  | some command =>
    rw [hcommand, commandWords] at hwords
    rcases hsplit : Shlex.split command with _ | _ | ⟨path, args⟩
    · rw [hsplit] at hwords
      cases hwords
    · simp [hsplit]
    · rw [hsplit] at hwords
      cases hwords
      simp [hsplit, hpath, hargs]

/-! ## All comparisons -/

/-- The parameters are read back as they were written. -/
structure Stable (image : Image) (p : Params) : Prop where
  environment : EnvironmentStable p
  labels : LabelsAgree image p.labels
  tmpfs : ∀ t ∈ (generateTmpfs p).getD [], ':' ∉ t
  dimensions : DimensionsStable p.dimensions
  command : ∀ c, p.command = some c → Shlex.split c ≠ some []

theorem labels_same_iff (h : Creation rt image p info) :
    compareLabels p (some image) info = .ok false ↔ LabelsAgree image p.labels := by
  rw [labels_eq_false h]
  refine and_iff_left fun k => ?_
  cases hk : p.labels.get? k with
  | some v => simp
  | none =>
    by_cases himage : k ∈ image.labels.keys
    · simp [himage]
    · simp [himage, OrderedDict.get?_eq_none.mpr himage]

/-- No difference is found exactly if no comparison finds one. -/
theorem differs_eq_false : differs rt parseRepositoryTag image q info = .ok false ↔
    ∀ c ∈ comparisons id (.ok (some image)) parseRepositoryTag rt q info, c = .ok false :=
  anyOf_eq_false

theorem differs_same_iff (h : Creation rt image p info) :
    differs rt parseRepositoryTag image p info = .ok false ↔ Stable image p := by
  rw [differs_eq_false, comparisons]
  have hcapAdd : compareCapAdd p info = false := (capAdd_eq_false h).mpr fun t => Iff.rfl
  have hvolumesFrom : compareVolumesFrom p info = false :=
    (volumesFrom_eq_false h).mpr fun t => Iff.rfl
  have hlabels := labels_same_iff h
  have htmpfs := tmpfs_same_iff h
  have henvironment := environment_same_iff h
  have hdimensions := dimensions_same_iff h
  have hcommand := command_same_iff h
  simp only [List.forall_mem_cons, List.not_mem_nil, false_imp_iff, implies_true, and_true, id_eq, hcapAdd,
    securityOpt_same h rfl, image_same h rfl, ipcMode_same h rfl, privileged_same h rfl,
    pidMode_same h rfl, cgroupnsMode_same h rfl, hvolumesFrom, volumes_same h rfl,
    state_same h rfl, healthcheck_same h rfl, bind, Except.bind, true_and, hlabels,
    Except.ok.injEq, htmpfs, henvironment, hdimensions, hcommand]
  constructor
  · rintro ⟨h1, h2, h3, h4, h5⟩
    exact ⟨h3, h1, h2, h4, h5⟩
  · rintro ⟨h1, h2, h3, h4, h5⟩
    exact ⟨h2, h3, h1, h4, h5⟩

/-- A container that is created with the parameters is found to be the same. -/
def Fixpoint (rt : PyRuntime) (parseRepositoryTag : Text → Text × Option Text) (image : Image)
    (p : Params) : Prop :=
  ∀ info, created rt image p = .ok info → differs rt parseRepositoryTag image p info = .ok false

def sampleImage : Image where
  id := "sha256:0".toList
  repoTags := ["quay.io/openstack.kolla/cron:latest".toList]
  env_plain := empty_plain

/-- A variable whose value is the number 1. -/
def numberedParams : Params where
  name := "cron".toList
  image := "quay.io/openstack.kolla/cron:latest".toList
  environment := .ofList [("KOLLA_SKIP".toList, .int 1)]

end Docker
end Container
end KollaPowerOps
