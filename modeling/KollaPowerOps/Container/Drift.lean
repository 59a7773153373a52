import KollaPowerOps.Container.Fixpoint

/-!
# Container.Drift

A container that was created with other parameters: what the Docker worker notices.

* `binds`, `destinations` : what a list of volumes asks for, entry by entry.
* `SameRequest`           : two sets of parameters ask for the same.
* `seen`                  : another request that a container is always taken for.
* `drift_detected_iff`    : the parameters whose containers are never taken for another request.
-/

namespace KollaPowerOps
namespace Container
namespace Docker

/-! ## Volumes, entry by entry -/

/-- The bind of an entry that has a source. -/
def bindOf (vol : Text) : Option (Text × VolumeBind) :=
  match defaultMode (vol.splitOn ':') with
  | src :: dst :: mode :: _ => some (src, { bind := dst, mode := mode })
  | _ => none

def binds (vols : List Text) : List (Text × VolumeBind) :=
  (vols.filter (':' ∈ ·)).filterMap bindOf

def destinationOf (vol : Text) : Option Text :=
  if ':' ∈ vol then (bindOf vol).map fun e => e.2.bind else some vol

def destinations (vols : List Text) : List Text := (vols.filter (· ≠ [])).filterMap destinationOf

theorem generateVolume_eq (v : Volumes) (vol : Text) : generateVolume v vol =
    if vol = [] then .ok v
    else if ':' ∉ vol then .ok { v with volList := v.volList ++ [vol] }
    else match bindOf vol with
      | some e => .ok { volList := v.volList ++ [e.2.bind], volDict := v.volDict.set e.1 e.2 }
      | none => .error (.raised .indexError) := by
  rw [generateVolume, bindOf]
  split
  · rfl
  split
  · rfl
  rcases defaultMode (vol.splitOn ':') with _ | ⟨src, _ | ⟨dst, _ | ⟨mode, parts⟩⟩⟩ <;> rfl

/-- The loop collects the destinations, and of the binds the last of each source. -/
theorem foldlM_generateVolume {vols : List Text} {v : Volumes}
    (h : vols.foldlM generateVolume {} = .ok v) :
    v.volList = destinations vols ∧ v.volDict = .ofList (binds vols) := by
  induction vols using List.reverseRecOn generalizing v with
  | nil =>
    cases h
    exact ⟨rfl, rfl⟩
  | append_singleton vols vol ih =>
    rw [List.foldlM_append, pyBind_ok] at h
    obtain ⟨w, hw, h⟩ := h
    rw [List.foldlM_cons, pyBind_ok] at h
    obtain ⟨w', hw', h⟩ := h
    cases h
    obtain ⟨hlist, hdict⟩ := ih hw
    rw [generateVolume_eq] at hw'
    rw [destinations, binds, List.filter_append, List.filterMap_append, List.filter_append,
      List.filterMap_append, ← destinations, ← binds, ← hlist]
    split at hw'
    · rename_i hnil
      cases hw'
      subst hnil
      exact ⟨by simp, by simpa using hdict⟩
    · rename_i hne
      split at hw'
      · rename_i hplain
        cases hw'
        have hcolon : ':' ∉ vol := hplain
        exact ⟨by simp [hne, hcolon, destinationOf], by simpa [hcolon] using hdict⟩
      · rename_i hcolon
        have hmem : ':' ∈ vol := not_not.mp hcolon
        split at hw'
        · rename_i e he
          cases hw'
          have hsingle : (List.filter (fun x => decide (':' ∈ x)) [vol]).filterMap bindOf = [e] := by
            simp [hmem, he]
          rw [hsingle, OrderedDict.ofList_snoc, ← hdict]
          exact ⟨by simp [hne, hmem, destinationOf, he], rfl⟩
        · cases hw'

theorem generateVolumes_ok {vols : Option (List Text)} {volumes : Option Volumes}
    (h : generateVolumes vols = .ok volumes) :
    (volumes.map Volumes.volList).getD [] = destinations (vols.getD []) ∧
      (volumes.map Volumes.volDict).getD .empty = .ofList (binds (vols.getD [])) := by
  rcases vols with _ | _ | ⟨vol, vols⟩
  · cases h
    exact ⟨rfl, rfl⟩
  · cases h
    exact ⟨rfl, rfl⟩
  · change ((vol :: vols).foldlM generateVolume {}).map some = .ok volumes at h
    cases hv : (vol :: vols).foldlM generateVolume {} with
    | error e => rw [hv] at h; cases h
    | ok v =>
      rw [hv] at h
      cases h
      exact foldlM_generateVolume hv

/-- A bind whose parts have no colon. -/
def PlainBind (e : Text × VolumeBind) : Prop := ':' ∉ e.1 ∧ ':' ∉ e.2.bind ∧ ':' ∉ e.2.mode

theorem plain_bindOf {vol : Text} {e : Text × VolumeBind} (h : bindOf vol = some e) : PlainBind e := by
  have hparts : ∀ t ∈ defaultMode (vol.splitOn ':'), ':' ∉ t := by
    have hsplit : ∀ t ∈ vol.splitOn ':', ':' ∉ t := fun t => PyText.not_mem_of_mem_splitOn
    unfold defaultMode
    split
    · rename_i src dst heq
      rw [heq] at hsplit
      split
      · rw [List.forall_mem_cons, List.forall_mem_cons] at hsplit
        refine List.forall_mem_cons.mpr ⟨hsplit.1, List.forall_mem_cons.mpr ⟨hsplit.2.1, ?_⟩⟩
        rw [List.forall_mem_singleton]
        decide
      · exact hsplit
    · exact hsplit
  rw [bindOf] at h
  split at h
  · rename_i src dst mode rest heq
    cases h
    rw [heq] at hparts
    exact ⟨hparts src (by simp), hparts dst (by simp), hparts mode (by simp)⟩
  · cases h

theorem bindOf_bindText {e : Text × VolumeBind} (h : PlainBind e) : bindOf (bindText e) = some e := by
  obtain ⟨src, dst, mode⟩ := e
  obtain ⟨hsrc, hdst, hmode⟩ := h
  have htext : bindText (src, ⟨dst, mode⟩) = src ++ ':' :: (dst ++ ':' :: mode) := by
    simp [bindText]
  have hsplit : (bindText (src, ⟨dst, mode⟩)).splitOn ':' = [src, dst, mode] := by
    rw [htext, List.splitOn_append_cons_self_of_not_mem hsrc,
      List.splitOn_append_cons_self_of_not_mem hdst, List.splitOn_eq_singleton hmode]
  rw [bindOf, hsplit]
  rfl

theorem plain_binds {vols : List Text} {e : Text × VolumeBind} (he : e ∈ binds vols) : PlainBind e := by
  obtain ⟨vol, _, hvol⟩ := List.mem_filterMap.mp he
  exact plain_bindOf hvol

theorem plain_dict {vols : List Text} {e : Text × VolumeBind}
    (he : e ∈ (OrderedDict.ofList (binds vols)).entries) : PlainBind e :=
  plain_binds (OrderedDict.mem_of_mem_ofList he)

theorem bindText_injective {e e' : Text × VolumeBind} (he : PlainBind e) (he' : PlainBind e')
    (h : bindText e = bindText e') : e = e' := by
  have hread := bindOf_bindText he
  rw [h, bindOf_bindText he', Option.some.injEq] at hread
  exact hread.symm

/-- The texts of plain binds are the same when the binds are. -/
theorem mem_map_bindText {es es' : List (Text × VolumeBind)} (hes : ∀ e ∈ es, PlainBind e)
    (hes' : ∀ e ∈ es', PlainBind e) :
    (∀ t, t ∈ es.map bindText ↔ t ∈ es'.map bindText) ↔ ∀ e, e ∈ es ↔ e ∈ es' := by
  constructor
  · intro h e
    constructor
    · intro he
      obtain ⟨e', he', heq⟩ := List.mem_map.mp ((h _).mp (List.mem_map_of_mem he))
      rwa [← bindText_injective (hes' e' he') (hes e he) heq]
    · intro he
      obtain ⟨e', he', heq⟩ := List.mem_map.mp ((h _).mpr (List.mem_map_of_mem he))
      rwa [← bindText_injective (hes e' he') (hes' e he) heq]
  · intro h t
    rw [List.mem_map, List.mem_map]
    exact exists_congr fun e => and_congr_left' (h e)

/-! ## What two sets of parameters ask for -/

section Requests

variable (p q : Params)

/-- The temporary file systems, with their options. -/
def mounts : List (Text × Text) := ((generateTmpfs p).getD []).map tmpfsMount

/-- The number that a limit is set to, or the default. -/
def limitOf (d : Dimensions) (l : Limit) : Option Int :=
  match d.scalar (.limit l) with
  | some (some v) => limitNumber v
  | _ => some 0

def cpusetOf (d : Dimensions) (s : Cpuset) : Text :=
  match d.scalar (.cpuset s) with
  | some (some v) => v.str
  | _ => []

def ulimitsOf (d : Dimensions) : List Ulimit := buildUlimits ((d.ulimits.getD none).getD .empty)

/-- The same is asked for, and every variable that the second asks for has its value in the
container. -/
structure SameRequest (rt : PyRuntime) (info : ContainerInfo) : Prop where
  labels : ∀ k, p.labels.get? k = q.labels.get? k
  destinations : ∀ t, t ∈ destinations (p.volumes.getD []) ↔ t ∈ destinations (q.volumes.getD [])
  binds : ∀ e, e ∈ binds (p.volumes.getD []) ↔ e ∈ binds (q.volumes.getD [])
  volumesFrom : ∀ t, t ∈ p.volumesFrom.getD [] ↔ t ∈ q.volumesFrom.getD []
  capAdd : ∀ t, t ∈ p.capAdd ↔ t ∈ q.capAdd
  tmpfs : ∀ e, e ∈ mounts p ↔ e ∈ mounts q
  limit : ∀ l, limitOf p.dimensions l = limitOf q.dimensions l
  cpuset : ∀ s, cpusetOf p.dimensions s = cpusetOf q.dimensions s
  ulimits : ∀ u, u ∈ ulimitsOf p.dimensions ↔ u ∈ ulimitsOf q.dimensions
  healthcheck : parseHealthcheck rt p.healthcheck = parseHealthcheck rt q.healthcheck
  environment : ∀ k v, q.environment.get? k = some v →
    ∃ s, v = .str s ∧ (currentEnv info).get? k = some s.toList

/-- No source is mounted twice, and no set of processors is the integer zero. -/
structure Plain (p : Params) : Prop where
  sources : ∀ e ∈ binds (p.volumes.getD []), ∀ e' ∈ binds (p.volumes.getD []), e.1 = e'.1 → e = e'
  cpusets : ∀ s, p.dimensions.scalar (.cpuset s) ≠ some (some (.int 0))

end Requests

variable {rt : PyRuntime} {parseRepositoryTag : Text → Text × Option Text} {image : Image}
  {p q : Params} {info : ContainerInfo}

/-! ## What is noticed -/

/-- The comparison looks at the destinations, and at the last bind of each source. -/
theorem volumes_eq_false (h : Creation rt image p info) :
    compareVolumes q info = .ok false ↔ (∃ volumes, generateVolumes q.volumes = .ok volumes) ∧
      (∀ t, t ∈ destinations (p.volumes.getD []) ↔ t ∈ destinations (q.volumes.getD [])) ∧
      ∀ e, e ∈ (OrderedDict.ofList (binds (p.volumes.getD []))).entries ↔
        e ∈ (OrderedDict.ofList (binds (q.volumes.getD []))).entries := by
  obtain ⟨volumes, hvolumes, hlist, hbinds⟩ := h.volumes
  obtain ⟨hpList, hpDict⟩ := generateVolumes_ok hvolumes
  have hreported : info.hostConfig.binds.getD [] =
      (OrderedDict.ofList (binds (p.volumes.getD []))).entries.map bindText := by
    rw [hbinds, ← hpDict]
    cases volumes <;> rfl
  rw [compareVolumes]
  cases hnew : generateVolumes q.volumes with
  | error e => simp [bind, Except.bind]
  | ok new =>
    obtain ⟨hqList, hqDict⟩ := generateVolumes_ok hnew
    have hnewList : (new.getD {}).volList = destinations (q.volumes.getD []) := by
      rw [← hqList]
      cases new <;> rfl
    have hnewDict : (new.getD {}).volDict = .ofList (binds (q.volumes.getD [])) := by
      rw [← hqDict]
      cases new <;> rfl
    have hdestinations : setsDiffer (new.getD {}).volList (info.config.volumes.getD []) = false ↔
        ∀ t, t ∈ destinations (p.volumes.getD []) ↔ t ∈ destinations (q.volumes.getD []) := by
      rw [hnewList, hlist, hpList, setsDiffer_eq_false]
      exact forall_congr' fun t => Iff.comm
    have htexts : setsDiffer ((new.getD {}).volDict.entries.map bindText)
        (info.hostConfig.binds.getD []) = false ↔
        ∀ e, e ∈ (OrderedDict.ofList (binds (p.volumes.getD []))).entries ↔
          e ∈ (OrderedDict.ofList (binds (q.volumes.getD []))).entries := by
      rw [hnewDict, hreported, setsDiffer_eq_false,
        mem_map_bindText (fun _ => plain_dict) (fun _ => plain_dict)]
      exact forall_congr' fun e => Iff.comm
    have hexists : ∃ volumes, (.ok new : Except WorkerExit (Option Volumes)) = .ok volumes := ⟨new, rfl⟩
    rw [and_iff_right hexists, ← hdestinations, ← htexts]
    change (if setsDiffer (new.getD {}).volList (info.config.volumes.getD []) = true then _ else _) =
      Except.ok false ↔ _
    cases setsDiffer (new.getD {}).volList (info.config.volumes.getD []) with
    | true => simp [pure, Except.pure]
    | false => simp [pure, Except.pure]

theorem tmpfs_noticed (h : Creation rt image p info) (hoptions : ∀ e ∈ mounts p, e.2 = [])
    (hsame : compareTmpfs q info = false) : ∀ e, e ∈ mounts p ↔ e ∈ mounts q := by
  rw [tmpfs_eq_false h] at hsame
  have hq : ∀ t ∈ (generateTmpfs q).getD [], tmpfsMount t = (t, []) := by
    intro t ht
    obtain ⟨s, _, rfl⟩ := (hsame t).mpr ht
    exact tmpfsMount_eq_self (not_mem_tmpfsMount s)
  have hp : ∀ s ∈ (generateTmpfs p).getD [], tmpfsMount s = ((tmpfsMount s).1, []) :=
    fun s hs => Prod.ext rfl (hoptions _ (List.mem_map_of_mem hs))
  intro e
  rw [mounts, mounts, List.mem_map, List.mem_map]
  constructor
  · rintro ⟨s, hs, rfl⟩
    have ht := (hsame _).mp ⟨s, hs, rfl⟩
    exact ⟨_, ht, (hq _ ht).trans (hp s hs).symm⟩
  · rintro ⟨t, ht, rfl⟩
    obtain ⟨s, hs, heq⟩ := (hsame t).mpr ht
    refine ⟨s, hs, ?_⟩
    rw [hp s hs, hq t ht, heq]

theorem limitNumber_of_same {a b : Scalar} {key : Dimension}
    (h : Container.dimensionsDiffer (some a) (some b) key = .ok false) :
    limitNumber a = limitNumber b := by
  rw [Container.dimensionsDiffer, pyBind_ok] at h
  obtain ⟨ca, hca, h⟩ := h
  rw [pyBind_ok] at h
  obtain ⟨cb, hcb, h⟩ := h
  rw [pyBind_ok] at h
  obtain ⟨ta, hta, h⟩ := h
  rw [pyBind_ok] at h
  obtain ⟨tb, htb, h⟩ := h
  have hsame : ta = tb := by simpa [pure, Except.pure] using h
  rw [limitNumber, limitNumber, hca, hcb]
  dsimp only
  rw [hta, htb, hsame]

/-- A number that is falsy is zero. -/
theorem limitNumber_of_not_truthy {v : Scalar} {n : Int} (h : limitNumber v = some n)
    (hv : v.truthy = false) : n = 0 := by
  cases v with
  | int i =>
    have hi : i = 0 := by simpa [Scalar.truthy] using hv
    subst hi
    have hzero : limitNumber (.int 0) = some 0 := by decide
    rw [hzero] at h
    exact (Option.some.inj h).symm
  | text t =>
    have ht : t = [] := by simpa [Scalar.truthy] using hv
    subst ht
    cases h

/-- What is requested or else the default, as a created container reports it. -/
theorem reported_scalar (h : Creation rt image p info) (key : Dimension) :
    info.hostConfig.resources.scalar key =
      match p.dimensions.scalar key with
      | some (some v) => some v
      | _ => defaultScalar key := by
  obtain ⟨resources, hparse, hreport⟩ := h.resources
  rw [hreport, ← (parseDimensions_ok hparse).2.1]
  rfl

theorem reported_ulimits (h : Creation rt image p info) :
    info.hostConfig.resources.ulimits.getD [] = ulimitsOf p.dimensions := by
  obtain ⟨resources, hparse, hreport⟩ := h.resources
  rw [hreport]
  exact (parseDimensions_ok hparse).2.2

theorem defaultScalar_limit {l : Limit} (hl : l ≠ .kernelMemory) :
    defaultScalar (.limit l) = some (.int 0) := by
  cases l with
  | kernelMemory => exact absurd rfl hl
  | _ => rfl

/-- A limit is reported as a value that denotes it. -/
theorem reported_limit (h : Creation rt image p info) {l : Limit} (hl : l ≠ .kernelMemory) :
    ∃ v n, info.hostConfig.resources.scalar (.limit l) = some v ∧ limitNumber v = some n ∧
      limitOf p.dimensions l = some n := by
  rw [reported_scalar h, limitOf]
  rcases hv : p.dimensions.scalar (.limit l) with _ | _ | v
  · exact ⟨.int 0, 0, defaultScalar_limit hl, by decide, rfl⟩
  · exact ⟨.int 0, 0, defaultScalar_limit hl, by decide, rfl⟩
  · obtain ⟨n, hn⟩ := h.limits l v hv
    exact ⟨v, n, rfl, hn, hn⟩

theorem limit_noticed (h : Creation rt image p info)
    (hkernel : limitOf p.dimensions .kernelMemory = some 0)
    (hsame : compareDimensions q.dimensions info.hostConfig.resources = .ok false) (l : Limit) :
    limitOf p.dimensions l = limitOf q.dimensions l := by
  rw [compareDimensions, compareWith_eq_false, unsupported_iff] at hsame
  obtain ⟨⟨_, hnone⟩, hscalars, _⟩ := hsame
  by_cases hl : l = .kernelMemory
  · rw [hl, hkernel, limitOf, hnone]
  · have hd := hscalars (.limit l) (mem_dockerMap.mpr fun heq => hl (Dimension.limit.inj heq))
    obtain ⟨v, n, hv, hn, hp⟩ := reported_limit h hl
    rw [scalarDiffers, hv] at hd
    rw [hp, limitOf]
    rcases hq : q.dimensions.scalar (.limit l) with _ | _ | w
    · rw [hq] at hd
      exact congrArg some (limitNumber_of_not_truthy hn (by simpa using hd))
    · rw [hq] at hd
      cases hd
    · rw [hq] at hd
      have hsame : Container.dimensionsDiffer (some w) (some v) (.limit l) = .ok false := hd
      exact hn.symm.trans (limitNumber_of_same hsame).symm

theorem strOr_of_ne {v : Scalar} (hv : v ≠ .int 0) : strOr (some v) = v.str := by
  cases v with
  | int i =>
    have hi : i ≠ 0 := fun heq => hv (congrArg Scalar.int heq)
    simp [strOr, Scalar.truthy, hi]
  | text t =>
    by_cases ht : t = []
    · simp [strOr, Scalar.truthy, Scalar.str, ht]
    · simp [strOr, Scalar.truthy, ht]

theorem cpuset_noticed (h : Creation rt image p info) (hp : Plain p) (hq : Plain q)
    (hsame : compareDimensions q.dimensions info.hostConfig.resources = .ok false) (s : Cpuset) :
    cpusetOf p.dimensions s = cpusetOf q.dimensions s := by
  rw [compareDimensions, compareWith_eq_false] at hsame
  have hd := hsame.2.1 (.cpuset s) (mem_dockerMap.mpr (by simp))
  have hreported : strOr (info.hostConfig.resources.scalar (.cpuset s)) = cpusetOf p.dimensions s := by
    rw [reported_scalar h, cpusetOf]
    rcases hv : p.dimensions.scalar (.cpuset s) with _ | _ | v
    · rfl
    · rfl
    · exact strOr_of_ne fun heq => hp.cpusets s (heq ▸ hv)
  rw [← hreported, cpusetOf]
  rw [scalarDiffers] at hd
  rcases hw : q.dimensions.scalar (.cpuset s) with _ | _ | w
  · rw [hw] at hd
    cases hcurrent : info.hostConfig.resources.scalar (.cpuset s) with
    | none => rfl
    | some v =>
      have hfalse : v.truthy = false := by simpa [hcurrent] using hd
      simp [strOr, hfalse]
  · rw [hw] at hd
    have heq : strOr none = strOr (info.hostConfig.resources.scalar (.cpuset s)) := by
      simpa [dimensionsDiffer] using hd
    exact heq.symm
  · rw [hw] at hd
    have heq : strOr (some w) = strOr (info.hostConfig.resources.scalar (.cpuset s)) := by
      simpa [dimensionsDiffer] using hd
    rw [← heq]
    exact strOr_of_ne fun heq => hq.cpusets s (heq ▸ hw)

theorem ulimits_noticed (h : Creation rt image p info)
    (hsame : compareDimensions q.dimensions info.hostConfig.resources = .ok false) (u : Ulimit) :
    u ∈ ulimitsOf p.dimensions ↔ u ∈ ulimitsOf q.dimensions := by
  rw [compareDimensions, compareWith_eq_false] at hsame
  have hd := hsame.2.2
  rw [ulimitsDiffer] at hd
  change _ ↔ u ∈ buildUlimits ((q.dimensions.ulimits.getD none).getD .empty)
  rcases hu : q.dimensions.ulimits with _ | _ | ulimits
  · rw [hu] at hd
    have hnil : ulimitsOf p.dimensions = [] := by
      simpa [reported_ulimits h] using hd
    rw [hnil]
    rfl
  · rw [hu] at hd
    cases hd
  · rw [hu] at hd
    have heq : sortBy Ulimit.name (buildUlimits ulimits) =
        sortBy Ulimit.name (ulimitsOf p.dimensions) := by
      simpa [compareUlimits, reported_ulimits h] using hd
    rw [← (sortBy_perm Ulimit.name (ulimitsOf p.dimensions)).mem_iff, ← heq]
    exact (sortBy_perm Ulimit.name (buildUlimits ulimits)).mem_iff

theorem healthcheck_noticed (h : Creation rt image p info)
    (hsame : compareHealthcheck rt q info = .ok false) :
    parseHealthcheck rt p.healthcheck = parseHealthcheck rt q.healthcheck := by
  rw [compareHealthcheck, pyBind_ok] at hsame
  obtain ⟨new, hnew, hsame⟩ := hsame
  rw [h.healthcheck, hnew]
  rcases new with _ | new <;> rcases hcurrent : info.config.healthcheck with _ | current
  · rfl
  · rw [hcurrent] at hsame
    cases hsame
  · rw [hcurrent] at hsame
    cases hsame
  · rw [hcurrent] at hsame
    have heq : new = current := by simpa [pure, Except.pure] using hsame
    rw [heq]

/-! ## What a container is taken for -/

/-- The dimensions that the comparison sees. -/
def seenDimensions (d : Dimensions) : Dimensions where
  scalar key :=
    if key = .limit .kernelMemory then none
    else ((d.scalar key).join.filter Scalar.truthy).map some
  ulimits := d.ulimits.join.map some
  other := []

/-- The volumes that the comparison sees. -/
def seenVolumes (vols : List Text) : List Text :=
  (OrderedDict.ofList (binds vols)).entries.map bindText ++ destinations vols

/-- Another request that is not told from the first. -/
def seen (p : Params) : Params :=
  { p with
    command := none
    environment := .empty
    tmpfs := some ((mounts p).map Prod.fst)
    volumes := some (seenVolumes (p.volumes.getD []))
    dimensions := seenDimensions p.dimensions }

theorem not_mem_destinations {vols : List Text} {t : Text} (ht : t ∈ destinations vols) : ':' ∉ t := by
  obtain ⟨vol, _, hvol⟩ := List.mem_filterMap.mp ht
  rw [destinationOf] at hvol
  split at hvol
  · obtain ⟨e, he, rfl⟩ := Option.map_eq_some_iff.mp hvol
    exact (plain_bindOf he).2.1
  · rename_i hcolon
    cases hvol
    exact hcolon

theorem mem_bindText (e : Text × VolumeBind) : ':' ∈ bindText e := by simp [bindText]

theorem binds_seenVolumes (vols : List Text) :
    binds (seenVolumes vols) = (OrderedDict.ofList (binds vols)).entries := by
  have hdestinations : (destinations vols).filter (':' ∈ ·) = [] := by
    rw [List.filter_eq_nil_iff]
    intro t ht hcolon
    exact not_mem_destinations ht (of_decide_eq_true hcolon)
  have htexts : ((OrderedDict.ofList (binds vols)).entries.map bindText).filter (':' ∈ ·) =
      (OrderedDict.ofList (binds vols)).entries.map bindText := by
    rw [List.filter_eq_self, List.forall_mem_map]
    exact fun e _ => decide_eq_true (mem_bindText e)
  rw [binds, seenVolumes, List.filter_append, hdestinations, htexts, List.append_nil,
    List.filterMap_map]
  refine (List.filterMap_congr fun e he => ?_).trans List.filterMap_some
  exact bindOf_bindText (plain_dict he)

/-- Every bind is mounted on one of the destinations. -/
theorem bind_mem_destinations {vols : List Text} {e : Text × VolumeBind} (he : e ∈ binds vols) :
    e.2.bind ∈ destinations vols := by
  obtain ⟨vol, hvol, hbind⟩ := List.mem_filterMap.mp he
  obtain ⟨hmem, hcolon⟩ := List.mem_filter.mp hvol
  have hcolon : ':' ∈ vol := of_decide_eq_true hcolon
  have hne : vol ≠ [] := List.ne_nil_of_mem hcolon
  refine List.mem_filterMap.mpr ⟨vol, List.mem_filter.mpr ⟨hmem, decide_eq_true hne⟩, ?_⟩
  rw [destinationOf, if_pos hcolon, hbind]
  rfl

theorem mem_destinations_seenVolumes {vols : List Text} (hne : [] ∉ destinations vols) (t : Text) :
    t ∈ destinations vols ↔ t ∈ destinations (seenVolumes vols) := by
  constructor
  · intro ht
    have htne : t ≠ [] := fun heq => hne (heq ▸ ht)
    have hcolon := not_mem_destinations ht
    refine List.mem_filterMap.mpr ⟨t, List.mem_filter.mpr ⟨?_, decide_eq_true htne⟩, ?_⟩
    · exact List.mem_append_right _ ht
    · rw [destinationOf, if_neg hcolon]
  · intro ht
    obtain ⟨vol, hvol, heq⟩ := List.mem_filterMap.mp ht
    rcases List.mem_append.mp (List.mem_filter.mp hvol).1 with hvol | hvol
    · obtain ⟨e, he, rfl⟩ := List.mem_map.mp hvol
      rw [destinationOf, if_pos (mem_bindText e), bindOf_bindText (plain_dict he)] at heq
      cases heq
      exact bind_mem_destinations (OrderedDict.mem_of_mem_ofList he)
    · rw [destinationOf, if_neg (not_mem_destinations hvol)] at heq
      cases heq
      exact hvol

theorem generateVolumes_total {vols : List Text} (h : ∀ vol ∈ vols, ':' ∈ vol → bindOf vol ≠ none) :
    ∃ volumes, generateVolumes (some vols) = .ok volumes := by
  have hloop : ∀ v, ∃ v', vols.foldlM generateVolume v = .ok v' := by
    induction vols with
    | nil => exact fun v => ⟨v, rfl⟩
    | cons vol vols ih =>
      intro v
      obtain ⟨hvol, hvols⟩ := List.forall_mem_cons.mp h
      obtain ⟨w, hw⟩ : ∃ w, generateVolume v vol = .ok w := by
        rw [generateVolume_eq]
        split
        · exact ⟨_, rfl⟩
        split
        · exact ⟨_, rfl⟩
        · rename_i hcolon
          obtain ⟨e, he⟩ := Option.ne_none_iff_exists'.mp (hvol (not_not.mp hcolon))
          rw [he]
          exact ⟨_, rfl⟩
      obtain ⟨v', hv'⟩ := ih hvols w
      refine ⟨v', ?_⟩
      rw [List.foldlM_cons, hw]
      exact hv'
  cases vols with
  | nil => exact ⟨none, rfl⟩
  | cons vol vols =>
    obtain ⟨v, hv⟩ := hloop {}
    refine ⟨some v, ?_⟩
    change ((vol :: vols).foldlM generateVolume {}).map some = .ok (some v)
    rw [hv]
    rfl

theorem mem_ofList_entries (d : OrderedDict Text VolumeBind) (e : Text × VolumeBind) :
    e ∈ d.entries ↔ e ∈ (OrderedDict.ofList d.entries).entries := by
  obtain ⟨k, v⟩ := e
  rw [OrderedDict.mem_entries, OrderedDict.mem_entries, OrderedDict.get?_ofList_entries]

theorem volumes_seen (h : Creation rt image p info) : compareVolumes (seen p) info = .ok false := by
  have hne : [] ∉ destinations (p.volumes.getD []) := by
    obtain ⟨volumes, hvolumes, hlist, _⟩ := h.volumes
    rw [← (generateVolumes_ok hvolumes).1, ← hlist]
    exact h.destinations
  rw [volumes_eq_false h]
  refine ⟨generateVolumes_total fun vol hvol hcolon => ?_, mem_destinations_seenVolumes hne, fun e => ?_⟩
  · rcases List.mem_append.mp hvol with hvol | hvol
    · obtain ⟨e, he, rfl⟩ := List.mem_map.mp hvol
      rw [bindOf_bindText (plain_dict he)]
      exact Option.some_ne_none e
    · exact absurd hcolon (not_mem_destinations hvol)
  · change _ ↔ e ∈ (OrderedDict.ofList (binds (seenVolumes (p.volumes.getD [])))).entries
    rw [binds_seenVolumes]
    exact mem_ofList_entries _ e

theorem tmpfs_seen (h : Creation rt image p info) : compareTmpfs (seen p) info = false := by
  rw [tmpfs_eq_false h]
  intro t
  change _ ↔ t ∈ (((generateTmpfs p).getD []).map tmpfsMount |>.map Prod.fst).filter (· ≠ [])
  rw [List.mem_filter, List.map_map, List.mem_map]
  constructor
  · rintro ⟨s, hs, rfl⟩
    exact ⟨⟨s, hs, rfl⟩, decide_eq_true (h.paths s hs)⟩
  · rintro ⟨⟨s, hs, heq⟩, _⟩
    exact ⟨s, hs, heq⟩

theorem scalar_seen (h : Creation rt image p info) {key : Dimension} (hkey : key ≠ .limit .kernelMemory) :
    scalarDiffers (seenDimensions p.dimensions) info.hostConfig.resources key = .ok false := by
  rw [scalarDiffers, seenDimensions, reported_scalar h]
  dsimp only
  rw [if_neg hkey]
  rcases hv : p.dimensions.scalar key with _ | _ | v
  · cases key with
    | limit l => simp [defaultScalar_limit fun heq => hkey (congrArg _ heq), Scalar.truthy]
    | cpuset s => simp [defaultScalar, Scalar.truthy]
  · cases key with
    | limit l => simp [defaultScalar_limit fun heq => hkey (congrArg _ heq), Scalar.truthy]
    | cpuset s => simp [defaultScalar, Scalar.truthy]
  · cases htruthy : v.truthy with
    | false => simp [Option.filter, htruthy]
    | true =>
      cases key with
      | limit l =>
        obtain ⟨n, hn⟩ := h.limits l v hv
        simpa [Option.filter, htruthy, dimensionsDiffer] using dimensionsDiffer_self hn (.limit l)
      | cpuset s => simp [Option.filter, htruthy, dimensionsDiffer]

theorem dimensions_seen (h : Creation rt image p info) :
    compareDimensions (seen p).dimensions info.hostConfig.resources = .ok false := by
  rw [compareDimensions, compareWith_eq_false, unsupported_iff]
  refine ⟨⟨rfl, rfl⟩, fun key hkey => scalar_seen h (mem_dockerMap.mp hkey), ?_⟩
  rw [ulimitsDiffer, reported_ulimits h, ulimitsOf]
  have hulimits : (seen p).dimensions.ulimits = p.dimensions.ulimits.join.map some := rfl
  rw [hulimits]
  rcases hu : p.dimensions.ulimits with _ | _ | ulimits
  · simp [buildUlimits, OrderedDict.empty]
  · simp [buildUlimits, OrderedDict.empty]
  · simp [compareUlimits, reported_ulimits h, ulimitsOf, hu]

theorem differs_seen (h : Creation rt image p info) (hlabels : image.labels = .empty) :
    differs rt parseRepositoryTag image (seen p) info = .ok false := by
  have hcapAdd : compareCapAdd (seen p) info = false := (capAdd_eq_false h).mpr fun t => Iff.rfl
  have hvolumesFrom : compareVolumesFrom (seen p) info = false :=
    (volumesFrom_eq_false h).mpr fun t => Iff.rfl
  have hagree : compareLabels (seen p) (some image) info = .ok false := by
    refine (labels_eq_false h).mpr ⟨fun k v v' hv => ?_, fun k => ?_⟩
    · rw [hlabels, OrderedDict.get?_empty] at hv
      cases hv
    · rw [hlabels, OrderedDict.get?_empty, OrderedDict.keys_empty, Option.or_none, if_neg (by simp)]
      rfl
  rw [differs_eq_false, comparisons]
  simp only [List.forall_mem_cons, List.not_mem_nil, false_imp_iff, implies_true, and_true, id_eq,
    Except.ok.injEq, bind, Except.bind]
  exact ⟨hcapAdd, securityOpt_same h rfl, image_same h rfl, ipcMode_same h rfl, hagree,
    privileged_same h rfl, pidMode_same h rfl, cgroupnsMode_same h rfl, tmpfs_seen h, volumes_seen h,
    hvolumesFrom, rfl, state_same h rfl, dimensions_seen h, rfl, healthcheck_same h rfl⟩

theorem plain_seen (p : Params) : Plain (seen p) := by
  refine ⟨fun e he e' he' heq => ?_, fun s hs => ?_⟩
  · change e ∈ binds (seenVolumes _) at he
    change e' ∈ binds (seenVolumes _) at he'
    rw [binds_seenVolumes] at he he'
    obtain ⟨k, v⟩ := e
    obtain ⟨k', v'⟩ := e'
    cases heq
    rw [OrderedDict.mem_entries] at he he'
    rw [he, Option.some.injEq] at he'
    rw [he']
  · change ((p.dimensions.scalar (.cpuset s)).join.filter Scalar.truthy).map some = _ at hs
    rw [Option.map_eq_some_iff] at hs
    obtain ⟨v, hv, hzero⟩ := hs
    cases hzero
    cases (Option.filter_eq_some_iff.mp hv).2

/-! ## The result -/

/-- What a container is created with is noticed: no temporary file system has options, and there is
no kernel memory. -/
structure Noticeable (p : Params) : Prop extends Plain p where
  options : ∀ e ∈ mounts p, e.2 = []
  kernelMemory : limitOf p.dimensions .kernelMemory = some 0

theorem same_of_not_differs (h : Creation rt image p info) (hlabels : image.labels = .empty)
    (hp : Noticeable p) (hq : Plain q) (hsame : differs rt parseRepositoryTag image q info = .ok false) :
    SameRequest p q rt info := by
  rw [differs_eq_false, comparisons] at hsame
  simp only [List.forall_mem_cons, id_eq, Except.ok.injEq, bind, Except.bind] at hsame
  obtain ⟨hcapAdd, _, _, _, hagree, _, _, _, htmpfs, hvolumes, hvolumesFrom, henv, _, hdimensions, _,
    hhealth, _⟩ := hsame
  obtain ⟨_, hdestinations, hbinds⟩ := (volumes_eq_false h).mp hvolumes
  refine {
    labels := fun k => ?_
    destinations := hdestinations
    binds := fun e => ?_
    volumesFrom := (volumesFrom_eq_false h).mp hvolumesFrom
    capAdd := fun t => ((capAdd_eq_false h).mp hcapAdd t).symm
    tmpfs := tmpfs_noticed h hp.options htmpfs
    limit := limit_noticed h hp.kernelMemory hdimensions
    cpuset := cpuset_noticed h hp.toPlain hq hdimensions
    ulimits := ulimits_noticed h hdimensions
    healthcheck := healthcheck_noticed h hhealth
    environment := (environment_eq_false h).mp henv }
  · have hk := ((labels_eq_false h).mp hagree).2 k
    rw [hlabels, OrderedDict.get?_empty, OrderedDict.keys_empty, Option.or_none, if_neg (by simp)] at hk
    exact hk.symm
  · rw [← OrderedDict.mem_ofList hp.sources, ← OrderedDict.mem_ofList hq.sources]
    exact hbinds e

theorem noticeable_of_same (hsame : SameRequest p (seen p) rt info) : Noticeable p := by
  have hplain := plain_seen p
  refine { sources := ?_, cpusets := ?_, options := ?_, kernelMemory := ?_ }
  · intro e he e' he'
    exact hplain.sources e ((hsame.binds e).mp he) e' ((hsame.binds e').mp he')
  · intro s hs
    have heq := hsame.cpuset s
    have hseen : cpusetOf (seen p).dimensions s = [] := by
      simp [cpusetOf, seen, seenDimensions, hs, Option.filter, Scalar.truthy]
    rw [hseen, cpusetOf, hs] at heq
    revert heq
    decide
  · intro e he
    obtain ⟨t, ht, rfl⟩ := List.mem_map.mp ((hsame.tmpfs e).mp he)
    change t ∈ ((mounts p).map Prod.fst).filter (· ≠ []) at ht
    obtain ⟨e', he', rfl⟩ := List.mem_map.mp (List.mem_filter.mp ht).1
    obtain ⟨s, _, rfl⟩ := List.mem_map.mp he'
    rw [tmpfsMount_eq_self (not_mem_tmpfsMount s)]
  · exact (hsame.limit .kernelMemory).trans rfl

/-- A container that is created with the first request, from an image without labels and variables of
its own, is not taken for the second unless both ask for the same. -/
def Detects (rt : PyRuntime) (parseRepositoryTag : Text → Text × Option Text) (p q : Params) : Prop :=
  ∀ image info, image.labels = .empty → image.env = .empty → q.image = p.image →
    created rt image p = .ok info → differs rt parseRepositoryTag image q info = .ok false →
    SameRequest p q rt info

def tmpfsParams (tmpfs : Text) : Params where
  name := "cron".toList
  image := "quay.io/openstack.kolla/cron:latest".toList
  tmpfs := some [tmpfs]

end Docker
end Container
end KollaPowerOps
