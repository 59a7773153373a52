import Mathlib.Data.Char
import Mathlib.Data.List.Lex
import KollaPowerOps.Lib.Matching
import KollaPowerOps.Lib.OrderedDict
import KollaPowerOps.Lib.PyNumber
import KollaPowerOps.Lib.PyValue
import KollaPowerOps.Container.VolumeSpec

/-!
# Container.Dimensions

The resource limits of a container, and `compare_dimensions` of both workers.

* `Dimensions`, `HostResources` : the mapping that is requested, and what `HostConfig` reports.
* `Docker.compareDimensions`    : texts with units, compared as texts.
* `Podman.compareDimensions`    : values as they stand, and ulimits under their normalized names.

In both workers the ulimits come last in the map of the dimensions.
-/

namespace KollaPowerOps
namespace Container

open PyNumber

inductive PyException where
  | apiError
  | attributeError
  | indexError
  | keyError
  | typeError
  | valueError
  deriving DecidableEq, Repr

/-- How an action of a worker ends early. -/
inductive WorkerExit where
  | failJson (msg : Text)
  /-- `exit_json(failed=True)` with the names that are not supported, or missing. -/
  | exitJson (msg : Text) (names : List Text)
  | raised (e : PyException)
  deriving DecidableEq, Repr

inductive Limit where
  | memLimit
  | memReservation
  | memswapLimit
  | cpuPeriod
  | cpuQuota
  | cpuShares
  | kernelMemory
  | blkioWeight
  deriving DecidableEq, Repr

inductive Cpuset where
  | cpus
  | mems
  deriving DecidableEq, Repr

inductive Dimension where
  | limit (l : Limit)
  | cpuset (s : Cpuset)
  deriving DecidableEq, Repr

def Dimension.name : Dimension → Text
  | .limit .memLimit => "mem_limit".toList
  | .limit .memReservation => "mem_reservation".toList
  | .limit .memswapLimit => "memswap_limit".toList
  | .limit .cpuPeriod => "cpu_period".toList
  | .limit .cpuQuota => "cpu_quota".toList
  | .limit .cpuShares => "cpu_shares".toList
  | .cpuset .cpus => "cpuset_cpus".toList
  | .cpuset .mems => "cpuset_mems".toList
  | .limit .kernelMemory => "kernel_memory".toList
  | .limit .blkioWeight => "blkio_weight".toList

/-- The map of the dimensions, without the ulimits. -/
def dimensionMap : List Dimension := [.limit .memLimit, .limit .memReservation,
  .limit .memswapLimit, .limit .cpuPeriod, .limit .cpuQuota, .limit .cpuShares, .cpuset .cpus,
  .cpuset .mems, .limit .kernelMemory, .limit .blkioWeight]

theorem mem_dimensionMap (d : Dimension) : d ∈ dimensionMap := by
  rcases d with (_ | _ | _ | _ | _ | _ | _ | _) | (_ | _) <;> decide

inductive Scalar where
  | int (i : Int)
  | text (t : Text)
  deriving DecidableEq, Repr

/-- `str(a)` -/
def Scalar.str : Scalar → Text
  | .int i => decimal i
  | .text t => t

def Scalar.truthy : Scalar → Bool
  | .int i => i ≠ 0
  | .text t => t ≠ []

structure UlimitSpec where
  soft : Int
  hard : Int
  deriving DecidableEq, Repr

structure Ulimit where
  name : Text
  soft : Int
  hard : Int
  deriving DecidableEq, Repr

/-- The mapping of a container: the value of each key it has, which can be null, and the keys that
are no dimensions. -/
structure Dimensions where
  scalar : Dimension → Option (Option Scalar) := fun _ => none
  ulimits : Option (Option (OrderedDict Text UlimitSpec)) := none
  other : List Text := []

/-- The resources of `HostConfig`; `none` is null or a missing key. -/
structure HostResources where
  scalar : Dimension → Option Scalar
  ulimits : Option (List Ulimit)

/-! ## What the workers share -/

def buildUlimits (ulimits : OrderedDict Text UlimitSpec) : List Ulimit :=
  ulimits.entries.map fun e => ⟨e.1, e.2.soft, e.2.hard⟩

def compareUlimits (newUlimits : OrderedDict Text UlimitSpec) (currentUlimits : Option (List Ulimit)) :
    Bool :=
  sortBy Ulimit.name (buildUlimits newUlimits) ≠ sortBy Ulimit.name (currentUlimits.getD [])

/-- A chain of `or`: it ends with the first that is true. -/
def anyOf.{u} {m : Type → Type u} [Monad m] : List (m Bool) → m Bool
  | [] => pure false
  | c :: cs => do
    if ← c then
      pure true
    else
      anyOf cs

/-- The keys of the mapping that are not in the map. -/
def unsupportedDimensions (map : List Dimension) (new : Dimensions) : List Text :=
  new.other ++ ((dimensionMap.filter fun d => (new.scalar d).isSome && d ∉ map).map Dimension.name)

def unsupportedMessage : Text := "'Unsupported dimensions'".toList

/-- `compare_dimensions`, over what a worker makes of a dimension and of the ulimits. -/
def compareWith (map : List Dimension)
    (differs : Dimensions → HostResources → Dimension → Except WorkerExit Bool)
    (ulimitsDiffer : Dimensions → HostResources → Except WorkerExit Bool)
    (new : Dimensions) (current : HostResources) : Except WorkerExit Bool := do
  if unsupportedDimensions map new ≠ [] then
    throw (.exitJson unsupportedMessage (unsupportedDimensions map new))
  if ← anyOf (map.map (differs new current)) then
    pure true
  else
    ulimitsDiffer new current

theorem anyOf_eq_false {ε : Type} {cs : List (Except ε Bool)} :
    anyOf cs = .ok false ↔ ∀ c ∈ cs, c = .ok false := by
  induction cs with
  | nil => simp [anyOf, pure, Except.pure]
  | cons c cs ih =>
    rw [anyOf, List.forall_mem_cons, ← ih]
    rcases c with e | b
    · simp [bind, Except.bind]
    · cases b <;> simp [bind, Except.bind, pure, Except.pure]

/-- There is no difference when the mapping is supported and neither a dimension nor the ulimits
differ. -/
theorem compareWith_eq_false {map : List Dimension}
    {differs : Dimensions → HostResources → Dimension → Except WorkerExit Bool}
    {ulimitsDiffer : Dimensions → HostResources → Except WorkerExit Bool} {new : Dimensions}
    {current : HostResources} :
    compareWith map differs ulimitsDiffer new current = .ok false ↔
      unsupportedDimensions map new = [] ∧ (∀ d ∈ map, differs new current d = .ok false) ∧
        ulimitsDiffer new current = .ok false := by
  have hloop : anyOf (map.map (differs new current)) = .ok false ↔
      ∀ d ∈ map, differs new current d = .ok false :=
    anyOf_eq_false.trans List.forall_mem_map
  rw [← hloop, compareWith]
  by_cases hunsupported : unsupportedDimensions map new = []
  · rcases hany : anyOf (map.map (differs new current)) with e | b
    · simp [hunsupported, bind, Except.bind]
    · cases b <;> simp [hunsupported, bind, Except.bind, pure, Except.pure]
  · simp [hunsupported, bind, Except.bind, throw, throwThe, MonadExceptOf.throw]

/-! ## Docker -/

/-- `unit_sizes` -/
def unitSize : Char → Option Int
  | 'b' => some 1
  | 'k' => some 1024
  | 'm' => some (1024 * 1024)
  | 'g' => some (1024 * 1024 * 1024)
  | _ => none

def removedMessage (key : Dimension) : Text :=
  "The dimension [".toList ++ key.name ++
    "] is no more supported by Docker, please remove it from yours configs or change to the new one.".toList

def unitMessage (unit : Char) (a : Text) : Text :=
  "The docker dimension unit [".toList ++ unit :: "] is not supported for the dimension [".toList ++ a ++
    "]. The currently supported units are ['b', 'k', 'm', 'g'].".toList

/-- `a[-1].lower()` -/
def lastChar (a : Text) : Except WorkerExit Char :=
  match a.getLast? with
  | some c => .ok c.toLower
  | none => .error (.raised .indexError)

/-- A text that ends with a unit, multiplied out. -/
def expandUnit (a : Text) (last : Char) : Except WorkerExit Text :=
  if last.isDigit then
    .ok a
  else
    match unitSize last with
    | none => .error (.failJson (unitMessage last a))
    | some size =>
      match parseInt a.dropLast with
      | none => .error (.raised .valueError)
      | some n => .ok (decimal (n * size))

/-- `ContainerWorker.dimensions_differ` -/
def dimensionsDiffer (a b : Option Scalar) (key : Dimension) : Except WorkerExit Bool :=
  match a, b with
  | some a, some b => do
    let aLast ← lastChar a.str
    let bLast ← lastChar b.str
    let a ← expandUnit a.str aLast
    let b ← expandUnit b.str bLast
    pure (a ≠ b)
  | _, _ => .error (.failJson (removedMessage key))

namespace Docker

/-- `str(a or '')` -/
def strOr (a : Option Scalar) : Text :=
  match a with
  | some a => if a.truthy then a.str else []
  | none => []

/-- `DockerWorker.dimensions_differ` -/
def dimensionsDiffer (a b : Option Scalar) (key : Dimension) : Except WorkerExit Bool :=
  match key with
  | .cpuset _ => .ok (strOr a ≠ strOr b)
  | .limit _ => Container.dimensionsDiffer a b key

/-- Without the kernel memory. -/
def dimensionMap : List Dimension := Container.dimensionMap.filter (· ≠ .limit .kernelMemory)

theorem mem_dockerMap {d : Dimension} : d ∈ dimensionMap ↔ d ≠ .limit .kernelMemory := by
  rw [dimensionMap, List.mem_filter, and_iff_right (mem_dimensionMap d), decide_eq_true_iff]

/-- The mapping is supported when it has no other key and no kernel memory. -/
theorem unsupported_iff {new : Dimensions} : unsupportedDimensions dimensionMap new = [] ↔
    new.other = [] ∧ new.scalar (.limit .kernelMemory) = none := by
  rw [unsupportedDimensions, List.append_eq_nil_iff, List.map_eq_nil_iff, List.filter_eq_nil_iff]
  refine and_congr_right' ?_
  constructor
  · intro h
    have hkernel := h (.limit .kernelMemory) (mem_dimensionMap _)
    have hout : Dimension.limit .kernelMemory ∉ dimensionMap := fun hmem => mem_dockerMap.mp hmem rfl
    simpa [hout] using hkernel
  · intro h d _
    rw [Bool.and_eq_true, decide_eq_true_iff, mem_dockerMap, not_not]
    rintro ⟨hsome, rfl⟩
    rw [h] at hsome
    cases hsome

/-- One pass of the loop: the requested value, or else the default. -/
def scalarDiffers (new : Dimensions) (current : HostResources) (d : Dimension) :
    Except WorkerExit Bool :=
  match new.scalar d with
  | some a => dimensionsDiffer a (current.scalar d) d
  -- the default values are '' or 0
  | none => .ok ((current.scalar d).any Scalar.truthy)

def ulimitsDiffer (new : Dimensions) (current : HostResources) : Except WorkerExit Bool :=
  match new.ulimits with
  | some (some ulimits) => .ok (compareUlimits ulimits current.ulimits)
  | some none => .error (.raised .attributeError)
  | none => .ok (current.ulimits.getD [] ≠ [])

def compareDimensions (new : Dimensions) (current : HostResources) : Except WorkerExit Bool :=
  compareWith dimensionMap scalarDiffers ulimitsDiffer new current

end Docker

/-! ## Podman -/

namespace Podman

section Names

variable (rt : PyRuntime)

def upper (name : Text) : Text := (rt.upper (String.ofList name)).toList

def normalizeUlimitName (name : Text) : Text :=
  let name := upper rt name
  if "RLIMIT_".toList.isPrefixOf name then name else "RLIMIT_".toList ++ name

end Names

/-- The ulimits that Podman sets on its own. -/
def defaultUlimits : List Text := ["RLIMIT_NOFILE".toList, "RLIMIT_NPROC".toList]

/-- A value is compared as it stands; what is not requested has to be reported. -/
def scalarDiffers (new : Dimensions) (current : HostResources) (d : Dimension) :
    Except WorkerExit Bool :=
  match new.scalar d with
  | some a => .ok (a ≠ current.scalar d)
  | none =>
    match current.scalar d with
    | none => .error (.raised .keyError)
    | some b => .ok b.truthy

variable (rt : PyRuntime)

/-- The requested ulimits under their normalized names, without the default ones: a name that comes
again replaces the value. -/
def desiredUlimits (ulimits : OrderedDict Text UlimitSpec) : OrderedDict Text UlimitSpec :=
  .ofList ((ulimits.entries.filter fun e => normalizeUlimitName rt e.1 ∉ defaultUlimits).map
    fun e => (normalizeUlimitName rt e.1, e.2))

def normalizedCurrent (current : List Ulimit) : List Ulimit :=
  (current.filter fun u => u.name ∉ defaultUlimits).map
    fun u => { u with name := normalizeUlimitName rt u.name }

def ulimitsDiffer (new : Dimensions) (current : HostResources) : Except WorkerExit Bool :=
  match new.ulimits.getD (some .empty) with
  | some ulimits => .ok (compareUlimits (desiredUlimits rt ulimits)
      (some (normalizedCurrent rt (current.ulimits.getD []))))
  | none => .error (.raised .attributeError)

def compareDimensions (new : Dimensions) (current : HostResources) : Except WorkerExit Bool :=
  compareWith dimensionMap scalarDiffers (ulimitsDiffer rt) new current

end Podman

end Container
end KollaPowerOps
