import KollaPowerOps.Container.Dimensions

/-!
# Container.Resources

What a mapping of dimensions denotes, and when `compare_dimensions` decides it.

* `ResourceRequest`              : the mappings that are accepted, with integers and texts of digits.
* `Docker.Denoted`, `Podman.Denoted` : `HostConfig` has what the mapping denotes, and else the defaults.
* `Docker.correct_iff`, `Podman.correct_iff` : the mappings that each worker decides right.
-/

namespace KollaPowerOps
namespace Container

open PyNumber

inductive SizeUnit where
  | b
  | k
  | m
  | g
  deriving DecidableEq, Repr

def SizeUnit.char : SizeUnit → Char
  | .b => 'b'
  | .k => 'k'
  | .m => 'm'
  | .g => 'g'

def SizeUnit.size : SizeUnit → Int
  | .b => 1
  | .k => 1024
  | .m => 1024 * 1024
  | .g => 1024 * 1024 * 1024

/-- An amount: an integer, or a text of digits that may end with a unit. -/
inductive Quantity where
  | int (i : Int)
  | digits (ds : Text) (unit : Option SizeUnit) (h : IsDigits ds)

namespace Quantity

def scalar : Quantity → Scalar
  | .int i => .int i
  | .digits ds none _ => .text ds
  | .digits ds (some unit) _ => .text (ds ++ [unit.char])

/-- The number that is meant. -/
def value : Quantity → Int
  | .int i => i
  | .digits ds none _ => digitsValue ds
  | .digits ds (some unit) _ => digitsValue ds * unit.size

def hasUnit : Quantity → Bool
  | .digits _ (some _) _ => true
  | _ => false

/-- The amount is no text of digits with leading zeros, unless a unit follows. -/
def Plain : Quantity → Prop
  | .digits ds none _ => Canonical ds
  | _ => True

end Quantity

theorem toLower_digit {c : Char} (h : c.isDigit = true) : c.toLower = c := by
  obtain ⟨_, hhigh⟩ := isDigit_bounds h
  have hupper : ¬ (c.val ≥ 'A'.val ∧ c.val ≤ 'Z'.val) := by
    rintro ⟨hA, _⟩
    have hA' : 65 ≤ c.toNat := hA
    omega
  unfold Char.toLower
  exact dif_neg hupper

theorem SizeUnit.char_spec (unit : SizeUnit) :
    unit.char.toLower = unit.char ∧ unit.char.isDigit = false ∧ unitSize unit.char = some unit.size := by
  cases unit <;> decide

/-- A text that ends with a digit stays. -/
theorem expand_digit {t : Text} {c : Char} (hc : t.getLast? = some c) (hdigit : c.isDigit = true) :
    lastChar t = .ok c ∧ expandUnit t c = .ok t := by
  rw [lastChar, hc, expandUnit, if_pos hdigit]
  exact ⟨congrArg _ (toLower_digit hdigit), rfl⟩

/-- A text with a unit is multiplied out. -/
theorem expand_unit {ds : Text} (hds : IsDigits ds) (unit : SizeUnit) :
    lastChar (ds ++ [unit.char]) = .ok unit.char ∧
      expandUnit (ds ++ [unit.char]) unit.char = .ok (decimal (digitsValue ds * unit.size)) := by
  obtain ⟨hlower, hdigit, hsize⟩ := unit.char_spec
  rw [lastChar, List.getLast?_concat, expandUnit, hdigit, if_neg Bool.false_ne_true, hsize,
    List.dropLast_concat, parseInt_digits hds]
  exact ⟨congrArg _ hlower, rfl⟩

/-- What the comparison makes of an amount: the notation of its number, unless zeros lead it. -/
theorem expand_quantity (q : Quantity) :
    ∃ last t, lastChar q.scalar.str = .ok last ∧ expandUnit q.scalar.str last = .ok t ∧
      ∀ i, decimal i = t ↔ i = q.value ∧ q.Plain := by
  cases q with
  | int i =>
    obtain ⟨c, hc, hdigit⟩ := getLast_decimal i
    obtain ⟨hlast, hexpand⟩ := expand_digit hc hdigit
    refine ⟨c, decimal i, hlast, hexpand, fun j => ?_⟩
    exact ⟨fun h => ⟨decimal_injective h, trivial⟩, fun h => congrArg decimal h.1⟩
  | digits ds unit hds =>
    cases unit with
    | none =>
      obtain ⟨hlast, hexpand⟩ := expand_digit (List.getLast?_eq_some_getLast hds.1)
        (hds.2 _ (List.getLast_mem hds.1))
      exact ⟨_, ds, hlast, hexpand, fun i => decimal_eq_iff hds⟩
    | some unit =>
      obtain ⟨hlast, hexpand⟩ := expand_unit hds unit
      refine ⟨_, _, hlast, hexpand, fun j => ?_⟩
      exact ⟨fun h => ⟨decimal_injective h, trivial⟩, fun h => congrArg decimal h.1⟩

/-- An amount is found to be the reported number if it denotes it and no zeros lead it. -/
theorem dimensionsDiffer_quantity (q : Quantity) (i : Int) (key : Dimension) :
    dimensionsDiffer (some q.scalar) (some (.int i)) key = .ok false ↔ i = q.value ∧ q.Plain := by
  obtain ⟨last, t, hlast, ht, hvalue⟩ := expand_quantity q
  obtain ⟨last', t', hlast', ht', hvalue'⟩ := expand_quantity (.int i)
  have hi : decimal i = t' := (hvalue' i).mpr ⟨rfl, trivial⟩
  have hlast'' : lastChar (Scalar.int i).str = .ok last' := hlast'
  have ht'' : expandUnit (Scalar.int i).str last' = .ok t' := ht'
  rw [← hvalue i, hi, dimensionsDiffer]
  simp only [hlast, hlast'', ht, ht'', bind, Except.bind, pure, Except.pure, Except.ok.injEq,
    decide_eq_false_iff_not, ne_eq, not_not]
  exact eq_comm

/-! ## The mappings that are accepted -/

/-- The memory dimensions may have a unit. -/
def Limit.isMemory : Limit → Bool
  | .memLimit | .memReservation | .memswapLimit | .kernelMemory => true
  | _ => false

structure ResourceRequest where
  limit : Limit → Option Quantity := fun _ => none
  cpuset : Cpuset → Option Scalar := fun _ => none
  ulimits : Option (OrderedDict Text UlimitSpec) := none
  unit_memory : ∀ l q, limit l = some q → q.hasUnit = true → l.isMemory = true
  ascii : ∀ name ∈ (ulimits.getD .empty).keys, isAscii (String.ofList name) = true

namespace ResourceRequest

variable (r : ResourceRequest)

def dimensions : Dimensions where
  scalar
    | .limit l => (r.limit l).map fun q => some q.scalar
    | .cpuset s => (r.cpuset s).map some
  ulimits := r.ulimits.map some

/-- The number that is requested, or the default. -/
def limitValue (l : Limit) : Int := (r.limit l).elim 0 Quantity.value

def cpusetText (s : Cpuset) : Text := (r.cpuset s).elim [] Scalar.str

def ulimitList : List Ulimit := buildUlimits (r.ulimits.getD .empty)

end ResourceRequest

/-! ## Docker -/

namespace Docker

/-- What Docker reports; it has no kernel memory. -/
structure Reported (c : HostResources) : Prop where
  limit : ∀ l, l ≠ .kernelMemory → ∃ i, c.scalar (.limit l) = some (.int i)
  cpuset : ∀ s, ∃ t, c.scalar (.cpuset s) = some (.text t)
  ulimits : ((c.ulimits.getD []).map Ulimit.name).Nodup

/-- `HostConfig` has every dimension as requested, or else the default. -/
structure Denoted (r : ResourceRequest) (c : HostResources) : Prop where
  limit : ∀ l, l ≠ .kernelMemory → c.scalar (.limit l) = some (.int (r.limitValue l))
  cpuset : ∀ s, c.scalar (.cpuset s) = some (.text (r.cpusetText s))
  ulimits : ∀ u, u ∈ c.ulimits.getD [] ↔ u ∈ r.ulimitList

/-- The mapping has no dimension that Docker does not know. -/
def Accepts (r : ResourceRequest) : Prop := r.limit .kernelMemory = none

/-- The comparison finds no difference exactly where there is none. -/
def Correct (r : ResourceRequest) : Prop :=
  Accepts r → ∀ c, Reported c → (compareDimensions r.dimensions c = .ok false ↔ Denoted r c)

/-- No zeros lead an amount that is given as a text without a unit, and no set of processors is the
integer zero. -/
def Decided (r : ResourceRequest) : Prop :=
  Accepts r → (∀ l q, r.limit l = some q → q.Plain) ∧ ∀ s, r.cpuset s ≠ some (.int 0)

variable {r : ResourceRequest} {c : HostResources}

theorem accepts_iff : unsupportedDimensions dimensionMap r.dimensions = [] ↔ Accepts r := by
  rw [unsupported_iff, Accepts]
  exact (and_iff_right rfl).trans Option.map_eq_none_iff

theorem scalarDiffers_limit {l : Limit} {i : Int} (hi : c.scalar (.limit l) = some (.int i)) :
    scalarDiffers r.dimensions c (.limit l) = .ok false ↔
      i = r.limitValue l ∧ ∀ q, r.limit l = some q → q.Plain := by
  rw [scalarDiffers, ResourceRequest.limitValue, hi]
  cases hq : r.limit l with
  | none => simp [ResourceRequest.dimensions, hq, Scalar.truthy]
  | some q =>
    simp only [ResourceRequest.dimensions, hq, Option.map_some, Option.elim_some, Option.some.injEq,
      forall_eq']
    exact dimensionsDiffer_quantity q i (.limit l)

theorem strOr_text (t : Text) : strOr (some (.text t)) = t := by
  cases t <;> rfl

theorem strOr_none : strOr none = [] := rfl

theorem scalarDiffers_cpuset {s : Cpuset} {t : Text} (ht : c.scalar (.cpuset s) = some (.text t)) :
    scalarDiffers r.dimensions c (.cpuset s) = .ok false ↔ t = strOr (r.cpuset s) := by
  rw [scalarDiffers, ht]
  cases hs : r.cpuset s with
  | none => simp [ResourceRequest.dimensions, hs, Scalar.truthy, strOr_none]
  | some a =>
    simp only [ResourceRequest.dimensions, hs, Option.map_some, dimensionsDiffer, strOr_text,
      Except.ok.injEq, decide_eq_false_iff_not, ne_eq, not_not]
    exact eq_comm

/-- The text that is requested is compared, unless it is the integer zero. -/
theorem strOr_cpuset {s : Cpuset} : strOr (r.cpuset s) = r.cpusetText s ↔ r.cpuset s ≠ some (.int 0) := by
  rw [ResourceRequest.cpusetText]
  cases r.cpuset s with
  | none => simp [strOr_none]
  | some a =>
    cases a with
    | text t => simp [strOr_text, Scalar.str]
    | int i =>
      by_cases hi : i = 0
      · subst hi
        simp [strOr, Scalar.truthy, Scalar.str, (decimal_ne_nil 0).symm]
      · simp [strOr, Scalar.truthy, Scalar.str, hi]

theorem nodup_buildUlimits (ulimits : OrderedDict Text UlimitSpec) :
    ((buildUlimits ulimits).map Ulimit.name).Nodup := by
  rw [buildUlimits, List.map_map]
  exact ulimits.nodup

theorem ulimitsDiffer_eq_false (hc : ((c.ulimits.getD []).map Ulimit.name).Nodup) :
    ulimitsDiffer r.dimensions c = .ok false ↔ ∀ u, u ∈ c.ulimits.getD [] ↔ u ∈ r.ulimitList := by
  rw [ulimitsDiffer, ResourceRequest.ulimitList, ResourceRequest.dimensions]
  cases r.ulimits with
  | none =>
    simp only [Option.map_none, Except.ok.injEq, decide_eq_false_iff_not, ne_eq, not_not, Option.getD_none]
    exact List.eq_nil_iff_forall_not_mem.trans (forall_congr' fun u => (iff_false_right List.not_mem_nil).symm)
  | some ulimits =>
    simp only [Option.map_some, compareUlimits, Except.ok.injEq, decide_eq_false_iff_not, ne_eq,
      not_not, Option.getD_some]
    rw [sortBy_eq_iff_mem (nodup_buildUlimits ulimits) hc]
    exact forall_congr' fun u => iff_comm

/-- What it takes for the comparison to find no difference. -/
theorem compare_eq_false (hr : Accepts r) (hc : Reported c) :
    compareDimensions r.dimensions c = .ok false ↔
      (∀ l, l ≠ .kernelMemory → c.scalar (.limit l) = some (.int (r.limitValue l)) ∧
        ∀ q, r.limit l = some q → q.Plain) ∧
      (∀ s, c.scalar (.cpuset s) = some (.text (strOr (r.cpuset s)))) ∧
      ∀ u, u ∈ c.ulimits.getD [] ↔ u ∈ r.ulimitList := by
  have hlimit : ∀ l, l ≠ .kernelMemory →
      (scalarDiffers r.dimensions c (.limit l) = .ok false ↔
        c.scalar (.limit l) = some (.int (r.limitValue l)) ∧ ∀ q, r.limit l = some q → q.Plain) := by
    intro l hl
    obtain ⟨i, hi⟩ := hc.limit l hl
    rw [scalarDiffers_limit hi, hi, Option.some.injEq, Scalar.int.injEq]
  have hcpuset : ∀ s, scalarDiffers r.dimensions c (.cpuset s) = .ok false ↔
      c.scalar (.cpuset s) = some (.text (strOr (r.cpuset s))) := by
    intro s
    obtain ⟨t, ht⟩ := hc.cpuset s
    rw [scalarDiffers_cpuset ht, ht, Option.some.injEq, Scalar.text.injEq]
  rw [compareDimensions, compareWith_eq_false, and_iff_right (accepts_iff.mpr hr),
    ulimitsDiffer_eq_false hc.ulimits, ← and_assoc]
  refine and_congr_left' ?_
  constructor
  · intro h
    refine ⟨fun l hl => (hlimit l hl).mp (h _ (mem_dockerMap.mpr ?_)),
      fun s => (hcpuset s).mp (h _ (mem_dockerMap.mpr Dimension.noConfusion))⟩
    exact fun heq => hl (Dimension.limit.inj heq)
  · rintro ⟨hlimits, hcpusets⟩ d hd
    cases d with
    | limit l =>
      have hl : l ≠ .kernelMemory := fun heq => mem_dockerMap.mp hd (congrArg Dimension.limit heq)
      exact (hlimit l hl).mpr (hlimits l hl)
    | cpuset s => exact (hcpuset s).mpr (hcpusets s)

/-- What Docker reports of a container that was created with the mapping. -/
def denotedOf (r : ResourceRequest) : HostResources where
  scalar
    | .limit l => some (.int (r.limitValue l))
    | .cpuset s => some (.text (r.cpusetText s))
  ulimits := some r.ulimitList

theorem reported_denotedOf (r : ResourceRequest) : Reported (denotedOf r) :=
  ⟨fun _ _ => ⟨_, rfl⟩, fun _ => ⟨_, rfl⟩, nodup_buildUlimits _⟩

theorem denoted_denotedOf (r : ResourceRequest) : Denoted r (denotedOf r) :=
  ⟨fun _ _ => rfl, fun _ => rfl, fun _ => Iff.rfl⟩

theorem correct_iff (r : ResourceRequest) : Correct r ↔ Decided r := by
  constructor
  · intro h hr
    have hcreated := (h hr _ (reported_denotedOf r)).mpr (denoted_denotedOf r)
    obtain ⟨hlimits, hcpusets, _⟩ := (compare_eq_false hr (reported_denotedOf r)).mp hcreated
    refine ⟨fun l q hq => ?_, fun s => ?_⟩
    · by_cases hl : l = .kernelMemory
      · rw [hl, hr] at hq
        cases hq
      · exact (hlimits l hl).2 q hq
    · have hsame : r.cpusetText s = strOr (r.cpuset s) :=
        Scalar.text.inj (Option.some.inj (hcpusets s))
      exact strOr_cpuset.mp hsame.symm
  · intro h hr c hc
    obtain ⟨hplain, hzero⟩ := h hr
    rw [compare_eq_false hr hc]
    constructor
    · rintro ⟨hlimits, hcpusets, hulimits⟩
      refine ⟨fun l hl => (hlimits l hl).1, fun s => ?_, hulimits⟩
      rw [hcpusets s, strOr_cpuset.mpr (hzero s)]
    · rintro ⟨hlimits, hcpusets, hulimits⟩
      refine ⟨fun l hl => ⟨hlimits l hl, hplain l⟩, fun s => ?_, hulimits⟩
      rw [hcpusets s, strOr_cpuset.mpr (hzero s)]

end Docker

/-! ## Podman -/

namespace Podman

variable (rt : PyRuntime)

/-- What Podman reports: every limit once, under its normalized name. -/
structure Reported (c : HostResources) : Prop where
  limit : ∀ l, ∃ i, c.scalar (.limit l) = some (.int i)
  cpuset : ∀ s, ∃ t, c.scalar (.cpuset s) = some (.text t)
  ulimits : ((c.ulimits.getD []).map Ulimit.name).Nodup
  normalized : ∀ u ∈ c.ulimits.getD [], normalizeUlimitName rt u.name = u.name

/-- The ulimits that are requested, under their normalized names. The names of the default ulimits
are taken out of the mapping by design. -/
def requestedUlimits (r : ResourceRequest) : List Ulimit :=
  (r.ulimitList.filter fun u => u.name ∉ defaultUlimits).map
    fun u => { u with name := normalizeUlimitName rt u.name }

/-- `HostConfig` has every dimension as requested, or else the default: of the ulimits those that
Podman sets on its own. -/
structure Denoted (r : ResourceRequest) (c : HostResources) : Prop where
  limit : ∀ l, c.scalar (.limit l) = some (.int (r.limitValue l))
  cpuset : ∀ s, c.scalar (.cpuset s) = some (.text (r.cpusetText s))
  requested : ∀ u ∈ requestedUlimits rt r, u ∈ c.ulimits.getD []
  default : ∀ u ∈ c.ulimits.getD [], u.name ∈ defaultUlimits ∨ u ∈ requestedUlimits rt r

/-- The comparison finds no difference exactly where there is none. -/
def Correct (r : ResourceRequest) : Prop :=
  ∀ c, Reported rt c → (compareDimensions rt r.dimensions c = .ok false ↔ Denoted rt r c)

/-- The values have the types that Podman reports. -/
def Matchable (r : ResourceRequest) : Prop :=
  (∀ l q, r.limit l = some q → ∃ i, q = .int i) ∧ ∀ s a, r.cpuset s = some a → ∃ t, a = .text t

/-- Two names of one limit request the same. -/
def Consistent (r : ResourceRequest) : Prop :=
  ∀ u ∈ requestedUlimits rt r, ∀ v ∈ requestedUlimits rt r, u.name = v.name → u = v

/-- No other form of the name of a default ulimit is requested. -/
def NoDefaults (r : ResourceRequest) : Prop :=
  ∀ u ∈ requestedUlimits rt r, u.name ∉ defaultUlimits

/-- The values have the types that Podman reports and every ulimit is compared; or nothing can have
what is requested, and nothing is found to have it. -/
def Decided (r : ResourceRequest) : Prop :=
  (Matchable r ∧ Consistent rt r ∧ NoDefaults rt r) ∨ (¬ Matchable r ∧ ¬ Consistent rt r)

variable {rt} {r : ResourceRequest} {c : HostResources}

theorem supported : unsupportedDimensions dimensionMap r.dimensions = [] := by
  rw [unsupportedDimensions]
  change [] ++ _ = []
  rw [List.nil_append, List.map_eq_nil_iff, List.filter_eq_nil_iff]
  intro d _
  simp [mem_dimensionMap d]

theorem scalarDiffers_limit {l : Limit} {i : Int} (hi : c.scalar (.limit l) = some (.int i)) :
    scalarDiffers r.dimensions c (.limit l) = .ok false ↔
      i = r.limitValue l ∧ ∀ q, r.limit l = some q → ∃ j, q = .int j := by
  rw [scalarDiffers, ResourceRequest.limitValue, hi]
  cases hq : r.limit l with
  | none => simp [ResourceRequest.dimensions, hq, Scalar.truthy]
  | some q =>
    rcases q with j | ⟨ds, _ | unit, hds⟩
    · have hint : ∃ j', Quantity.int j = .int j' := ⟨j, rfl⟩
      simp only [ResourceRequest.dimensions, hq, Quantity.scalar, Quantity.value, Option.map_some,
        Option.elim_some, Option.some.injEq, Scalar.int.injEq, Except.ok.injEq, ne_eq,
        decide_eq_false_iff_not, not_not, forall_eq', hint, and_true]
      exact eq_comm
    · simp [ResourceRequest.dimensions, hq, Quantity.scalar]
    · simp [ResourceRequest.dimensions, hq, Quantity.scalar]

theorem scalarDiffers_cpuset {s : Cpuset} {t : Text} (ht : c.scalar (.cpuset s) = some (.text t)) :
    scalarDiffers r.dimensions c (.cpuset s) = .ok false ↔
      t = r.cpusetText s ∧ ∀ a, r.cpuset s = some a → ∃ t', a = .text t' := by
  rw [scalarDiffers, ResourceRequest.cpusetText, ht]
  cases hs : r.cpuset s with
  | none => simp [ResourceRequest.dimensions, hs, Scalar.truthy]
  | some a =>
    cases a with
    | int i => simp [ResourceRequest.dimensions, hs]
    | text t' =>
      simp only [ResourceRequest.dimensions, hs, Scalar.str, Option.map_some, Option.elim_some,
        Option.some.injEq, Scalar.text.injEq, Except.ok.injEq, ne_eq, decide_eq_false_iff_not,
        not_not, forall_eq', exists_eq', and_true]
      exact eq_comm

/-! ### Normalized names -/

theorem toUpper_toUpper (c : Char) : c.toUpper.toUpper = c.toUpper := by
  have hlower : ¬ (c.toUpper.val ≥ 'a'.val ∧ c.toUpper.val ≤ 'z'.val) := by
    unfold Char.toUpper
    split <;> grind [UInt32.toNat_add]
  conv_lhs => unfold Char.toUpper
  exact dif_neg hlower

theorem toUpper_ascii {c : Char} (h : c.toNat < 128) : c.toUpper.toNat < 128 := by
  have hall : ∀ n < 128, (Char.ofNat n).toUpper.toNat < 128 := by decide
  have hc := hall c.toNat h
  rwa [Char.ofNat_toNat] at hc

/-- A name that stays as it is. -/
structure Normal (name : Text) : Prop where
  ascii : ∀ c ∈ name, c.toNat < 128
  fixed : name.map Char.toUpper = name
  stem : "RLIMIT_".toList.isPrefixOf name = true

theorem upper_ascii {name : Text} (h : ∀ c ∈ name, c.toNat < 128) :
    upper rt name = name.map Char.toUpper := by
  have hascii : isAscii (String.ofList name) = true := by
    simpa [isAscii] using h
  rw [upper, rt.upper_ascii _ hascii, asciiUpper, String.toList_ofList, String.toList_ofList]

theorem Normal.normalize {name : Text} (h : Normal name) : normalizeUlimitName rt name = name := by
  rw [normalizeUlimitName, upper_ascii h.ascii, h.fixed, if_pos h.stem]

theorem normal_normalize {name : Text} (h : ∀ c ∈ name, c.toNat < 128) :
    Normal (normalizeUlimitName rt name) := by
  have hascii : ∀ c ∈ name.map Char.toUpper, c.toNat < 128 := by
    intro c hc
    obtain ⟨c', hc', rfl⟩ := List.mem_map.mp hc
    exact toUpper_ascii (h c' hc')
  have hfixed : (name.map Char.toUpper).map Char.toUpper = name.map Char.toUpper := by
    rw [List.map_map]
    exact List.map_congr_left fun c _ => toUpper_toUpper c
  have hstem : ∀ c ∈ "RLIMIT_".toList, c.toNat < 128 := by simp
  rw [normalizeUlimitName, upper_ascii h]
  split
  · rename_i hprefix
    exact ⟨hascii, hfixed, hprefix⟩
  · refine ⟨List.forall_mem_append.mpr ⟨hstem, hascii⟩, ?_, ?_⟩
    · rw [List.map_append, hfixed]
      rfl
    · rw [List.isPrefixOf_iff_prefix]
      exact List.prefix_append _ _

theorem normal_default {name : Text} (h : name ∈ defaultUlimits) : Normal name := by
  rw [defaultUlimits, List.mem_cons, List.mem_singleton] at h
  rcases h with rfl | rfl
  · exact ⟨by simp, by decide, by decide⟩
  · exact ⟨by simp, by decide, by decide⟩

theorem ascii_ulimitList {u : Ulimit} (hu : u ∈ r.ulimitList) : ∀ c ∈ u.name, c.toNat < 128 := by
  rw [ResourceRequest.ulimitList, buildUlimits, List.mem_map] at hu
  obtain ⟨e, he, rfl⟩ := hu
  have hascii := r.ascii e.1 (List.mem_map_of_mem he)
  simpa [isAscii] using hascii

theorem normal_requested {u : Ulimit} (hu : u ∈ requestedUlimits rt r) : Normal u.name := by
  rw [requestedUlimits, List.mem_map] at hu
  obtain ⟨v, hv, rfl⟩ := hu
  exact normal_normalize (ascii_ulimitList (List.mem_filter.mp hv).1)

/-! ### The ulimits -/

/-- The entries of the desired ulimits, before a name replaces another. -/
theorem mem_desiredPairs {u : Ulimit} :
    (u.name, (⟨u.soft, u.hard⟩ : UlimitSpec)) ∈ ((r.ulimits.getD .empty).entries.filter
      fun e => normalizeUlimitName rt e.1 ∉ defaultUlimits).map
        (fun e => (normalizeUlimitName rt e.1, e.2)) ↔
      u ∈ requestedUlimits rt r ∧ u.name ∉ defaultUlimits := by
  rw [requestedUlimits, List.mem_map, List.mem_map]
  constructor
  · rintro ⟨⟨name, spec⟩, he, heq⟩
    obtain ⟨hmem, hout⟩ := List.mem_filter.mp he
    obtain ⟨hname, hspec⟩ := Prod.mk.inj heq
    have hout' : normalizeUlimitName rt name ∉ defaultUlimits := of_decide_eq_true hout
    have hne : name ∉ defaultUlimits := fun hin => by
      rw [(normal_default hin).normalize] at hout'
      exact hout' hin
    refine ⟨⟨⟨name, spec.soft, spec.hard⟩, ?_, ?_⟩, hname ▸ hout'⟩
    · rw [List.mem_filter, ResourceRequest.ulimitList, buildUlimits]
      exact ⟨List.mem_map_of_mem hmem, decide_eq_true hne⟩
    · cases u
      cases hspec
      exact congrArg (Ulimit.mk · _ _) hname
  · rintro ⟨⟨v, hv, rfl⟩, hout⟩
    obtain ⟨hmem, _⟩ := List.mem_filter.mp hv
    rw [ResourceRequest.ulimitList, buildUlimits, List.mem_map] at hmem
    obtain ⟨e, he, rfl⟩ := hmem
    exact ⟨e, List.mem_filter.mpr ⟨he, decide_eq_true hout⟩, rfl⟩

theorem mem_buildUlimits {ulimits : OrderedDict Text UlimitSpec} {u : Ulimit} :
    u ∈ buildUlimits ulimits ↔ (u.name, ⟨u.soft, u.hard⟩) ∈ ulimits.entries := by
  rw [buildUlimits, List.mem_map]
  constructor
  · rintro ⟨e, he, rfl⟩
    exact he
  · intro h
    exact ⟨_, h, rfl⟩

/-- The ulimits that are desired are requested. -/
theorem mem_requested_of_desired {u : Ulimit}
    (hu : u ∈ buildUlimits (desiredUlimits rt (r.ulimits.getD .empty))) :
    u ∈ requestedUlimits rt r ∧ u.name ∉ defaultUlimits :=
  mem_desiredPairs.mp (OrderedDict.mem_of_mem_ofList (mem_buildUlimits.mp hu))

theorem mem_desired (h : Consistent rt r) {u : Ulimit} :
    u ∈ buildUlimits (desiredUlimits rt (r.ulimits.getD .empty)) ↔
      u ∈ requestedUlimits rt r ∧ u.name ∉ defaultUlimits := by
  rw [← mem_desiredPairs, mem_buildUlimits, desiredUlimits]
  refine OrderedDict.mem_ofList fun e he e' he' hkey => ?_
  have hu := (mem_desiredPairs (u := ⟨e.1, e.2.soft, e.2.hard⟩)).mp he
  have hv := (mem_desiredPairs (u := ⟨e'.1, e'.2.soft, e'.2.hard⟩)).mp he'
  have hsame := h _ hu.1 _ hv.1 hkey
  obtain ⟨name, soft, hard⟩ := e
  obtain ⟨name', soft', hard'⟩ := e'
  cases hsame
  rfl

theorem normalizedCurrent_eq (hc : Reported rt c) : normalizedCurrent rt (c.ulimits.getD []) =
    (c.ulimits.getD []).filter fun u => u.name ∉ defaultUlimits := by
  rw [normalizedCurrent]
  refine (List.map_congr_left fun v hv => ?_).trans (List.map_id _)
  rw [hc.normalized v (List.mem_filter.mp hv).1]
  rfl

theorem mem_normalizedCurrent (hc : Reported rt c) {u : Ulimit} :
    u ∈ normalizedCurrent rt (c.ulimits.getD []) ↔
      u ∈ c.ulimits.getD [] ∧ u.name ∉ defaultUlimits := by
  rw [normalizedCurrent_eq hc, List.mem_filter, decide_eq_true_iff]

theorem ulimitsDiffer_eq_false (hc : Reported rt c) :
    ulimitsDiffer rt r.dimensions c = .ok false ↔
      ∀ u, u ∈ buildUlimits (desiredUlimits rt (r.ulimits.getD .empty)) ↔
        u ∈ c.ulimits.getD [] ∧ u.name ∉ defaultUlimits := by
  have hnodup : ((normalizedCurrent rt (c.ulimits.getD [])).map Ulimit.name).Nodup := by
    rw [normalizedCurrent_eq hc]
    exact hc.ulimits.sublist (List.filter_sublist.map _)
  have hulimits : ulimitsDiffer rt r.dimensions c = .ok (compareUlimits
      (desiredUlimits rt (r.ulimits.getD .empty)) (some (normalizedCurrent rt (c.ulimits.getD [])))) := by
    rw [ulimitsDiffer, ResourceRequest.dimensions]
    cases r.ulimits <;> rfl
  rw [hulimits, Except.ok.injEq, compareUlimits, decide_eq_false_iff_not, not_not]
  change sortBy Ulimit.name (buildUlimits (desiredUlimits rt (r.ulimits.getD .empty))) =
    sortBy Ulimit.name (normalizedCurrent rt (c.ulimits.getD [])) ↔ _
  rw [sortBy_eq_iff_mem (Docker.nodup_buildUlimits _) hnodup]
  exact forall_congr' fun u => iff_congr Iff.rfl (mem_normalizedCurrent hc)

/-! ### When the comparison is right -/

/-- What it takes for the comparison to find no difference. -/
theorem compare_eq_false (hc : Reported rt c) :
    compareDimensions rt r.dimensions c = .ok false ↔
      Matchable r ∧ (∀ l, c.scalar (.limit l) = some (.int (r.limitValue l))) ∧
      (∀ s, c.scalar (.cpuset s) = some (.text (r.cpusetText s))) ∧
      ∀ u, u ∈ buildUlimits (desiredUlimits rt (r.ulimits.getD .empty)) ↔
        u ∈ c.ulimits.getD [] ∧ u.name ∉ defaultUlimits := by
  have hlimit : ∀ l, scalarDiffers r.dimensions c (.limit l) = .ok false ↔
      c.scalar (.limit l) = some (.int (r.limitValue l)) ∧
        ∀ q, r.limit l = some q → ∃ i, q = .int i := by
    intro l
    obtain ⟨i, hi⟩ := hc.limit l
    rw [scalarDiffers_limit hi, hi, Option.some.injEq, Scalar.int.injEq]
  have hcpuset : ∀ s, scalarDiffers r.dimensions c (.cpuset s) = .ok false ↔
      c.scalar (.cpuset s) = some (.text (r.cpusetText s)) ∧
        ∀ a, r.cpuset s = some a → ∃ t, a = .text t := by
    intro s
    obtain ⟨t, ht⟩ := hc.cpuset s
    rw [scalarDiffers_cpuset ht, ht, Option.some.injEq, Scalar.text.injEq]
  rw [compareDimensions, compareWith_eq_false, and_iff_right supported, ulimitsDiffer_eq_false hc,
    ← and_assoc, ← and_assoc]
  refine and_congr_left' ?_
  constructor
  · intro h
    have hlimits := fun l => (hlimit l).mp (h (.limit l) (mem_dimensionMap _))
    have hcpusets := fun s => (hcpuset s).mp (h (.cpuset s) (mem_dimensionMap _))
    exact ⟨⟨⟨fun l => (hlimits l).2, fun s => (hcpusets s).2⟩, fun l => (hlimits l).1⟩,
      fun s => (hcpusets s).1⟩
  · rintro ⟨⟨⟨hints, htexts⟩, hlimits⟩, hcpusets⟩ d _
    cases d with
    | limit l => exact (hlimit l).mpr ⟨hlimits l, hints l⟩
    | cpuset s => exact (hcpuset s).mpr ⟨hcpusets s, htexts s⟩

/-- A host configuration with the requested values, and with these ulimits. -/
def denotedWith (r : ResourceRequest) (ulimits : OrderedDict Text UlimitSpec) : HostResources where
  scalar
    | .limit l => some (.int (r.limitValue l))
    | .cpuset s => some (.text (r.cpusetText s))
  ulimits := some (buildUlimits ulimits)

theorem reported_denotedWith {ulimits : OrderedDict Text UlimitSpec}
    (h : ∀ u ∈ buildUlimits ulimits, Normal u.name) : Reported rt (denotedWith r ulimits) :=
  ⟨fun _ => ⟨_, rfl⟩, fun _ => ⟨_, rfl⟩, Docker.nodup_buildUlimits _, fun u hu => (h u hu).normalize⟩

/-- Everything that is requested, if it is consistent. -/
def requestedDict (rt : PyRuntime) (r : ResourceRequest) : OrderedDict Text UlimitSpec :=
  .ofList ((requestedUlimits rt r).map fun u => (u.name, ⟨u.soft, u.hard⟩))

theorem mem_requestedDict {u : Ulimit} (h : Consistent rt r) :
    u ∈ buildUlimits (requestedDict rt r) ↔ u ∈ requestedUlimits rt r := by
  have hpair : ∀ v : Ulimit, (v.name, (⟨v.soft, v.hard⟩ : UlimitSpec)) ∈
      (requestedUlimits rt r).map (fun u => (u.name, (⟨u.soft, u.hard⟩ : UlimitSpec))) ↔
        v ∈ requestedUlimits rt r := by
    intro v
    rw [List.mem_map]
    constructor
    · rintro ⟨w, hw, heq⟩
      cases v
      cases w
      cases heq
      exact hw
    · exact fun hv => ⟨v, hv, rfl⟩
  rw [mem_buildUlimits, requestedDict, ← hpair u]
  refine OrderedDict.mem_ofList fun e he e' he' hkey => ?_
  have hsame := h _ ((hpair ⟨e.1, e.2.soft, e.2.hard⟩).mp he) _
    ((hpair ⟨e'.1, e'.2.soft, e'.2.hard⟩).mp he') hkey
  obtain ⟨name, soft, hard⟩ := e
  obtain ⟨name', soft', hard'⟩ := e'
  cases hsame
  rfl

/-- Two values for one limit are never both reported. -/
theorem not_denoted (h : ¬ Consistent rt r) (hc : Reported rt c) : ¬ Denoted rt r c := by
  intro hdenoted
  refine h fun u hu v hv hname => ?_
  exact List.inj_on_of_nodup_map hc.ulimits (hdenoted.requested u hu) (hdenoted.requested v hv) hname

theorem decided_of_correct (h : Correct rt r) : Decided rt r := by
  by_cases hmatch : Matchable r
  · -- a host configuration with the desired ulimits only is found the same
    have hreported : Reported rt (denotedWith r (desiredUlimits rt (r.ulimits.getD .empty))) :=
      reported_denotedWith fun u hu => normal_requested (mem_requested_of_desired hu).1
    have hsame : compareDimensions rt r.dimensions
        (denotedWith r (desiredUlimits rt (r.ulimits.getD .empty))) = .ok false := by
      rw [compare_eq_false hreported]
      refine ⟨hmatch, fun _ => rfl, fun _ => rfl, fun u => ?_⟩
      exact (and_iff_left_of_imp fun hu => (mem_requested_of_desired hu).2).symm
    have hdenoted := (h _ hreported).mp hsame
    refine .inl ⟨hmatch, ?_, fun u hu => (mem_requested_of_desired (hdenoted.requested u hu)).2⟩
    by_contra hconsistent
    exact not_denoted hconsistent hreported hdenoted
  · refine .inr ⟨hmatch, fun hconsistent => hmatch ?_⟩
    have hreported : Reported rt (denotedWith r (requestedDict rt r)) :=
      reported_denotedWith fun u hu => normal_requested ((mem_requestedDict hconsistent).mp hu)
    have hdenoted : Denoted rt r (denotedWith r (requestedDict rt r)) :=
      ⟨fun _ => rfl, fun _ => rfl, fun u hu => (mem_requestedDict hconsistent).mpr hu,
        fun u hu => .inr ((mem_requestedDict hconsistent).mp hu)⟩
    exact ((compare_eq_false hreported).mp ((h _ hreported).mpr hdenoted)).1

theorem correct_of_decided (h : Decided rt r) : Correct rt r := by
  intro c hc
  rw [compare_eq_false hc]
  rcases h with ⟨hmatch, hconsistent, hnone⟩ | ⟨hmatch, hconsistent⟩
  · constructor
    · rintro ⟨_, hlimits, hcpusets, hulimits⟩
      refine ⟨hlimits, hcpusets, fun u hu => ?_, fun u hu => ?_⟩
      · exact ((hulimits u).mp ((mem_desired hconsistent).mpr ⟨hu, hnone u hu⟩)).1
      · by_cases hdefault : u.name ∈ defaultUlimits
        · exact .inl hdefault
        · exact .inr ((mem_desired hconsistent).mp ((hulimits u).mpr ⟨hu, hdefault⟩)).1
    · rintro ⟨hlimits, hcpusets, hrequested, hdefault⟩
      refine ⟨hmatch, hlimits, hcpusets, fun u => ?_⟩
      rw [mem_desired hconsistent]
      constructor
      · rintro ⟨hu, hout⟩
        exact ⟨hrequested u hu, hout⟩
      · rintro ⟨hu, hout⟩
        exact ⟨(hdefault u hu).resolve_left hout, hout⟩
  · constructor
    · rintro ⟨hmatch', _⟩
      exact absurd hmatch' hmatch
    · intro hdenoted
      exact absurd hdenoted (not_denoted hconsistent hc)

theorem correct_iff (r : ResourceRequest) : Correct rt r ↔ Decided rt r :=
  ⟨decided_of_correct, correct_of_decided⟩

end Podman

/-! ## Both workers -/

/-- **Each worker decides the limits right exactly for these mappings**: Docker where no leading
zeros stand in a text without a unit and no set of processors is the integer zero, Podman where
every limit is an integer, every set of processors a text and every ulimit is compared. -/
theorem dimensions_decided_iff (rt : PyRuntime) (r : ResourceRequest) :
    (Docker.Correct r ↔ Docker.Decided r) ∧ (Podman.Correct rt r ↔ Podman.Decided rt r) :=
  ⟨Docker.correct_iff r, Podman.correct_iff r⟩

/-- A memory limit of `1g`. -/
def oneGigabyte : ResourceRequest where
  limit
    | .memLimit => some (.digits ['1'] (some .g) ⟨by simp, by simp⟩)
    | _ => none
  unit_memory := by
    intro l q hq hunit
    cases l <;> simp_all [Limit.isMemory]
  ascii := by
    intro name hname
    cases hname

/-- Podman takes it for another limit than the one it denotes. -/
theorem one_gigabyte_differs : ¬ ∀ (rt : PyRuntime) (r : ResourceRequest),
    Docker.Correct r ∧ Podman.Correct rt r := by
  intro h
  rcases Podman.decided_of_correct (h .ascii oneGigabyte).2 with ⟨⟨hints, _⟩, _⟩ | ⟨_, hconsistent⟩
  · obtain ⟨i, hi⟩ := hints .memLimit _ rfl
    cases hi
  · refine hconsistent fun u hu => ?_
    cases hu

end Container
end KollaPowerOps
