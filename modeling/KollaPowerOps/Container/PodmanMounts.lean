import Mathlib.Data.Finset.Basic
import KollaPowerOps.Container.Mounts
import KollaPowerOps.Container.Reported

/-!
# Container.PodmanMounts

The comparison of the requested volumes with those that Podman reports.

* `MountSpec`  : an entry `src:dst[:opts]`, and what it mounts with which effective options.
* `Exact`      : a difference is reported just when the mounts differ.
* `Clear`      : the lists of which the comparison loses nothing (`compared_exactly_iff`).
-/

namespace KollaPowerOps
namespace Container

/-- `src:dst[:opts]` -/
structure MountSpec where
  src : Text
  dst : Text
  opts : Option Text
  src_named : src ≠ []
  dst_named : dst ≠ []
  src_plain : ':' ∉ src
  dst_plain : ':' ∉ dst
  opts_plain : ∀ o, opts = some o → ':' ∉ o
  deriving DecidableEq

namespace Podman

open Docker

/-! ## What is mounted -/

/-- A path without one trailing slash. -/
def withoutSlash (path : Text) : Text := if path.getLast? = some '/' then path.dropLast else path

def noexec : Text := "noexec".toList

def readOnly : Text := "ro".toList

def readWrite : Text := "rw".toList

/-- The flags without the defaults of the engine, with `rw` where neither it nor `ro` is given. -/
def effectiveFlags (special : Bool) (given : List Text) : Finset Text :=
  let flags := given.toFinset.filter fun w => w ∉ defaultFlags ∧ ¬ (special = true ∧ w = noexec)
  if readOnly ∈ flags ∨ readWrite ∈ flags then flags else insert readWrite flags

def wordsOf (mode : Text) : List Text := if mode = [] then [] else mode.splitOn ','

end Podman

namespace MountSpec

open Podman

def entry (m : MountSpec) : VolumeEntry := .mount m.src m.dst m.opts m.src_plain m.dst_plain

def text (m : MountSpec) : Text := m.entry.text

def given (m : MountSpec) : List Text := wordsOf (m.opts.getD [])

/-- The destination is one of the special paths or inside it. -/
def inside (m : MountSpec) : Bool :=
  specialPaths.any fun path => m.dst = path || (path ++ ['/']).isPrefixOf m.dst

def mount (m : MountSpec) : Text × Text × Finset Text :=
  (withoutSlash m.src, withoutSlash m.dst, effectiveFlags m.inside m.given)

end MountSpec

namespace Podman

open Docker

def mounts (l : List MountSpec) : Finset (Text × Text × Finset Text) :=
  (l.map MountSpec.mount).toFinset

/-- A difference is reported just when the mounts differ. -/
def Exact (p : Params) (info : ContainerInfo) (requested reported : List MountSpec) : Prop :=
  compareVolumes { p with volumes := some (requested.map MountSpec.text) }
      { info with hostConfig :=
        { info.hostConfig with binds := some (reported.map MountSpec.text) } } =
    .ok (decide (mounts requested ≠ mounts reported))

/-! ## What the comparison sees -/

/-- The destination begins like a special path. -/
def begins (m : MountSpec) : Bool := specialPaths.any (·.isPrefixOf (checkSlash m.dst))

def seen (m : MountSpec) : Text × Text × Finset Text :=
  (withoutSlash m.src, withoutSlash m.dst, effectiveFlags (begins m) m.given)

theorem checkSlash_eq {path : Text} (h : path ≠ []) : checkSlash path = withoutSlash path ++ ['/'] := by
  rw [checkSlash, withoutSlash, List.getLast?_eq_getLast_of_ne_nil h]
  dsimp only
  split
  · rename_i hslash
    rw [if_pos (congrArg some hslash), ← hslash, List.dropLast_append_getLast]
  · rename_i hslash
    rw [if_neg fun heq => hslash (Option.some.inj heq)]

theorem checkSlash_inj {path path' : Text} (h : path ≠ []) (h' : path' ≠ []) :
    checkSlash path = checkSlash path' ↔ withoutSlash path = withoutSlash path' := by
  rw [checkSlash_eq h, checkSlash_eq h', List.append_cancel_right_eq]

/-- A path has two spellings. -/
theorem eq_of_withoutSlash {a b c : Text} (ha : a ≠ []) (hb : b ≠ []) (hc : c ≠ [])
    (hab : withoutSlash a = withoutSlash b) (hac : withoutSlash a = withoutSlash c) (hb' : b ≠ a)
    (hc' : c ≠ a) : b = c := by
  have hspelled : ∀ {path : Text}, path ≠ [] → path = withoutSlash path ∨
      path = withoutSlash path ++ ['/'] := by
    intro path hpath
    rw [← checkSlash_eq hpath, withoutSlash, checkSlash, List.getLast?_eq_getLast_of_ne_nil hpath]
    dsimp only
    split
    · exact .inr (by rw [if_pos (by simp_all)])
    · exact .inl rfl
  have hspelled' := hspelled hb
  have hspelled'' := hspelled hc
  rw [← hab] at hspelled'
  rw [← hac] at hspelled''
  rcases hspelled ha with h | h <;> rcases hspelled' with h' | h' <;>
    rcases hspelled'' with h'' | h'' <;> first
      | exact h'.trans h''.symm
      | exact absurd (h'.trans h.symm) hb'
      | exact absurd (h''.trans h.symm) hc'

theorem plain_flag {w : Text} (h : w = readOnly ∨ w = readWrite) (special : Bool) :
    w ∉ defaultFlags ∧ ¬ (special = true ∧ w = noexec) := by
  rcases h with rfl | rfl
  · exact ⟨by decide, fun h => absurd h.2 (by decide)⟩
  · exact ⟨by decide, fun h => absurd h.2 (by decide)⟩

theorem mem_effectiveFlags {special : Bool} {given : List Text} {w : Text} :
    w ∈ effectiveFlags special given ↔
      (w ∈ given ∧ w ∉ defaultFlags ∧ ¬ (special = true ∧ w = noexec)) ∨
        (w = readWrite ∧ readOnly ∉ given ∧ readWrite ∉ given) := by
  have hflags : ∀ {w : Text}, w ∈ given.toFinset.filter
      (fun w => w ∉ defaultFlags ∧ ¬ (special = true ∧ w = noexec)) ↔
        w ∈ given ∧ w ∉ defaultFlags ∧ ¬ (special = true ∧ w = noexec) := by
    intro w
    rw [Finset.mem_filter, List.mem_toFinset]
  have hro := plain_flag (.inl (rfl : readOnly = readOnly)) special
  have hrw := plain_flag (.inr (rfl : readWrite = readWrite)) special
  rw [effectiveFlags]
  simp only [hflags, and_iff_left hro, and_iff_left hrw]
  split
  · rename_i hmode
    rw [hflags, or_iff_left]
    rintro ⟨-, hnotRo, hnotRw⟩
    exact hmode.elim hnotRo hnotRw
  · rename_i hmode
    rw [Finset.mem_insert, hflags, or_comm, not_or.mp hmode |> and_iff_left]

theorem normalizeMode_toFinset (path mode : Text) : (normalizeMode path mode).toFinset =
    effectiveFlags (specialPaths.any (·.isPrefixOf path)) (wordsOf mode) := by
  obtain ⟨special, hspecial⟩ : ∃ special, special = specialPaths.any (·.isPrefixOf path) :=
    ⟨_, rfl⟩
  obtain ⟨flags, hflags⟩ : ∃ flags, flags =
      if special = true then ((wordsOf mode).filter (· ∉ defaultFlags)).filter (· ≠ noexec)
      else (wordsOf mode).filter (· ∉ defaultFlags) := ⟨_, rfl⟩
  have hnormalized : normalizeMode path mode =
      if readOnly ∈ flags ∨ readWrite ∈ flags then flags else readWrite :: flags := by
    rw [hflags, hspecial]
    rfl
  have hmem : ∀ {w : Text}, w ∈ flags ↔
      w ∈ wordsOf mode ∧ w ∉ defaultFlags ∧ ¬ (special = true ∧ w = noexec) := by
    intro w
    rw [hflags]
    split
    · rename_i hcase
      rw [List.mem_filter, List.mem_filter, decide_eq_true_iff, decide_eq_true_iff, and_assoc,
        hcase, and_iff_right rfl]
    · rename_i hcase
      have hnot : ¬ (special = true ∧ w = noexec) := fun h => hcase h.1
      rw [List.mem_filter, decide_eq_true_iff, and_iff_left hnot]
  have hro := plain_flag (.inl (rfl : readOnly = readOnly)) special
  have hrw := plain_flag (.inr (rfl : readWrite = readWrite)) special
  ext w
  rw [List.mem_toFinset, mem_effectiveFlags, hnormalized, ← hspecial, ← hmem]
  have hnone : readOnly ∉ wordsOf mode ∧ readWrite ∉ wordsOf mode ↔
      ¬ (readOnly ∈ flags ∨ readWrite ∈ flags) := by
    rw [hmem, hmem, and_iff_left hro, and_iff_left hrw, not_or]
  rw [hnone]
  split
  · rename_i hmode
    rw [or_iff_left fun h => h.2 hmode]
  · rename_i hmode
    rw [List.mem_cons, or_comm, and_iff_left hmode]

/-! ## Special paths -/

theorem specialPaths_plain : ∀ path ∈ specialPaths, path ≠ [] ∧ checkSlash path = path ++ ['/'] := by
  decide

theorem inside_iff {m : MountSpec} :
    m.inside = true ↔ ∃ path ∈ specialPaths, path ++ ['/'] <+: checkSlash m.dst := by
  rw [MountSpec.inside, List.any_eq_true]
  refine exists_congr fun path => and_congr_right fun hpath => ?_
  rw [Bool.or_eq_true, decide_eq_true_iff, List.isPrefixOf_iff_prefix]
  obtain ⟨hne, hslash⟩ := specialPaths_plain path hpath
  constructor
  · rintro (heq | hprefix)
    · rw [heq, hslash]
    · refine hprefix.trans ?_
      rw [checkSlash]
      split
      · exact List.prefix_rfl
      · split
        · exact List.prefix_rfl
        · exact List.prefix_append _ _
  · intro hprefix
    rw [checkSlash_eq m.dst_named, withoutSlash] at hprefix
    split at hprefix
    · rename_i hlast
      rw [List.getLast?_eq_getLast_of_ne_nil m.dst_named] at hlast
      have hdst := List.dropLast_append_getLast m.dst_named
      rw [Option.some.inj hlast] at hdst
      rw [hdst] at hprefix
      exact .inr hprefix
    · rw [List.prefix_concat_iff] at hprefix
      rcases hprefix with heq | hprefix
      · exact .inl (List.append_cancel_right heq).symm
      · exact .inr hprefix

theorem begins_of_inside {m : MountSpec} (h : m.inside = true) : begins m = true := by
  obtain ⟨path, hpath, hprefix⟩ := inside_iff.mp h
  refine List.any_eq_true.mpr ⟨path, hpath, ?_⟩
  rw [List.isPrefixOf_iff_prefix]
  exact (List.prefix_append path ['/']).trans hprefix

/-- The destination begins like a special path and is not inside one, and `noexec` is given. -/
def Misread (m : MountSpec) : Prop :=
  begins m = true ∧ m.inside = false ∧ noexec ∈ m.given

instance (m : MountSpec) : Decidable (Misread m) := inferInstanceAs (Decidable (_ ∧ _ ∧ _))

theorem seen_eq_mount {m : MountSpec} (h : ¬ Misread m) : seen m = m.mount := by
  have hflags : effectiveFlags (begins m) m.given = effectiveFlags m.inside m.given := by
    ext w
    rw [mem_effectiveFlags, mem_effectiveFlags]
    refine or_congr_left (and_congr_right fun hw => and_congr_right fun _ => not_congr ?_)
    refine and_congr_left fun hnoexec => ⟨fun hbegins => ?_, begins_of_inside⟩
    by_contra hinside
    rw [hnoexec] at hw
    exact h ⟨hbegins, Bool.not_eq_true _ ▸ hinside, hw⟩
  rw [seen, hflags, MountSpec.mount]

theorem dst_congr {m m' : MountSpec} (h : withoutSlash m.dst = withoutSlash m'.dst) :
    begins m = begins m' ∧ m.inside = m'.inside := by
  have hslash := (checkSlash_inj m.dst_named m'.dst_named).mpr h
  refine ⟨by rw [begins, begins, hslash], Bool.eq_iff_iff.mpr ?_⟩
  rw [inside_iff, inside_iff, hslash]

/-! ## What is read of a list -/

variable {requested reported : List MountSpec} {p : Params} {info : ContainerInfo}

def Readable (l : List MountSpec) : Prop := ∀ m ∈ l, m.entry.Readable

def bindPair (m : MountSpec) : Text × VolumeBind :=
  (m.src, { bind := m.dst, mode := m.opts.getD "rw".toList })

theorem colon_mem_text (m : MountSpec) : ':' ∈ m.text := by
  rw [MountSpec.text, MountSpec.entry]
  cases m.opts <;> simp [VolumeEntry.text]

theorem binds_texts (h : Readable requested) :
    binds (requested.map MountSpec.text) = requested.map bindPair := by
  rw [binds, List.filter_eq_self.mpr]
  · rw [List.filterMap_map]
    induction requested with
    | nil => rfl
    | cons m requested ih =>
      obtain ⟨hm, hrest⟩ := List.forall_mem_cons.mp h
      have hread : (bindOf ∘ MountSpec.text) m = some (bindPair m) := bindOf_text hm (colon_mem_text m)
      rw [List.filterMap_cons_some hread, ih hrest, List.map_cons]
  · intro vol hvol
    obtain ⟨m, -, rfl⟩ := List.mem_map.mp hvol
    exact decide_eq_true (colon_mem_text m)

theorem mem_destinations {dst : Text} (h : Readable requested) :
    dst ∈ destinations (requested.map MountSpec.text) ↔ ∃ m ∈ requested, m.dst = dst := by
  have hentries : requested.map MountSpec.text =
      (requested.map MountSpec.entry).map VolumeEntry.text := by
    rw [List.map_map]
    rfl
  rw [hentries, mem_destinations_texts (List.forall_mem_map.mpr h)]
  constructor
  · rintro ⟨e, he, hdst⟩
    obtain ⟨m, hm, rfl⟩ := List.mem_map.mp he
    exact ⟨m, hm, Option.some.inj hdst⟩
  · rintro ⟨m, hm, rfl⟩
    exact ⟨m.entry, List.mem_map_of_mem hm, rfl⟩

/-- The entry that is kept of those with a source. -/
def lastOf (l : List MountSpec) (src : Text) : Option MountSpec :=
  (l.filter fun m => m.src = src).getLast?

def Kept (l : List MountSpec) (x : Text × Text × Finset Text) : Prop :=
  ∃ src m, lastOf l src = some m ∧ seen m = x

theorem lastOf_mem {l : List MountSpec} {src : Text} {m : MountSpec} (h : lastOf l src = some m) :
    m ∈ l ∧ m.src = src := by
  obtain ⟨hm, hsrc⟩ := List.mem_filter.mp (List.mem_of_getLast? h)
  exact ⟨hm, of_decide_eq_true hsrc⟩

theorem exists_lastOf {l : List MountSpec} {m : MountSpec} (hm : m ∈ l) :
    ∃ m', lastOf l m.src = some m' := by
  have hne : (l.filter fun m' => m'.src = m.src) ≠ [] :=
    List.ne_nil_of_mem (List.mem_filter.mpr ⟨hm, decide_eq_true rfl⟩)
  exact ⟨_, List.getLast?_eq_getLast_of_ne_nil hne⟩

theorem get?_bindPairs (l : List MountSpec) (src : Text) :
    (OrderedDict.ofList (l.map bindPair)).get? src =
      (lastOf l src).map fun m => (bindPair m).2 := by
  rw [OrderedDict.get?_ofList, List.filter_map, List.getLast?_map, Option.map_map]
  rfl

/-- What the comparison makes of an entry that is kept. -/
def comparedAs (m : MountSpec) : Text × Text × List Text :=
  (checkSlash m.src, checkSlash m.dst,
    normalizeMode (checkSlash m.dst) (m.opts.getD "rw".toList))

theorem mem_buildBindList {l : List MountSpec} {x : Text × Text × List Text} :
    x ∈ buildBindList (.ofList (l.map bindPair)) ↔ ∃ src m, lastOf l src = some m ∧ comparedAs m = x := by
  rw [buildBindList, List.mem_map]
  constructor
  · rintro ⟨⟨src, bind⟩, he, rfl⟩
    rw [OrderedDict.mem_entries, get?_bindPairs, Option.map_eq_some_iff] at he
    obtain ⟨m, hm, rfl⟩ := he
    refine ⟨src, m, hm, ?_⟩
    rw [← (lastOf_mem hm).2]
    rfl
  · rintro ⟨src, m, hm, rfl⟩
    refine ⟨bindPair m, ?_, rfl⟩
    obtain ⟨-, rfl⟩ := lastOf_mem hm
    refine OrderedDict.mem_entries.mpr ?_
    rw [get?_bindPairs, hm]
    rfl

theorem flags_comparedAs (m : MountSpec) :
    (comparedAs m).2.2.toFinset = effectiveFlags (begins m) m.given := by
  rw [comparedAs, normalizeMode_toFinset, ← begins, MountSpec.given]
  cases m.opts with
  | some o => rfl
  | none =>
    have hword : wordsOf "rw".toList = [readWrite] := by decide
    rw [Option.getD_none, Option.getD_none, hword, wordsOf, if_pos rfl]
    ext w
    rw [mem_effectiveFlags, mem_effectiveFlags, List.mem_singleton]
    constructor
    · rintro (⟨rfl, -⟩ | ⟨-, -, hnot⟩)
      · exact .inr ⟨rfl, List.not_mem_nil, List.not_mem_nil⟩
      · exact absurd (List.mem_singleton_self _) hnot
    · rintro (⟨hnil, -⟩ | ⟨rfl, -⟩)
      · exact absurd hnil List.not_mem_nil
      · exact .inl ⟨rfl, plain_flag (.inr rfl) _⟩

theorem sameBind_comparedAs (m m' : MountSpec) :
    sameBind (comparedAs m) (comparedAs m') = true ↔ seen m = seen m' := by
  have hflags : setsDiffer (comparedAs m).2.2 (comparedAs m').2.2 = false ↔
      effectiveFlags (begins m) m.given = effectiveFlags (begins m') m'.given := by
    rw [setsDiffer_eq_false, ← flags_comparedAs, ← flags_comparedAs, Finset.ext_iff]
    simp only [List.mem_toFinset]
  rw [sameBind, Bool.and_eq_true, Bool.and_eq_true, decide_eq_true_iff, decide_eq_true_iff,
    Bool.not_eq_true', hflags, seen, seen, Prod.mk.injEq, Prod.mk.injEq, and_assoc]
  exact and_congr (checkSlash_inj m.src_named m'.src_named)
    (and_congr_left fun _ => checkSlash_inj m.dst_named m'.dst_named)

/-! ## The comparison -/

/-- The lists have the same values under a function. -/
def SameImages {α : Type} (f : MountSpec → α) (l l' : List MountSpec) : Prop :=
  ∀ x, (∃ m ∈ l, f m = x) ↔ ∃ m ∈ l', f m = x

theorem sameImages_iff {α : Type} {f : MountSpec → α} {l l' : List MountSpec} :
    SameImages f l l' ↔ (∀ m ∈ l, ∃ m' ∈ l', f m' = f m) ∧ ∀ m ∈ l', ∃ m' ∈ l, f m' = f m := by
  constructor
  · intro h
    exact ⟨fun m hm => (h _).mp ⟨m, hm, rfl⟩, fun m hm => (h _).mpr ⟨m, hm, rfl⟩⟩
  · rintro ⟨h, h'⟩ x
    refine ⟨?_, ?_⟩
    · rintro ⟨m, hm, rfl⟩
      exact h m hm
    · rintro ⟨m, hm, rfl⟩
      exact h' m hm

theorem sameImages_congr {α β : Type} {f : MountSpec → α} {g : MountSpec → β}
    (h : ∀ m m', f m = f m' ↔ g m = g m') {l l' : List MountSpec} :
    SameImages f l l' ↔ SameImages g l l' := by
  simp only [sameImages_iff, h]

def target (m : MountSpec) : Text := withoutSlash m.dst

theorem mounts_eq_iff {l l' : List MountSpec} :
    mounts l = mounts l' ↔ SameImages MountSpec.mount l l' := by
  rw [mounts, mounts, Finset.ext_iff, SameImages]
  simp only [List.mem_toFinset, List.mem_map]

theorem volumePaths_same {v w : Volumes} (hrequested : Readable requested)
    (hreported : Readable reported)
    (hv : v.volList = destinations (requested.map MountSpec.text))
    (hw : w.volList = destinations (reported.map MountSpec.text)) :
    setsDiffer (volumePaths v) (volumePaths w) = false ↔ SameImages target requested reported := by
  have hpaths : ∀ {v : Volumes} {l : List MountSpec}, Readable l →
      v.volList = destinations (l.map MountSpec.text) →
        ∀ x, x ∈ volumePaths v ↔ ∃ m ∈ l, checkSlash m.dst = x := by
    intro v l hl hv x
    rw [volumePaths, List.mem_map]
    constructor
    · rintro ⟨dst, hdst, rfl⟩
      obtain ⟨m, hm, rfl⟩ := (mem_destinations hl).mp (hv ▸ (List.mem_filter.mp hdst).1)
      exact ⟨m, hm, rfl⟩
    · rintro ⟨m, hm, rfl⟩
      refine ⟨m.dst, List.mem_filter.mpr ⟨?_, decide_eq_true m.dst_named⟩, rfl⟩
      rw [hv]
      exact (mem_destinations hl).mpr ⟨m, hm, rfl⟩
  rw [setsDiffer_eq_false]
  simp only [hpaths hrequested hv, hpaths hreported hw]
  exact sameImages_congr (f := fun m => checkSlash m.dst) (g := target)
    fun m m' => checkSlash_inj m.dst_named m'.dst_named

theorem bindsDiffer_eq_false {l l' : List MountSpec} :
    bindsDiffer (buildBindList (.ofList (l.map bindPair)))
        (buildBindList (.ofList (l'.map bindPair))) = false ↔ ∀ x, Kept l x ↔ Kept l' x := by
  rw [bindsDiffer, Bool.not_eq_false', Bool.and_eq_true, List.all_eq_true, List.all_eq_true]
  simp only [List.any_eq_true, mem_buildBindList]
  constructor
  · rintro ⟨h, h'⟩ x
    constructor
    · rintro ⟨src, m, hm, rfl⟩
      obtain ⟨_, ⟨src', m', hm', rfl⟩, hsame⟩ := h _ ⟨src, m, hm, rfl⟩
      exact ⟨src', m', hm', ((sameBind_comparedAs m m').mp hsame).symm⟩
    · rintro ⟨src, m, hm, rfl⟩
      obtain ⟨_, ⟨src', m', hm', rfl⟩, hsame⟩ := h' _ ⟨src, m, hm, rfl⟩
      exact ⟨src', m', hm', ((sameBind_comparedAs m m').mp hsame).symm⟩
  · intro h
    constructor
    · rintro _ ⟨src, m, hm, rfl⟩
      obtain ⟨src', m', hm', hseen⟩ := (h _).mp ⟨src, m, hm, rfl⟩
      exact ⟨_, ⟨src', m', hm', rfl⟩, (sameBind_comparedAs m m').mpr hseen.symm⟩
    · rintro _ ⟨src, m, hm, rfl⟩
      obtain ⟨src', m', hm', hseen⟩ := (h _).mpr ⟨src, m, hm, rfl⟩
      exact ⟨_, ⟨src', m', hm', rfl⟩, (sameBind_comparedAs m m').mpr hseen.symm⟩

/-- A list is read just when each of its entries can be. -/
theorem generated_iff {l : List MountSpec} :
    (∃ volumes, generateVolumes (some (l.map MountSpec.text)) = .ok volumes) ↔ Readable l := by
  rw [generateVolumes_iff]
  constructor
  · intro h m hm
    have hread := h m.text (List.mem_map_of_mem hm) (colon_mem_text m)
    refine readable_of_bindOf (e := m.entry) (b := bindPair m) hread rfl ?_
    rw [bindPair]
    cases ho : m.opts with
    | none => exact (by decide : ':' ∉ "rw".toList)
    | some o => exact m.opts_plain o ho
  · intro h vol hvol _
    obtain ⟨m, hm, rfl⟩ := List.mem_map.mp hvol
    have hbind : bindOf m.text = some (bindPair m) := bindOf_text (h m hm) (colon_mem_text m)
    rw [hbind]
    exact Option.some_ne_none _

theorem generated_getD {l : List MountSpec} {volumes : Option Volumes} (hl : Readable l)
    (h : generateVolumes (some (l.map MountSpec.text)) = .ok volumes) :
    (volumes.getD {}).volList = destinations (l.map MountSpec.text) ∧
      (volumes.getD {}).volDict = .ofList (l.map bindPair) := by
  obtain ⟨hlist, hdict⟩ := generateVolumes_ok h
  rw [Option.getD_some, binds_texts hl] at hdict
  cases volumes with
  | none => exact ⟨hlist, hdict⟩
  | some v => exact ⟨hlist, hdict⟩

theorem compareVolumes_eq {v w : Option Volumes} (hv : generateVolumes p.volumes = .ok v)
    (hw : generateVolumes info.hostConfig.binds = .ok w) :
    compareVolumes p info = .ok (setsDiffer (volumePaths (v.getD {})) (volumePaths (w.getD {})) ||
      bindsDiffer (buildBindList (v.getD {}).volDict) (buildBindList (w.getD {}).volDict)) := by
  simp only [compareVolumes, hv, hw, bind, Except.bind]
  cases setsDiffer (volumePaths (v.getD {})) (volumePaths (w.getD {})) <;> rfl

/-- The comparison of two lists that can be read. -/
theorem compareVolumes_ok {differs : Bool} :
    compareVolumes { p with volumes := some (requested.map MountSpec.text) }
        { info with hostConfig :=
          { info.hostConfig with binds := some (reported.map MountSpec.text) } } = .ok differs ↔
      Readable requested ∧ Readable reported ∧ (differs = false ↔
        SameImages target requested reported ∧ ∀ x, Kept requested x ↔ Kept reported x) := by
  have hdiffers : ∀ {v w : Option Volumes}, Readable requested → Readable reported →
      generateVolumes (some (requested.map MountSpec.text)) = .ok v →
      generateVolumes (some (reported.map MountSpec.text)) = .ok w →
        ((setsDiffer (volumePaths (v.getD {})) (volumePaths (w.getD {})) ||
          bindsDiffer (buildBindList (v.getD {}).volDict) (buildBindList (w.getD {}).volDict)) =
            false ↔
          SameImages target requested reported ∧ ∀ x, Kept requested x ↔ Kept reported x) := by
    intro v w hrequested hreported hv hw
    obtain ⟨hvList, hvDict⟩ := generated_getD hrequested hv
    obtain ⟨hwList, hwDict⟩ := generated_getD hreported hw
    rw [Bool.or_eq_false_iff, volumePaths_same hrequested hreported hvList hwList, hvDict, hwDict,
      bindsDiffer_eq_false]
  constructor
  · intro h
    obtain ⟨v, hv, h'⟩ := pyBind_ok.mp h
    obtain ⟨w, hw, -⟩ := pyBind_ok.mp h'
    have hrequested := generated_iff.mp ⟨v, hv⟩
    have hreported := generated_iff.mp ⟨w, hw⟩
    rw [compareVolumes_eq hv hw, Except.ok.injEq] at h
    rw [← h]
    exact ⟨hrequested, hreported, hdiffers hrequested hreported hv hw⟩
  · rintro ⟨hrequested, hreported, hsame⟩
    obtain ⟨v, hv⟩ := generated_iff.mpr hrequested
    obtain ⟨w, hw⟩ := generated_iff.mpr hreported
    rw [compareVolumes_eq hv hw, Except.ok.injEq]
    have hboth := (hdiffers hrequested hreported hv hw).trans hsame.symm
    rw [← Bool.not_eq_true, ← Bool.not_eq_true] at hboth
    exact Bool.eq_iff_iff.mpr (not_iff_not.mp hboth)

theorem exact_iff : Exact p info requested reported ↔
    Readable requested ∧ Readable reported ∧
      (mounts requested = mounts reported ↔
        SameImages target requested reported ∧ ∀ x, Kept requested x ↔ Kept reported x) := by
  rw [Exact, compareVolumes_ok, decide_eq_false_iff_not, not_not]

/-! ## Clear lists -/

/-- Every entry can be read, those with one source mount the same, and none has `noexec` where the
destination only begins like a special path. -/
structure Clear (l : List MountSpec) : Prop where
  readable : Readable l
  agree : ∀ m ∈ l, ∀ m' ∈ l, m.src = m'.src → m.mount = m'.mount
  plain : ∀ m ∈ l, ¬ Misread m

theorem Clear.kept {l : List MountSpec} (h : Clear l) (x : Text × Text × Finset Text) :
    Kept l x ↔ ∃ m ∈ l, m.mount = x := by
  constructor
  · rintro ⟨src, m, hlast, rfl⟩
    obtain ⟨hm, -⟩ := lastOf_mem hlast
    exact ⟨m, hm, (seen_eq_mount (h.plain m hm)).symm⟩
  · rintro ⟨m, hm, rfl⟩
    obtain ⟨m', hlast⟩ := exists_lastOf hm
    obtain ⟨hm', hsrc⟩ := lastOf_mem hlast
    refine ⟨m.src, m', hlast, ?_⟩
    rw [seen_eq_mount (h.plain m' hm')]
    exact h.agree m' hm' m hm hsrc

theorem Clear.exact (hrequested : Clear requested) (hreported : Clear reported) :
    Exact p info requested reported := by
  refine exact_iff.mpr ⟨hrequested.readable, hreported.readable, ?_⟩
  rw [mounts_eq_iff]
  simp only [hrequested.kept, hreported.kept]
  refine ⟨fun h => ⟨?_, h⟩, And.right⟩
  obtain ⟨hto, hfrom⟩ := sameImages_iff.mp h
  refine sameImages_iff.mpr ⟨fun m hm => ?_, fun m hm => ?_⟩
  · obtain ⟨m', hm', hmount⟩ := hto m hm
    exact ⟨m', hm', congrArg (fun x => x.2.1) hmount⟩
  · obtain ⟨m', hm', hmount⟩ := hfrom m hm
    exact ⟨m', hm', congrArg (fun x => x.2.1) hmount⟩

theorem Clear.perm {l l' : List MountSpec} (h : Clear l) (hperm : l'.Perm l) : Clear l' where
  readable m hm := h.readable m (hperm.subset hm)
  agree m hm m' hm' := h.agree m (hperm.subset hm) m' (hperm.subset hm')
  plain m hm := h.plain m (hperm.subset hm)

/-! ## A flag that is not read -/

def nosuid : Text := "nosuid".toList

/-- One of the defaults for `noexec`. -/
def exchange (w : Text) : Text := if w = noexec then nosuid else w

theorem subset_intercalate {t : Text} {ts : List Text} (h : t ∈ ts) :
    t ⊆ [','].intercalate ts := by
  induction ts with
  | nil => cases h
  | cons first ts ih =>
    cases ts with
    | nil =>
      rw [List.mem_singleton.mp h]
      simp
    | cons second ts =>
      rw [List.intercalate_cons_cons]
      rcases List.mem_cons.mp h with rfl | h
      · exact fun c hc => List.mem_append_left _ (List.mem_append_left _ hc)
      · exact fun c hc => List.mem_append_right _ (ih h hc)

theorem given_subset {m : MountSpec} {w : Text} (h : w ∈ m.given) :
    ∃ o, m.opts = some o ∧ m.given = o.splitOn ',' ∧ w ⊆ o := by
  rw [MountSpec.given, wordsOf] at h ⊢
  split at h
  · cases h
  · rename_i hne
    cases ho : m.opts with
    | none =>
      rw [ho] at hne
      exact absurd rfl hne
    | some o =>
      rw [ho, Option.getD_some] at h hne
      have hsub := subset_intercalate h
      rw [List.intercalate_splitOn] at hsub
      exact ⟨o, rfl, if_neg hne, hsub⟩

theorem not_mem_exchange {c : Char} {w : Text} (hw : c ∉ w) (hc : c ∉ nosuid) : c ∉ exchange w := by
  rw [exchange]
  split
  · exact hc
  · exact hw

/-- The same mount with a default in the place of a `noexec` that is misread. -/
def tidy (m : MountSpec) : MountSpec where
  src := m.src
  dst := m.dst
  opts := if Misread m then some ([','].intercalate (m.given.map exchange)) else m.opts
  src_named := m.src_named
  dst_named := m.dst_named
  src_plain := m.src_plain
  dst_plain := m.dst_plain
  opts_plain := by
    intro o ho hmem
    split at ho
    · cases ho
      rcases VolumeRequest.mem_intercalate hmem with hsep | ⟨t, ht, hmem⟩
      · exact absurd hsep (by decide)
      · obtain ⟨w, hw, rfl⟩ := List.mem_map.mp ht
        obtain ⟨o, ho, -, hsub⟩ := given_subset hw
        exact not_mem_exchange (fun h => m.opts_plain o ho (hsub h)) (by decide) hmem
    · exact m.opts_plain o ho hmem

theorem given_tidy (m : MountSpec) :
    (tidy m).given = if Misread m then m.given.map exchange else m.given := by
  rw [MountSpec.given, tidy]
  dsimp only
  split
  · rename_i hmisread
    have hnosuid : nosuid ∈ m.given.map exchange := List.mem_map.mpr ⟨noexec, hmisread.2.2, rfl⟩
    have hwords : ∀ w ∈ m.given.map exchange, ',' ∉ w := by
      intro t ht
      obtain ⟨w, hw, rfl⟩ := List.mem_map.mp ht
      obtain ⟨o, -, hgiven, -⟩ := given_subset hw
      rw [hgiven] at hw
      exact not_mem_exchange (PyText.not_mem_of_mem_splitOn hw) (by decide)
    have hne : [','].intercalate (m.given.map exchange) ≠ [] :=
      List.ne_nil_of_mem (subset_intercalate hnosuid (show 'n' ∈ nosuid by decide))
    rw [Option.getD_some, wordsOf, if_neg hne,
      List.splitOn_intercalate ',' hwords (List.ne_nil_of_mem hnosuid)]
  · rfl

theorem mem_exchanged {given : List Text} {w : Text} (hnoexec : w ≠ noexec) (hnosuid : w ≠ nosuid) :
    w ∈ given.map exchange ↔ w ∈ given := by
  rw [List.mem_map]
  constructor
  · rintro ⟨w', hw', rfl⟩
    rw [exchange] at hnosuid ⊢
    split
    · rename_i hcase
      rw [if_pos hcase] at hnosuid
      exact absurd rfl hnosuid
    · exact hw'
  · intro hw
    exact ⟨w, hw, if_neg hnoexec⟩

theorem effectiveFlags_exchange (given : List Text) :
    effectiveFlags true (given.map exchange) = effectiveFlags true given := by
  have hro : readOnly ∈ given.map exchange ↔ readOnly ∈ given :=
    mem_exchanged (by decide) (by decide)
  have hrw : readWrite ∈ given.map exchange ↔ readWrite ∈ given :=
    mem_exchanged (by decide) (by decide)
  ext w
  rw [mem_effectiveFlags, mem_effectiveFlags, hro, hrw]
  refine or_congr_left (and_congr_left fun ⟨hdefault, hspecial⟩ => mem_exchanged ?_ ?_)
  · exact fun h => hspecial ⟨rfl, h⟩
  · rintro rfl
    exact hdefault (by decide)

theorem seen_tidy (m : MountSpec) : seen (tidy m) = seen m := by
  have hflags : effectiveFlags (begins m) (tidy m).given = effectiveFlags (begins m) m.given := by
    rw [given_tidy]
    split
    · rename_i hmisread
      rw [hmisread.1, effectiveFlags_exchange]
    · rfl
  rw [seen, seen, ← hflags]
  rfl

/-- No `noexec` is left that would be misread. -/
theorem not_misread_tidy (m : MountSpec) : ¬ Misread (tidy m) := by
  rintro ⟨hbegins, hinside, hnoexec⟩
  rw [given_tidy] at hnoexec
  split at hnoexec
  · obtain ⟨w, -, hw⟩ := List.mem_map.mp hnoexec
    rw [exchange] at hw
    split at hw
    · exact absurd hw (by decide)
    · rename_i hcase
      exact hcase hw
  · rename_i hcase
    exact hcase ⟨hbegins, hinside, hnoexec⟩

theorem readable_tidy {m : MountSpec} (h : m.entry.Readable) : (tidy m).entry.Readable := by
  have hplain := (tidy m).opts_plain
  rw [MountSpec.entry] at h ⊢
  cases ho : (tidy m).opts with
  | some o => exact hplain o ho
  | none =>
    have hnone : m.opts = none := by
      rw [tidy] at ho
      dsimp only at ho
      split at ho
      · cases ho
      · exact ho
    rw [hnone] at h
    exact h

theorem Clear.map_tidy {l : List MountSpec} (h : Clear l) : Clear (l.map tidy) := by
  have hmount : ∀ m ∈ l, (tidy m).mount = m.mount := by
    intro m hm
    rw [← seen_eq_mount (not_misread_tidy m), seen_tidy, seen_eq_mount (h.plain m hm)]
  constructor
  · exact List.forall_mem_map.mpr fun m hm => readable_tidy (h.readable m hm)
  · rw [List.forall_mem_map]
    intro m hm
    rw [List.forall_mem_map]
    intro m' hm' hsrc
    rw [hmount m hm, hmount m' hm']
    exact h.agree m hm m' hm' hsrc
  · exact List.forall_mem_map.mpr fun m _ => not_misread_tidy m

/-- The misread flag is not missed. -/
theorem not_exact_tidy {m : MountSpec} (hm : m ∈ requested) (hmisread : Misread m) :
    ¬ Exact p info requested (requested.map tidy) := by
  intro h
  obtain ⟨-, -, hexact⟩ := exact_iff.mp h
  have hlast : ∀ src, lastOf (requested.map tidy) src = (lastOf requested src).map tidy := by
    intro src
    rw [lastOf, List.filter_map, List.getLast?_map]
    rfl
  have htarget : SameImages target requested (requested.map tidy) := by
    refine sameImages_iff.mpr ⟨fun m hm => ⟨tidy m, List.mem_map_of_mem hm, rfl⟩, ?_⟩
    exact List.forall_mem_map.mpr fun m hm => ⟨m, hm, rfl⟩
  have hkept : ∀ x, Kept requested x ↔ Kept (requested.map tidy) x := by
    intro x
    refine exists_congr fun src => ?_
    rw [hlast]
    constructor
    · rintro ⟨m, hm, rfl⟩
      exact ⟨tidy m, congrArg (Option.map tidy) hm, seen_tidy m⟩
    · rintro ⟨_, htidied, rfl⟩
      obtain ⟨m, hm, rfl⟩ := Option.map_eq_some_iff.mp htidied
      exact ⟨m, hm, (seen_tidy m).symm⟩
  have hsame := mounts_eq_iff.mp (hexact.mpr ⟨htarget, hkept⟩)
  obtain ⟨_, htidied, hmount⟩ := (hsame m.mount).mp ⟨m, hm, rfl⟩
  obtain ⟨m', -, rfl⟩ := List.mem_map.mp htidied
  obtain ⟨hbegins, hinside, hnoexec⟩ := hmisread
  have hdst : withoutSlash (tidy m').dst = withoutSlash m.dst := congrArg (fun x => x.2.1) hmount
  obtain ⟨hbegins', hinside'⟩ := dst_congr hdst
  have hflags : effectiveFlags (tidy m').inside (tidy m').given = effectiveFlags m.inside m.given :=
    congrArg (fun x => x.2.2) hmount
  have hmem : noexec ∈ effectiveFlags m.inside m.given :=
    mem_effectiveFlags.mpr (.inl ⟨hnoexec, by decide, fun h => by rw [hinside] at h; cases h.1⟩)
  rw [← hflags, mem_effectiveFlags] at hmem
  rcases hmem with ⟨hgiven, -⟩ | ⟨heq, -⟩
  · exact not_misread_tidy m' ⟨hbegins'.trans hbegins, hinside'.trans hinside, hgiven⟩
  · exact absurd heq (by decide)

/-! ## Another order -/

/-- The list with an entry moved behind all of its source. -/
def moved (l : List MountSpec) (m : MountSpec) : List MountSpec :=
  l.filter (fun m' => m'.src ≠ m.src) ++ ((l.filter fun m' => m'.src = m.src).erase m ++ [m])

theorem perm_moved {l : List MountSpec} {m : MountSpec} (hm : m ∈ l) : (moved l m).Perm l := by
  have hmem : m ∈ l.filter fun m' => m'.src = m.src :=
    List.mem_filter.mpr ⟨hm, decide_eq_true rfl⟩
  have herase := (List.perm_append_singleton m _).trans (List.perm_cons_erase hmem).symm
  refine (List.Perm.append_left _ herase).trans (List.perm_append_comm.trans ?_)
  have hsplit := List.filter_append_perm (fun m' : MountSpec => decide (m'.src = m.src)) l
  simpa using hsplit

theorem lastOf_moved {l : List MountSpec} {m : MountSpec} (src : Text) :
    lastOf (moved l m) src = if src = m.src then some m else lastOf l src := by
  rw [lastOf, moved, List.filter_append, List.filter_append]
  split
  · rename_i hsrc
    have hone : [m].filter (fun m' => m'.src = src) = [m] := by simp [hsrc]
    rw [hone, ← List.append_assoc, List.getLast?_concat]
  · rename_i hsrc
    have hnone : ((l.filter fun m' => m'.src = m.src).erase m).filter
        (fun m' => m'.src = src) = [] := by
      refine List.filter_eq_nil_iff.mpr fun m' hm' h => ?_
      have hsrc' := of_decide_eq_true (List.mem_filter.mp (List.mem_of_mem_erase hm')).2
      exact hsrc ((of_decide_eq_true h).symm.trans hsrc')
    have hrest : (l.filter fun m' => m'.src ≠ m.src).filter (fun m' => m'.src = src) =
        l.filter fun m' => m'.src = src := by
      rw [List.filter_filter]
      refine List.filter_congr fun m' _ => ?_
      by_cases h : m'.src = src
      · simp [h, hsrc]
      · simp [h]
    have hother : [m].filter (fun m' => m'.src = src) = [] := by
      simpa using fun h => hsrc h.symm
    rw [hnone, hrest, hother, List.append_nil, List.append_nil, lastOf]

theorem kept_moved {l : List MountSpec} {m : MountSpec} {x : Text × Text × Finset Text} :
    Kept (moved l m) x ↔ seen m = x ∨ ∃ src m', src ≠ m.src ∧ lastOf l src = some m' ∧ seen m' = x := by
  rw [Kept]
  simp only [lastOf_moved]
  constructor
  · rintro ⟨src, m', hlast, rfl⟩
    split at hlast
    · exact .inl (congrArg seen (Option.some.inj hlast))
    · rename_i hsrc
      exact .inr ⟨src, m', hsrc, hlast, rfl⟩
  · rintro (rfl | ⟨src, m', hsrc, hlast, rfl⟩)
    · exact ⟨m.src, m, if_pos rfl, rfl⟩
    · exact ⟨src, m', (if_neg hsrc).trans hlast, rfl⟩

/-- Of two different mounts of one source only the one that comes last is kept. -/
theorem kept_moved_ne {l : List MountSpec} {m m' : MountSpec} (hsrc : m.src = m'.src)
    (hne : seen m ≠ seen m') : ¬ ∀ x, Kept (moved l m) x ↔ Kept (moved l m') x := by
  intro h
  have hother : ∀ {m m' : MountSpec}, seen m ≠ seen m' → m.src = m'.src →
      Kept (moved l m') (seen m) → ∃ src n, src ≠ m.src ∧ lastOf l src = some n ∧
        seen n = seen m ∧ withoutSlash m.src = withoutSlash src := by
    intro m m' hne hsrc hkept
    rcases kept_moved.mp hkept with heq | ⟨src, n, hother, hlast, heq⟩
    · exact absurd heq.symm hne
    · refine ⟨src, n, by rwa [hsrc], hlast, heq, ?_⟩
      have hpath := congrArg (fun x => x.1) heq
      rw [← (lastOf_mem hlast).2]
      exact hpath.symm
  obtain ⟨src, n, hsrc₁, hlast, heq, hpath⟩ :=
    hother hne hsrc ((h _).mp (kept_moved.mpr (.inl rfl)))
  obtain ⟨src', n', hsrc₁', hlast', heq', hpath'⟩ :=
    hother hne.symm hsrc.symm ((h _).mpr (kept_moved.mpr (.inl rfl)))
  rw [← hsrc] at hsrc₁' hpath'
  have hsrc_named : src ≠ [] := by
    rw [← (lastOf_mem hlast).2]
    exact n.src_named
  have hsrc_named' : src' ≠ [] := by
    rw [← (lastOf_mem hlast').2]
    exact n'.src_named
  have hspelled := eq_of_withoutSlash m.src_named hsrc_named hsrc_named' hpath hpath' hsrc₁ hsrc₁'
  rw [hspelled, hlast', Option.some.injEq] at hlast
  rw [← hlast, heq'] at heq
  exact hne heq.symm

/-- Lists that name a source for two mounts are not the same in every order. -/
theorem not_exact_moved {m m' : MountSpec} (hplain : ∀ m ∈ requested, ¬ Misread m)
    (hm : m ∈ requested) (hm' : m' ∈ requested) (hsrc : m.src = m'.src) (hne : m.mount ≠ m'.mount) :
    ∃ reported, reported.Perm requested ∧ ¬ Exact p info requested reported := by
  by_contra hnone
  push Not at hnone
  have hsame : ∀ reported, reported.Perm requested → ∀ x, Kept requested x ↔ Kept reported x := by
    intro reported hperm
    obtain ⟨-, -, hexact⟩ := exact_iff.mp (hnone reported hperm)
    refine (hexact.mp (mounts_eq_iff.mpr fun x => ?_)).2
    simp only [hperm.mem_iff]
  rw [← seen_eq_mount (hplain m hm), ← seen_eq_mount (hplain m' hm')] at hne
  refine kept_moved_ne (l := requested) hsrc hne fun x => ?_
  exact (hsame _ (perm_moved hm) x).symm.trans (hsame _ (perm_moved hm') x)

def logsMount (dst : Text) (opts : Option Text) (dst_named : dst ≠ []) (dst_plain : ':' ∉ dst)
    (opts_plain : ∀ o, opts = some o → ':' ∉ o) : MountSpec :=
  ⟨"kolla_logs".toList, dst, opts, by decide, dst_named, logs_plain, dst_plain, opts_plain⟩

def logsAt : MountSpec :=
  logsMount "/var/log/kolla".toList none (by decide) logsPath_plain nofun

def readOnlyAt : MountSpec :=
  logsMount "/var/log/kolla".toList (some "ro".toList) (by decide) logsPath_plain
    fun _ h => by cases h; decide

def secondAt : MountSpec := logsMount "/logs".toList none (by decide) secondPath_plain nofun

end Podman
end Container
end KollaPowerOps
