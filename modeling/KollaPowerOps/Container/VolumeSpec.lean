import KollaPowerOps.Lib.PyText

/-!
# Container.VolumeSpec

The volumes of a container as they are written: `source:target`, or `source:target:options`.
-/

namespace KollaPowerOps
namespace Container

abbrev Text := List Char

/-- The one proof that every look-up of a text refers to. -/
scoped instance lawfulBEq_text : LawfulBEq Text := inferInstance

inductive Propagation where
  | shared
  | slave
  | unshared
  | rshared
  | rslave
  | rprivate
  deriving DecidableEq, Repr

def Propagation.text : Propagation → Text
  | .shared => "shared".toList
  | .slave => "slave".toList
  | .unshared => "private".toList
  | .rshared => "rshared".toList
  | .rslave => "rslave".toList
  | .rprivate => "rprivate".toList

/-- The SELinux labels `z` and `Z`. -/
inductive Relabel where
  | shared
  | own
  deriving DecidableEq, Repr

def Relabel.text : Relabel → Text
  | .shared => ['z']
  | .own => ['Z']

inductive VolumeOption where
  | ro
  | rw
  | relabel (l : Relabel)
  | propagation (p : Propagation)
  deriving DecidableEq, Repr

def VolumeOption.text : VolumeOption → Text
  | .ro => "ro".toList
  | .rw => "rw".toList
  | .relabel l => l.text
  | .propagation p => p.text

def VolumeOption.all : List VolumeOption := [.ro, .rw, .relabel .shared, .relabel .own,
  .propagation .shared, .propagation .slave, .propagation .unshared, .propagation .rshared,
  .propagation .rslave, .propagation .rprivate]

theorem VolumeOption.mem_all (o : VolumeOption) : o ∈ all := by
  rcases o with _ | _ | (_ | _) | (_ | _ | _ | _ | _ | _) <;> decide

theorem VolumeOption.text_injective {o o' : VolumeOption} (h : o.text = o'.text) : o = o' := by
  have hall : ∀ o ∈ all, ∀ o' ∈ all, o.text = o'.text → o = o' := by decide
  exact hall o o.mem_all o' o'.mem_all h

theorem VolumeOption.text_plain (o : VolumeOption) : ':' ∉ o.text ∧ ',' ∉ o.text := by
  rcases o with _ | _ | (_ | _) | (_ | _ | _ | _ | _ | _) <;> decide

/-- One entry of a list of volumes: a path of the host or the name of a volume, where it is
mounted, and its options in the order they are written. -/
structure VolumeRequest where
  source : Text
  target : Text
  options : List VolumeOption := []
  named : source ≠ []
  source_plain : ':' ∉ source
  target_plain : ':' ∉ target

namespace VolumeRequest

variable {r : VolumeRequest}

/-- The options as they are written. -/
def mode (r : VolumeRequest) : Text := [','].intercalate (r.options.map VolumeOption.text)

def parts (r : VolumeRequest) : List Text :=
  if r.options = [] then [r.source, r.target] else [r.source, r.target, r.mode]

def text (r : VolumeRequest) : Text := [':'].intercalate r.parts

theorem mem_intercalate {c : Char} {sep : Text} {ts : List Text} (h : c ∈ sep.intercalate ts) :
    c ∈ sep ∨ ∃ t ∈ ts, c ∈ t := by
  induction ts with
  | nil => cases h
  | cons t ts ih =>
    cases ts with
    | nil => exact .inr ⟨t, List.mem_cons_self, by simpa using h⟩
    | cons t' ts =>
      rw [List.intercalate_cons_cons, List.mem_append, List.mem_append] at h
      rcases h with (h | h) | h
      · exact .inr ⟨t, List.mem_cons_self, h⟩
      · exact .inl h
      · rcases ih h with h | ⟨u, hu, h⟩
        · exact .inl h
        · exact .inr ⟨u, List.mem_cons_of_mem _ hu, h⟩

theorem mode_plain (r : VolumeRequest) : ':' ∉ r.mode := by
  intro h
  rcases mem_intercalate h with h | ⟨t, ht, h⟩
  · cases List.mem_singleton.mp h
  · obtain ⟨o, _, rfl⟩ := List.mem_map.mp ht
    exact o.text_plain.1 h

/-- The parts are read back from the text. -/
theorem split_text (r : VolumeRequest) : r.text.splitOn ':' = r.parts := by
  refine List.splitOn_intercalate ':' (fun t ht => ?_) ?_
  · unfold parts at ht
    split at ht
    · simp only [List.mem_cons, List.not_mem_nil, or_false] at ht
      rcases ht with rfl | rfl
      exacts [r.source_plain, r.target_plain]
    · simp only [List.mem_cons, List.not_mem_nil, or_false] at ht
      rcases ht with rfl | rfl | rfl
      exacts [r.source_plain, r.target_plain, r.mode_plain]
  · unfold parts
    split <;> exact List.cons_ne_nil _ _

/-- The options are read back from what is written. -/
theorem split_mode (h : r.options ≠ []) : r.mode.splitOn ',' = r.options.map VolumeOption.text := by
  refine List.splitOn_intercalate ',' (fun t ht => ?_) (by simpa using h)
  obtain ⟨o, _, rfl⟩ := List.mem_map.mp ht
  exact o.text_plain.2

/-- A single option is written as such only by itself. -/
theorem mode_eq_single (h : r.options ≠ []) {o : VolumeOption} : r.mode = o.text ↔ r.options = [o] := by
  constructor
  · intro hmode
    have hsplit := split_mode h
    rw [hmode, List.splitOn_eq_singleton o.text_plain.2] at hsplit
    obtain ⟨o', ho', htext⟩ := List.map_eq_singleton_iff.mp hsplit.symm
    rw [ho', VolumeOption.text_injective htext]
  · intro hopts
    rw [mode, hopts]
    simp

/-- The text begins as the source does. -/
theorem head_text (r : VolumeRequest) : r.text.head? = r.source.head? := by
  obtain ⟨c, cs, hsource⟩ := List.exists_cons_of_ne_nil r.named
  unfold text parts
  split <;> rw [hsource] <;> rfl

theorem colon_mem_text (r : VolumeRequest) : ':' ∈ r.text := by
  unfold text parts
  split <;> rw [List.intercalate_cons_cons] <;> simp

/-- The text is not blank. -/
theorem strip_text (r : VolumeRequest) : PyText.strip r.text ≠ [] :=
  PyText.strip_ne_nil r.colon_mem_text (by decide)

end VolumeRequest

end Container
end KollaPowerOps
