import Mathlib.Data.List.Basic

/-!
# Lib.KeyRing

A ring of symmetric keys that is rotated: the staged key becomes the primary one, a new key is
staged, and the oldest keys beyond a maximum are dropped. The primary key encrypts; every key of a
ring decrypts.

* `version`       : the rings of one line of rotations.
* `version_reads` : which of them read what which others write.
-/

namespace KollaPowerOps

/-- The keys that were primary before are listed from the newest on. -/
structure KeyRing (Key : Type) where
  staged : Key
  primary : Key
  secondary : List Key
  deriving Repr, DecidableEq

namespace KeyRing

variable {Key : Type}

def keys (r : KeyRing Key) : List Key := r.staged :: r.primary :: r.secondary

/-- At most `max` keys stay. -/
def rotate (max : Nat) (new : Key) (r : KeyRing Key) : KeyRing Key where
  staged := new
  primary := r.staged
  secondary := (r.primary :: r.secondary).take (max - 2)

/-- What is encrypted with ring `a` can be decrypted with ring `b`. -/
def Reads (b a : KeyRing Key) : Prop := a.primary ∈ b.keys

instance [DecidableEq Key] (b a : KeyRing Key) : Decidable (b.Reads a) :=
  inferInstanceAs (Decidable (a.primary ∈ b.keys))

/-- The ring after `n` rotations, where rotation `i` stages key `news i`. -/
def version (max : Nat) (news : Nat → Key) (r : KeyRing Key) : Nat → KeyRing Key
  | 0 => r
  | n + 1 => rotate max (news n) (version max news r n)

variable {max : Nat} {news : Nat → Key} {r : KeyRing Key}

/-- A version depends on the keys staged before it alone. -/
theorem version_congr {news' : Nat → Key} {n : Nat} (h : ∀ i < n, news' i = news i) :
    version max news' r n = version max news r n := by
  induction n with
  | zero => rfl
  | succ n ih =>
    rw [version, version, h n (Nat.lt_succ_self n), ih fun i hi => h i (by omega)]

theorem next_primary (n : Nat) :
    (version max news r (n + 1)).primary = (version max news r n).staged := rfl

/-- The primary key of a version moves one place down with every rotation. -/
theorem secondary_version (i j : Nat) (h : j < max - 2) :
    (version max news r (i + j + 1)).secondary[j]? = some (version max news r i).primary := by
  induction j with
  | zero =>
    simp only [version, rotate, List.getElem?_take]
    rw [if_pos h]
    rfl
  | succ j ih =>
    have hj := ih (by omega)
    rw [← Nat.add_assoc, version, rotate]
    simp only [List.getElem?_take, List.getElem?_cons_succ]
    rw [if_pos h]
    exact hj

theorem version_reads {i j : Nat} (hnext : i ≤ j + 1) (hkept : j ≤ i + (max - 2)) :
    (version max news r j).Reads (version max news r i) := by
  rcases Nat.lt_trichotomy i j with hlt | rfl | hgt
  · obtain ⟨d, rfl⟩ : ∃ d, j = i + d + 1 := ⟨j - i - 1, by omega⟩
    have hmem : (version max news r i).primary ∈ (version max news r (i + d + 1)).secondary :=
      List.mem_of_getElem? (secondary_version i d (by omega))
    exact List.mem_cons_of_mem _ (List.mem_cons_of_mem _ hmem)
  · exact List.mem_cons_of_mem _ List.mem_cons_self
  · obtain rfl : i = j + 1 := by omega
    rw [Reads, next_primary]
    exact List.mem_cons_self

end KeyRing
end KollaPowerOps
