import Mathlib.Algebra.Group.Int.Defs
import Mathlib.Algebra.Group.Nat.Defs
import KollaPowerOps.Lib.PyText

/-!
# Lib.PyNumber

Integers as texts: `str(i)` and `int(s)`.

* `decimal`       : the decimal notation of an integer.
* `digitsValue`   : the number that a text of digits denotes.
* `decimal_eq_iff` : a text of digits is a decimal notation if it has no leading zeros.
* `parseInt`      : `int(s)`; `none` where Python raises a `ValueError`.
-/

namespace KollaPowerOps
namespace PyNumber

/-- `str(i)` -/
def decimal : Int → List Char
  | .ofNat n => Nat.toDigits 10 n
  | .negSucc n => '-' :: Nat.toDigits 10 (n + 1)

def digitsValue (ds : List Char) : Nat := Nat.ofDigitChars 10 ds 0

/-- A number in digits, maybe with leading zeros. -/
def IsDigits (ds : List Char) : Prop := ds ≠ [] ∧ ∀ c ∈ ds, c.isDigit = true

instance (ds : List Char) : Decidable (IsDigits ds) := inferInstanceAs (Decidable (_ ∧ _))

/-- Zero, or a number that begins with another digit. -/
def Canonical (ds : List Char) : Prop := ds = ['0'] ∨ ds.head? ≠ some '0'

instance (ds : List Char) : Decidable (Canonical ds) := inferInstanceAs (Decidable (_ ∨ _))

theorem isDigits_toDigits (n : Nat) : IsDigits (Nat.toDigits 10 n) :=
  ⟨Nat.toDigits_ne_nil, fun _ hc => Nat.isDigit_of_mem_toDigits (by decide) (by decide) hc⟩

theorem digitsValue_toDigits (n : Nat) : digitsValue (Nat.toDigits 10 n) = n :=
  Nat.ofDigitChars_ten_toDigits

theorem isDigit_bounds {c : Char} (h : c.isDigit = true) : 48 ≤ c.toNat ∧ c.toNat ≤ 57 := by
  simp only [Char.isDigit, Bool.and_eq_true, decide_eq_true_eq, UInt32.le_iff_toNat_le] at h
  exact h

theorem digitChar_of_isDigit {c : Char} (h : c.isDigit = true) :
    Nat.digitChar (c.toNat - 48) = c := by
  obtain ⟨hlow, hhigh⟩ := isDigit_bounds h
  refine Char.toNat_inj.mp ?_
  rw [Nat.toNat_digitChar_of_lt_ten (by omega)]
  omega

theorem digitsValue_snoc (ds : List Char) (c : Char) :
    digitsValue (ds ++ [c]) = 10 * digitsValue ds + (c.toNat - 48) := by
  rw [digitsValue, Nat.ofDigitChars_append, Nat.ofDigitChars_cons, Nat.ofDigitChars_nil]
  rfl

theorem digitsValue_append (ds es : List Char) :
    digitsValue (ds ++ es) = digitsValue ds * 10 ^ es.length + digitsValue es := by
  induction es using List.reverseRecOn with
  | nil =>
    rw [List.append_nil, List.length_nil, Nat.pow_zero, Nat.mul_one]
    rfl
  | append_singleton es c ih =>
    rw [← List.append_assoc, digitsValue_snoc, digitsValue_snoc, ih, List.length_append,
      List.length_singleton, Nat.pow_succ, Nat.mul_add, ← Nat.mul_assoc, Nat.mul_comm 10,
      Nat.mul_assoc, Nat.mul_comm 10, Nat.add_assoc]

theorem toDigits_digitsValue {ds : List Char} (hds : IsDigits ds) (hc : Canonical ds) :
    Nat.toDigits 10 (digitsValue ds) = ds := by
  induction ds using List.reverseRecOn with
  | nil => exact absurd rfl hds.1
  | append_singleton ds c ih =>
    obtain ⟨hrest, hlast⟩ := List.forall_mem_append.mp hds.2
    have hdigit : c.isDigit = true := hlast c List.mem_cons_self
    obtain ⟨hlow, hhigh⟩ := isDigit_bounds hdigit
    have hd : c.toNat - 48 < 10 := by omega
    have hsingle : Nat.toDigits 10 (c.toNat - 48) = [c] := by
      rw [Nat.toDigits_of_lt_base hd, digitChar_of_isDigit hdigit]
    rw [digitsValue_snoc]
    by_cases hnil : ds = []
    · rw [hnil]
      exact (congrArg _ (Nat.zero_add _)).trans hsingle
    · have hhead : ds.head? ≠ some '0' := by
        rcases hc with hzero | hhead
        · exact absurd (List.append_eq_singleton_iff.mp hzero) (by simp [hnil])
        · rwa [List.head?_append_of_ne_nil _ hnil] at hhead
      have hds' := ih ⟨hnil, hrest⟩ (.inr hhead)
      have hpos : 0 < digitsValue ds := by
        rw [Nat.pos_iff_ne_zero]
        intro hzero
        rw [hzero] at hds'
        rw [← hds'] at hhead
        exact hhead rfl
      rw [← Nat.toDigits_append_toDigits (by decide) hpos hd, hds', hsingle]

theorem canonical_toDigits (n : Nat) : Canonical (Nat.toDigits 10 n) := by
  induction n using Nat.strongRecOn with
  | _ n ih =>
    by_cases hn : n < 10
    · have hsmall : ∀ m < 10, Canonical (Nat.toDigits 10 m) := by decide
      exact hsmall n hn
    · have hsplit := Nat.toDigits_of_base_le (b := 10) (n := n) (by decide) (by omega)
      rw [hsplit]
      refine .inr ?_
      rw [List.head?_append_of_ne_nil _ Nat.toDigits_ne_nil]
      rcases ih (n / 10) (by omega) with hzero | hhead
      · have hvalue := congrArg digitsValue hzero
        rw [digitsValue_toDigits] at hvalue
        have hten : digitsValue ['0'] = 0 := by decide
        omega
      · exact hhead

/-- A text of digits is the notation of an integer exactly when it has no leading zeros. -/
theorem decimal_eq_iff {ds : List Char} (hds : IsDigits ds) {i : Int} :
    decimal i = ds ↔ i = digitsValue ds ∧ Canonical ds := by
  constructor
  · intro h
    cases i with
    | ofNat n =>
      have hds' : Nat.toDigits 10 n = ds := h
      rw [← hds', digitsValue_toDigits]
      exact ⟨rfl, canonical_toDigits n⟩
    | negSucc n =>
      have hminus : '-' ∈ ds := by
        rw [← h]
        exact List.mem_cons_self
      cases hds.2 _ hminus
  · rintro ⟨rfl, hc⟩
    exact toDigits_digitsValue hds hc

theorem decimal_injective {i j : Int} (h : decimal i = decimal j) : i = j := by
  cases j with
  | ofNat n =>
    rw [((decimal_eq_iff (isDigits_toDigits n)).mp h).1, digitsValue_toDigits]
    rfl
  | negSucc n =>
    cases i with
    | ofNat m =>
      have hn := ((decimal_eq_iff (isDigits_toDigits m)).mp h.symm).1
      rw [digitsValue_toDigits] at hn
      cases hn
    | negSucc m =>
      have hdigits : Nat.toDigits 10 (m + 1) = Nat.toDigits 10 (n + 1) := (List.cons.inj h).2
      have hvalue := congrArg digitsValue hdigits
      rw [digitsValue_toDigits, digitsValue_toDigits] at hvalue
      rw [Nat.succ_injective hvalue]

theorem decimal_ne_nil (i : Int) : decimal i ≠ [] := by
  cases i with
  | ofNat n => exact Nat.toDigits_ne_nil
  | negSucc n => exact List.cons_ne_nil _ _

theorem getLast_decimal (i : Int) : ∃ c, (decimal i).getLast? = some c ∧ c.isDigit = true := by
  have hlast : ∀ n, ∃ c, (Nat.toDigits 10 n).getLast? = some c ∧ c.isDigit = true := by
    intro n
    obtain ⟨hne, hall⟩ := isDigits_toDigits n
    exact ⟨_, List.getLast?_eq_some_getLast hne, hall _ (List.getLast_mem hne)⟩
  cases i with
  | ofNat n => exact hlast n
  | negSucc n =>
    obtain ⟨c, hc, hdigit⟩ := hlast (n + 1)
    refine ⟨c, ?_, hdigit⟩
    rw [decimal, List.getLast?_cons, hc]
    rfl

/-! ## Reading an integer -/

/-- Digits, with single underscores between them. -/
def parseDigits (s : List Char) : Option Nat :=
  let groups := s.splitOn '_'
  if groups.all fun g => g ≠ [] ∧ g.all Char.isDigit then some (digitsValue groups.flatten) else none

def parseInt (s : List Char) : Option Int :=
  match PyText.strip s with
  | '-' :: ds => (parseDigits ds).map fun n => -(n : Int)
  | '+' :: ds => (parseDigits ds).map Int.ofNat
  | ds => (parseDigits ds).map Int.ofNat

theorem parseInt_digits {ds : List Char} (hds : IsDigits ds) :
    parseInt ds = some (digitsValue ds : Int) := by
  have hspace : ∀ c ∈ ds, PyText.isSpace c = false := by
    intro c hc
    obtain ⟨hlow, hhigh⟩ := isDigit_bounds (hds.2 c hc)
    unfold PyText.isSpace
    simp only [Bool.or_eq_false_iff, Bool.and_eq_false_iff, decide_eq_false_iff_not, beq_eq_false_iff_ne]
    omega
  have hplain : '_' ∉ ds := fun hmem => by
    cases hds.2 _ hmem
  have hparse : parseDigits ds = some (digitsValue ds) := by
    rw [parseDigits, List.splitOn_eq_singleton hplain]
    simpa [hds.1] using hds.2
  rw [parseInt, PyText.strip_of_no_space hspace]
  split
  · rename_i ds'
    cases hds.2 '-' List.mem_cons_self
  · rename_i ds'
    cases hds.2 '+' List.mem_cons_self
  · rw [hparse]
    rfl

end PyNumber
end KollaPowerOps
