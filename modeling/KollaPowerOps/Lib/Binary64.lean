import Mathlib.Algebra.Order.Floor.Ring
import Mathlib.Data.Int.Log
import Mathlib.Data.Rat.Floor
import Mathlib.Tactic.Linarith
import Mathlib.Tactic.NormNum

/-!
# Lib.Binary64

Numbers with 53 significant bits, as the floats of Python have them: a rational that is not
negative is rounded to the nearest one, and a tie goes to the even one. The exponent is not
bounded here.

* `round`        : the float of a rational.
* `round_dyadic` : what has 53 bits is its own float.
* `round_mono`   : rounding keeps the order.
* `round_lt`     : rationals that two floats keep apart have different floats.
-/

namespace KollaPowerOps
namespace Binary64

/-- The nearest integer. -/
def halfEven (q : ℚ) : ℤ :=
  if q - ⌊q⌋ < 1 / 2 ∨ q - ⌊q⌋ = 1 / 2 ∧ ⌊q⌋ % 2 = 0 then ⌊q⌋ else ⌊q⌋ + 1

/-- The distance of the floats around a number. -/
def ulp (q : ℚ) : ℚ := 2 ^ (Int.log 2 q - 52)

def round (q : ℚ) : ℚ := halfEven (q / ulp q) * ulp q

/-! ## Integers -/

theorem floor_le_halfEven (q : ℚ) : ⌊q⌋ ≤ halfEven q := by
  rw [halfEven]
  split <;> omega

theorem halfEven_le_floor (q : ℚ) : halfEven q ≤ ⌊q⌋ + 1 := by
  rw [halfEven]
  split <;> omega

theorem halfEven_intCast (n : ℤ) : halfEven n = n := by
  rw [halfEven, Int.floor_intCast, sub_self]
  exact if_pos (.inl (by norm_num))

theorem halfEven_mono {p q : ℚ} (h : p ≤ q) : halfEven p ≤ halfEven q := by
  rcases (Int.floor_le_floor h).lt_or_eq with hlt | heq
  · have hp := halfEven_le_floor p
    have hq := floor_le_halfEven q
    omega
  · rw [halfEven, halfEven, heq]
    split
    · split <;> omega
    · rename_i hp
      rw [if_neg]
      intro hq
      refine hp ?_
      rcases hq with hq | ⟨hq, heven⟩
      · exact .inl (by linarith)
      · rcases h.lt_or_eq with hpq | rfl
        · exact .inl (by linarith)
        · exact .inr ⟨hq, heven⟩

/-! ## Floats -/

theorem ulp_pos (q : ℚ) : 0 < ulp q := zpow_pos (by norm_num) _

theorem round_zero : round 0 = 0 := by
  have hzero : halfEven 0 = 0 := halfEven_intCast 0
  rw [round, zero_div, hzero, Int.cast_zero, zero_mul]

/-- What is a whole number of units is its own float. -/
theorem round_of_units {q : ℚ} {n : ℤ} (h : q / ulp q = n) : round q = q := by
  rw [round, h, halfEven_intCast, ← h, div_mul_cancel₀ q (ulp_pos q).ne']

theorem round_dyadic {m : ℕ} (hm : m < 2 ^ 53) (k : ℤ) : round (m * 2 ^ k) = m * 2 ^ k := by
  rcases Nat.eq_zero_or_pos m with rfl | hpos
  · rw [Nat.cast_zero, zero_mul, round_zero]
  · have hq : (0 : ℚ) < m * 2 ^ k := mul_pos (Nat.cast_pos.mpr hpos) (zpow_pos (by norm_num) k)
    have hlog : Int.log 2 ((m : ℚ) * 2 ^ k) ≤ k + 52 := by
      have hm' : (m : ℚ) < 2 ^ (53 : ℤ) := by exact_mod_cast hm
      have hlt : (m : ℚ) * 2 ^ k < ((2 : ℕ) : ℚ) ^ (53 + k) := by
        rw [Nat.cast_ofNat, zpow_add₀ two_ne_zero]
        exact mul_lt_mul_of_pos_right hm' (zpow_pos (by norm_num) k)
      have hlog := (Int.lt_zpow_iff_log_lt (by norm_num) hq).mp hlt
      omega
    obtain ⟨j, hj⟩ : ∃ j : ℕ, k - (Int.log 2 ((m : ℚ) * 2 ^ k) - 52) = j :=
      ⟨_, (Int.toNat_of_nonneg (by omega)).symm⟩
    refine round_of_units (n := m * 2 ^ j) ?_
    rw [ulp, mul_div_assoc, ← zpow_sub₀ two_ne_zero, hj]
    push_cast
    rw [zpow_natCast]

/-! ## Order -/

theorem units_lt {q : ℚ} (hq : 0 < q) : 2 ^ 52 ≤ q / ulp q ∧ q / ulp q < 2 ^ 53 := by
  have hlow := Int.zpow_log_le_self (b := 2) (by norm_num) hq
  have hhigh := Int.lt_zpow_succ_log_self (b := 2) (by norm_num) q
  rw [Nat.cast_ofNat] at hlow hhigh
  rw [le_div_iff₀ (ulp_pos q), div_lt_iff₀ (ulp_pos q), ulp, ← zpow_natCast, ← zpow_natCast,
    ← zpow_add₀ two_ne_zero, ← zpow_add₀ two_ne_zero]
  constructor
  · convert hlow using 2
    push_cast
    ring
  · convert hhigh using 2
    push_cast
    ring

theorem pow_mul_ulp (q : ℚ) :
    2 ^ 52 * ulp q = 2 ^ Int.log 2 q ∧ 2 ^ 53 * ulp q = 2 ^ (Int.log 2 q + 1) := by
  rw [ulp, ← zpow_natCast, ← zpow_natCast, ← zpow_add₀ two_ne_zero, ← zpow_add₀ two_ne_zero]
  constructor
  · congr 1
    push_cast
    ring
  · congr 1
    push_cast
    ring

/-- The float of a number lies in its binade, or at its end. -/
theorem round_mem {q : ℚ} (hq : 0 < q) :
    2 ^ Int.log 2 q ≤ round q ∧ round q ≤ 2 ^ (Int.log 2 q + 1) := by
  obtain ⟨hlow, hhigh⟩ := units_lt hq
  have hlow' := halfEven_mono hlow
  have hhigh' := halfEven_mono hhigh.le
  have hpow : ∀ n : ℕ, halfEven (2 ^ n) = 2 ^ n := fun n => by
    exact_mod_cast halfEven_intCast (2 ^ n)
  rw [hpow] at hlow' hhigh'
  rw [← (pow_mul_ulp q).1, ← (pow_mul_ulp q).2, round]
  constructor
  · exact mul_le_mul_of_nonneg_right (by exact_mod_cast hlow') (ulp_pos q).le
  · exact mul_le_mul_of_nonneg_right (by exact_mod_cast hhigh') (ulp_pos q).le

theorem round_mono {p q : ℚ} (hp : 0 ≤ p) (h : p ≤ q) : round p ≤ round q := by
  rcases hp.lt_or_eq with hp | rfl
  · have hq : 0 < q := lt_of_lt_of_le hp h
    rcases (Int.log_mono_right (b := 2) hp h).lt_or_eq with hlog | hlog
    · have hbinade : (2 : ℚ) ^ (Int.log 2 p + 1) ≤ 2 ^ Int.log 2 q :=
        zpow_le_zpow_right₀ (by norm_num) (by omega)
      exact (round_mem hp).2.trans (hbinade.trans (round_mem hq).1)
    · have hulp : ulp p = ulp q := by rw [ulp, ulp, hlog]
      have hunits : p / ulp q ≤ q / ulp q := div_le_div_of_nonneg_right h (ulp_pos q).le
      rw [round, round, hulp]
      exact mul_le_mul_of_nonneg_right (by exact_mod_cast halfEven_mono hunits) (ulp_pos q).le
  · rw [round_zero]
    rcases h.lt_or_eq with hq | rfl
    · exact (zpow_pos (by norm_num) _).le.trans (round_mem hq).1
    · exact round_zero.ge

theorem round_lt {p q a b : ℚ} (hp : 0 ≤ p) (hpa : p ≤ a) (hab : a < b) (hbq : b ≤ q)
    (ha : round a = a) (hb : round b = b) : round p < round q := by
  have hlow := round_mono hp hpa
  have hhigh := round_mono (hp.trans (hpa.trans hab.le)) hbq
  rw [ha] at hlow
  rw [hb] at hhigh
  exact lt_of_le_of_lt hlow (lt_of_lt_of_le hab hhigh)

end Binary64
end KollaPowerOps
