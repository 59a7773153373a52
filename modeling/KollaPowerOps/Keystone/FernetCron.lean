import Mathlib.Tactic.Ring
import KollaPowerOps.Lib.Spacing

/-!
# Keystone.FernetCron

`fernet_rotate_cron_generator`: the cron entries of one host, so that the hosts of a group rotate
the fernet keys in turn. The loops take fuel and give `none` without it.

* `generate`          : the entries of a host, by the range that its interval falls in.
* `generate_entries`  : what the loops compute, with enough fuel.
* `RoundRobin`        : the entries of all hosts together are valid times and evenly spaced over
  the week.
* `round_robin_iff`   : for which numbers of hosts and intervals they are.
-/

namespace KollaPowerOps
namespace Keystone

open Spacing

def minuteSpan : Int := 1
def hourSpan : Int := 60
def daySpan : Int := 24 * hourSpan
def weekSpan : Int := 7 * daySpan

/-- A field of a cron entry: `*` or a number. -/
inductive Field where
  | any
  | at (n : Int)
  deriving DecidableEq, Repr

/-- A cron entry: minute 0-59, hour 0-23 and day of the week 0-6. -/
structure Cron where
  min : Field := .any
  hour : Field := .any
  day : Field := .any
  deriving DecidableEq, Repr

structure RotationIntervalTooLong where
  message : String
  deriving DecidableEq, Repr

/-- `while time + total_rotation_mins <= span`, with the entry that is appended for a time. -/
def cronsFrom (span : Int) (entry : Int → Cron) (totalRotationMins hostRotationMins : Int) :
    Nat → Int → Option (List Cron)
  | 0, _ => none
  | fuel + 1, time =>
    if time + totalRotationMins ≤ span then do
      let crons ← cronsFrom span entry totalRotationMins hostRotationMins fuel
        (time + hostRotationMins)
      some (entry time :: crons)
    else some []

/-- Crons multiple of a day. The hour is the remainder by `HOUR_SPAN`, as the source has it. -/
def dayCron (time : Int) : Cron :=
  { min := .at (time % hourSpan), hour := .at (time % hourSpan), day := .at (time / daySpan) }

def hourCron (time : Int) : Cron :=
  { min := .at (time % hourSpan), hour := .at (time / hourSpan) }

def minuteCron (time : Int) : Cron := { min := .at (time / minuteSpan) }

def generate (fuel : Nat) (hostIndex totalHosts totalRotationMins : Int) :
    Option (Except RotationIntervalTooLong (List Cron)) :=
  if hostIndex ≥ totalHosts then some (.ok [])
  else
    let hostRotationMins := totalRotationMins * totalHosts
    let hostRotationOffset := totalRotationMins * hostIndex
    if totalRotationMins > weekSpan then
      some (.error ⟨"Unable to schedule fernet key rotation with an interval " ++
        "greater than 1 week divided by the number of hosts"⟩)
    else if hostRotationMins > daySpan then
      (cronsFrom weekSpan dayCron totalRotationMins hostRotationMins fuel
        hostRotationOffset).map .ok
    else if hostRotationMins > hourSpan then
      (cronsFrom daySpan hourCron totalRotationMins hostRotationMins fuel
        hostRotationOffset).map .ok
    else
      (cronsFrom hourSpan minuteCron totalRotationMins hostRotationMins fuel
        hostRotationOffset).map .ok

/-! ## Fire times -/

/-- The field is `*` or a number from 0 to the maximum. -/
def Field.Valid (max : Int) : Field → Prop
  | .any => True
  | .at n => 0 ≤ n ∧ n ≤ max

structure Cron.Valid (c : Cron) : Prop where
  min : c.min.Valid 59
  hour : c.hour.Valid 23
  day : c.day.Valid 6

def Field.values (n : Nat) : Field → List Nat
  | .any => List.range n
  | .at v => [v.toNat]

/-- The minutes of the week at which the entry fires. -/
def Cron.fires (c : Cron) : List Nat :=
  (c.day.values 7).flatMap fun d => (c.hour.values 24).flatMap fun h =>
    (c.min.values 60).map fun m => (d * 24 + h) * 60 + m

/-- The fire times of all hosts. -/
def fireTimes (crons : Nat → List Cron) (totalHosts : Nat) : List Nat :=
  (List.range totalHosts).flatMap fun i => (crons i).flatMap Cron.fires

/-- The entries that `generate` returns are valid, and their fire times around the week are at
least one and less than two intervals apart. -/
def RoundRobin (totalHosts totalRotationMins : Nat) : Prop :=
  ∃ crons : Nat → List Cron,
    (∀ i < totalHosts, ∃ fuel,
      generate fuel i totalHosts totalRotationMins = some (.ok (crons i))) ∧
    (∀ i < totalHosts, ∀ c ∈ crons i, c.Valid) ∧
    Spaced (7 * 24 * 60) totalRotationMins (fireTimes crons totalHosts)

/-! ## What the loops compute -/

theorem cronsFrom_mono {span T H : Int} {entry : Int → Cron} {fuel : Nat} (m : Nat) :
    ∀ {time : Int} {crons : List Cron}, cronsFrom span entry T H fuel time = some crons →
      cronsFrom span entry T H (fuel + m) time = some crons := by
  induction fuel with
  | zero => intro time crons h; cases h
  | succ fuel ih =>
    intro time crons h
    rw [Nat.succ_add]
    rw [cronsFrom] at h ⊢
    split at h
    · rename_i hle
      rw [if_pos hle]
      cases hrest : cronsFrom span entry T H fuel (time + H) with
      | none => rw [hrest] at h; cases h
      | some rest => rw [hrest] at h; rw [ih hrest]; exact h
    · rename_i hle
      rw [if_neg hle]
      exact h

theorem share_next {m n k : Nat} (hn : 0 < n) (hk : 0 < share m n k) :
    share m n (k + n) = share m n k - 1 := by
  have hstep : ∀ j, j < share m n (k + n) ↔ j + 1 < share m n k := by
    intro j
    have hmul : n * (j + 1) = n * j + n := Nat.mul_succ n j
    rw [share_spec hn, share_spec hn, hmul]
    omega
  have h₁ := hstep (share m n (k + n))
  have h₂ := hstep (share m n k - 1)
  omega

/-- With enough fuel a loop lists the entries of every `N`-th interval that ends in the span. -/
theorem cronsFrom_eq {span T N : Nat} (hT : 0 < T) (hN : 0 < N) (entry : Int → Cron) (c : Nat) :
    ∀ k fuel, share (span / T) N k = c → c < fuel →
      cronsFrom span entry T ((T : Int) * N) fuel ((T : Int) * k) =
        some ((List.range' k c N).map fun j : Nat => entry ((T : Int) * j)) := by
  have hfits : ∀ k : Nat, (T : Int) * k + T ≤ span ↔ k < span / T := by
    intro k
    have hle : k + 1 ≤ span / T ↔ (k + 1) * T ≤ span := Nat.le_div_iff_mul_le hT
    have hcast : ((T * (k + 1) : Nat) : Int) = (T : Int) * k + T := by
      rw [Nat.mul_succ]
      simp
    rw [← hcast, Nat.mul_comm]
    omega
  induction c with
  | zero =>
    intro k fuel hc hfuel
    obtain ⟨fuel, rfl⟩ := Nat.exists_eq_succ_of_ne_zero (by omega : fuel ≠ 0)
    have hk : ¬ k < span / T := by
      have h := share_spec hN (m := span / T) (i := k) 0
      rw [hc, Nat.mul_zero, Nat.add_zero] at h
      exact fun hk => Nat.lt_irrefl 0 (h.mpr hk)
    rw [cronsFrom, if_neg (mt (hfits k).mp hk)]
    rfl
  | succ c ih =>
    intro k fuel hc hfuel
    obtain ⟨fuel, rfl⟩ := Nat.exists_eq_succ_of_ne_zero (by omega : fuel ≠ 0)
    have hk : k < span / T := by
      have h := share_spec hN (m := span / T) (i := k) 0
      rw [Nat.mul_zero, Nat.add_zero] at h
      exact h.mp (by omega)
    have hnext : share (span / T) N (k + N) = c := by
      rw [share_next hN (by omega), hc]
      rfl
    have hrest := ih (k + N) fuel hnext (by omega)
    have htime : (T : Int) * k + (T : Int) * N = (T : Int) * (k + N : Nat) := by
      rw [← Int.mul_add]
      simp
    rw [cronsFrom, if_pos ((hfits k).mpr hk), htime, hrest, List.range'_succ]
    rfl

/-- The span that the crons of a group are built for. -/
def spanOf (N T : Nat) : Nat :=
  if 1440 < T * N then 7 * 24 * 60 else if 60 < T * N then 1440 else 60

/-- The entry for a time, by the same ranges. -/
def cronOf (N T : Nat) : Int → Cron :=
  if 1440 < T * N then dayCron else if 60 < T * N then hourCron else minuteCron

theorem generate_eq {fuel N T i : Nat} (hi : i < N) (hT : T ≤ 7 * 24 * 60) :
    generate fuel i N T =
      (cronsFrom (spanOf N T) (cronOf N T) T ((T : Int) * N) fuel ((T : Int) * i)).map .ok := by
  have hcast : (T : Int) * N = (T * N : Nat) := by simp
  have hindex : ¬ (i : Int) ≥ N := by omega
  have hlong : ¬ (T : Int) > weekSpan := by unfold weekSpan daySpan hourSpan; omega
  have hday : (T : Int) * N > daySpan ↔ 1440 < T * N := by
    rw [hcast]
    unfold daySpan hourSpan
    omega
  have hhour : (T : Int) * N > hourSpan ↔ 60 < T * N := by
    rw [hcast]
    unfold hourSpan
    omega
  unfold generate spanOf cronOf
  simp only [if_neg hindex, if_neg hlong, hday, hhour]
  split
  · rfl
  · split
    · rfl
    · rfl

/-- What `generate` returns for a host. -/
def entries (N T i : Nat) : List Cron :=
  (List.range' i (share (spanOf N T / T) N i) N).map fun k : Nat => cronOf N T ((T : Int) * k)

theorem generate_entries {N T i : Nat} (hi : i < N) (hT : 0 < T) (hweek : T ≤ 7 * 24 * 60) :
    ∃ fuel, generate fuel i N T = some (.ok (entries N T i)) := by
  refine ⟨share (spanOf N T / T) N i + 1, ?_⟩
  rw [generate_eq hi hweek,
    cronsFrom_eq hT (by omega) (cronOf N T) _ i _ rfl (Nat.lt_succ_self _)]
  rfl

theorem generate_unique {N T i fuel : Nat} (hi : i < N) (hT : 0 < T) (hweek : T ≤ 7 * 24 * 60)
    {crons : List Cron} (h : generate fuel i N T = some (.ok crons)) : crons = entries N T i := by
  obtain ⟨fuel', h'⟩ := generate_entries hi hT hweek
  rw [generate_eq hi hweek] at h h'
  obtain ⟨l, hl, hok⟩ := Option.map_eq_some_iff.mp h
  obtain ⟨l', hl', hok'⟩ := Option.map_eq_some_iff.mp h'
  cases hok
  cases hok'
  have hsame := cronsFrom_mono fuel' hl
  rw [Nat.add_comm, cronsFrom_mono fuel hl'] at hsame
  exact (Option.some.inj hsame).symm

/-- The round robin, by the intervals of the span. -/
theorem round_robin_intervals {N T : Nat} (hN : 0 < N) (hT : 0 < T) (hweek : T ≤ 7 * 24 * 60) :
    RoundRobin N T ↔ (∀ k : Nat, k < spanOf N T / T → (cronOf N T ((T : Int) * k)).Valid) ∧
      Spaced (7 * 24 * 60) T
        ((List.range (spanOf N T / T)).flatMap fun k : Nat => (cronOf N T ((T : Int) * k)).fires) := by
  have hperm := strides_perm (m := spanOf N T / T) hN
  have hfires : (fireTimes (entries N T) N).Perm
      ((List.range (spanOf N T / T)).flatMap fun k : Nat => (cronOf N T ((T : Int) * k)).fires) := by
    have hflat : fireTimes (entries N T) N =
        ((List.range N).flatMap fun i => List.range' i (share (spanOf N T / T) N i) N).flatMap
          fun k : Nat => (cronOf N T ((T : Int) * k)).fires := by
      rw [List.flatMap_assoc]
      simp only [fireTimes, entries, List.flatMap_map]
    rw [hflat]
    exact hperm.flatMap_right _
  have hvalid : (∀ i < N, ∀ c ∈ entries N T i, c.Valid) ↔
      ∀ k : Nat, k < spanOf N T / T → (cronOf N T ((T : Int) * k)).Valid := by
    constructor
    · intro h k hk
      obtain ⟨i, hi, hmem⟩ := List.mem_flatMap.mp (hperm.mem_iff.mpr (List.mem_range.mpr hk))
      exact h i (List.mem_range.mp hi) _ (List.mem_map_of_mem hmem)
    · intro h i hi c hc
      obtain ⟨k, hk, rfl⟩ := List.mem_map.mp hc
      exact h k (List.mem_range.mp (hperm.mem_iff.mp
        (List.mem_flatMap.mpr ⟨i, List.mem_range.mpr hi, hk⟩)))
  rw [← hvalid, ← spaced_perm hfires]
  constructor
  · rintro ⟨crons, hgen, hall, hspaced⟩
    have hsame : ∀ i < N, crons i = entries N T i := by
      intro i hi
      obtain ⟨fuel, hfuel⟩ := hgen i hi
      exact generate_unique hi hT hweek hfuel
    refine ⟨fun i hi => hsame i hi ▸ hall i hi, ?_⟩
    have htimes : fireTimes crons N = fireTimes (entries N T) N := by
      unfold fireTimes
      rw [List.flatMap_def, List.flatMap_def]
      congr 1
      apply List.map_congr_left
      intro i hi
      rw [hsame i (List.mem_range.mp hi)]
    rwa [htimes] at hspaced
  · rintro ⟨hall, hspaced⟩
    exact ⟨entries N T, fun i hi => generate_entries hi hT hweek, hall, hspaced⟩

/-! ## Ranges of minutes and hours -/

theorem quotient_bounds {T span : Nat} (hT : 0 < T) (hle : T ≤ span) :
    0 < span / T ∧ (span / T - 1) * T + T ≤ span ∧ span < (span / T - 1) * T + 2 * T := by
  have hpos : 0 < span / T := Nat.div_pos hle hT
  have hlow : span / T * T ≤ span := Nat.div_mul_le_self span T
  have hhigh : span < span / T * T + T := Nat.lt_div_mul_add hT
  have hsplit : span / T * T = (span / T - 1) * T + T := by
    rw [← Nat.succ_mul, Nat.succ_eq_add_one, Nat.sub_add_cancel hpos]
  omega

theorem interval_lt {T span k : Nat} (hk : k < span / T) : T * k + T ≤ span := by
  have hle : (k + 1) * T ≤ span := (Nat.mul_le_mul_right T hk).trans (Nat.div_mul_le_self span T)
  rwa [Nat.succ_mul, Nat.mul_comm] at hle

/-- Intervals that repeat in every part of the week, for entries that fire once in each part. -/
theorem parts_spaced {T c q : Nat} (hT : 0 < T) (hle : T ≤ c) (hq : 0 < q) :
    Spaced (q * c) T
      ((List.range (c / T)).flatMap fun k => (List.range q).map fun b => b * c + T * k) := by
  obtain ⟨hpos, hlow, hhigh⟩ := quotient_bounds hT hle
  have hspaced := spaced_blocks hpos (fun _ => ⟨Nat.le_refl T, by omega⟩) ⟨hlow, hhigh⟩ hq
  refine (spaced_perm ?_).mpr hspaced
  have hswap := loops_perm (fun k b => b * c + T * k) (List.range (c / T)) (List.range q)
  simpa only [block, Nat.mul_comm] using hswap

theorem minuteCron_fires (t : Nat) :
    (minuteCron t).fires = (List.range 168).map fun b => b * 60 + t := by
  have hhours : (List.range 7).flatMap (fun d => (List.range 24).map fun h => d * 24 + h) =
      List.range 168 := by decide +kernel
  have ht : ((t : Int) / minuteSpan).toNat = t := by unfold minuteSpan; omega
  rw [← hhours, List.map_flatMap]
  simp only [Cron.fires, minuteCron, Field.values, ht, List.map_singleton, List.map_map,
    ← List.map_eq_flatMap]
  rfl

theorem hourCron_fires (t : Nat) :
    (hourCron t).fires = (List.range 7).map fun d => d * 1440 + t := by
  have hmin : ((t : Int) % hourSpan).toNat = t % 60 := by unfold hourSpan; omega
  have hhour : ((t : Int) / hourSpan).toNat = t / 60 := by unfold hourSpan; omega
  simp only [Cron.fires, hourCron, Field.values, hmin, hhour, List.map_singleton,
    List.flatMap_singleton, ← List.map_eq_flatMap]
  apply List.map_congr_left
  intro d _
  omega

theorem round_robin_minutes {N T : Nat} (hN : 0 < N) (hT : 0 < T) (h : T * N ≤ 60) :
    RoundRobin N T := by
  have hle : T ≤ 60 := (Nat.le_mul_of_pos_right T hN).trans h
  rw [round_robin_intervals hN hT (by omega)]
  have hspan : spanOf N T = 60 := by
    rw [spanOf, if_neg (by omega), if_neg (by omega)]
  have hcron : cronOf N T = minuteCron := by
    rw [cronOf, if_neg (by omega), if_neg (by omega)]
  rw [hspan, hcron]
  constructor
  · intro k hk
    have hfits := interval_lt hk
    have hcast : (T : Int) * k = (T * k : Nat) := by simp
    refine ⟨?_, trivial, trivial⟩
    rw [hcast]
    simp only [minuteCron, minuteSpan, Field.Valid]
    omega
  · have hparts := parts_spaced hT hle (q := 168) (by decide)
    simp only [← minuteCron_fires] at hparts
    simpa only [Int.natCast_mul] using hparts

theorem round_robin_hours {N T : Nat} (hN : 0 < N) (hT : 0 < T) (h : 60 < T * N)
    (h' : T * N ≤ 1440) : RoundRobin N T := by
  have hle : T ≤ 1440 := (Nat.le_mul_of_pos_right T hN).trans h'
  rw [round_robin_intervals hN hT (by omega)]
  have hspan : spanOf N T = 1440 := by
    rw [spanOf, if_neg (by omega), if_pos h]
  have hcron : cronOf N T = hourCron := by
    rw [cronOf, if_neg (by omega), if_pos h]
  rw [hspan, hcron]
  constructor
  · intro k hk
    have hfits := interval_lt hk
    have hcast : (T : Int) * k = (T * k : Nat) := by simp
    rw [hcast]
    refine ⟨?_, ?_, trivial⟩
    · simp only [hourCron, hourSpan, Field.Valid]
      omega
    · simp only [hourCron, hourSpan, Field.Valid]
      omega
  · have hparts := parts_spaced hT hle (q := 7) (by decide)
    simp only [← hourCron_fires] at hparts
    simpa only [Int.natCast_mul] using hparts

/-! ## The range of days -/

/-- The minute of the week at which the entry for a time fires. -/
def dayFire (t : Nat) : Nat := (t / 1440 * 24 + t % 60) * 60 + t % 60

theorem dayCron_fires (t : Nat) : (dayCron t).fires = [dayFire t] := by
  have hmin : ((t : Int) % hourSpan).toNat = t % 60 := by unfold hourSpan; omega
  have hday : ((t : Int) / daySpan).toNat = t / 1440 := by unfold daySpan hourSpan; omega
  simp only [Cron.fires, dayCron, Field.values, hmin, hday, dayFire, List.map_singleton,
    List.flatMap_singleton]

theorem dayCron_valid {t : Nat} (ht : t < 7 * 24 * 60) : (dayCron t).Valid ↔ t % 60 ≤ 23 := by
  constructor
  · intro h
    have hhour := h.hour
    simp only [dayCron, hourSpan, Field.Valid] at hhour
    omega
  · intro h
    refine ⟨?_, ?_, ?_⟩
    · simp only [dayCron, hourSpan, Field.Valid]
      omega
    · simp only [dayCron, hourSpan, Field.Valid]
      omega
    · simp only [dayCron, daySpan, hourSpan, Field.Valid]
      omega

/-- The week, by the minutes of its intervals. -/
theorem round_robin_days {N T : Nat} (hN : 0 < N) (hT : 0 < T) (hweek : T ≤ 7 * 24 * 60)
    (h : 1440 < T * N) :
    RoundRobin N T ↔ (∀ k < 7 * 24 * 60 / T, T * k % 60 ≤ 23) ∧
      Spaced (7 * 24 * 60) T ((List.range (7 * 24 * 60 / T)).map fun k => dayFire (T * k)) := by
  have hspan : spanOf N T = 7 * 24 * 60 := by rw [spanOf, if_pos h]
  have hcron : cronOf N T = dayCron := by rw [cronOf, if_pos h]
  rw [round_robin_intervals hN hT hweek, hspan, hcron]
  simp only [← Int.natCast_mul, dayCron_fires, ← List.map_eq_flatMap]
  have hvalid : (∀ k < 7 * 24 * 60 / T, (dayCron ((T * k : Nat) : Int)).Valid) ↔
      ∀ k < 7 * 24 * 60 / T, T * k % 60 ≤ 23 := by
    refine forall₂_congr fun k hk => dayCron_valid ?_
    have hfits := interval_lt hk
    omega
  rw [hvalid]

/-- The distance of the fire times when minutes do not carry over. -/
def stride (T : Nat) : Nat := T / 1440 * 1440 + T % 60 * 61

/-- While the minutes stay below 24 and cover the hours, the fire times are a progression. -/
theorem dayFire_stride {T k : Nat} (hh : T % 1440 / 60 ≤ T % 60) (hk : k * (T % 60) ≤ 23) :
    dayFire (T * k) = k * stride T := by
  obtain ⟨d, h, m, hd, hm⟩ : ∃ d h m, T = 1440 * d + 60 * h + m ∧
      T / 1440 = d ∧ T % 1440 / 60 = h ∧ T % 60 = m :=
    ⟨T / 1440, T % 1440 / 60, T % 60, by omega, rfl, rfl, rfl⟩
  obtain ⟨hd', hh', hm'⟩ := hm
  rw [hh', hm'] at hh
  rw [hm'] at hk
  have hmul : T * k = 1440 * (d * k) + 60 * (h * k) + m * k := by
    rw [hd, Nat.add_mul, Nat.add_mul, Nat.mul_assoc, Nat.mul_assoc]
  have hhk : h * k ≤ m * k := Nat.mul_le_mul_right k hh
  rw [Nat.mul_comm] at hk
  have hstride : k * stride T = 1440 * (d * k) + 61 * (m * k) := by
    rw [stride, hd', hm']
    ring
  rw [dayFire, hstride, hmul]
  omega

/-- If the minutes stay below 24, they do not carry over. -/
theorem minutes_bounded {T K : Nat} (h : ∀ k < K, T * k % 60 ≤ 23) :
    ∀ k < K, k * (T % 60) ≤ 23 := by
  intro k
  induction k with
  | zero => intro _; simp
  | succ k ih =>
    intro hk
    have hprev := ih (by omega)
    have hone : T % 60 ≤ 23 := by
      have h₁ := h 1 (by omega)
      rwa [Nat.mul_one] at h₁
    have hmul : T * (k + 1) = 60 * (T / 60 * (k + 1)) + (k + 1) * (T % 60) := by
      conv_lhs => rw [← Nat.div_add_mod T 60]
      ring
    have hnext := h (k + 1) hk
    have hsplit : (k + 1) * (T % 60) = k * (T % 60) + T % 60 := Nat.succ_mul k (T % 60)
    rw [hmul] at hnext
    omega

/-- The first two fire times of the week are an interval apart only if the minutes cover the
hours. -/
theorem hours_covered {T K : Nat} (hK : 2 ≤ K)
    (h : Spaced (7 * 24 * 60) T ((List.range K).map fun k => dayFire (T * k))) :
    T % 1440 / 60 ≤ T % 60 := by
  have hpair := List.pairwise_iff_getElem.mp h.apart 0 1 (by simp; omega) (by simp; omega)
    (by decide)
  simp only [List.getElem_map, List.getElem_range, Nat.mul_zero, Nat.mul_one, dayFire] at hpair
  omega

/-- With the minutes of an interval below 24, a stride is at least one and less than two
intervals. -/
theorem stride_bounds {T : Nat} (hT : 0 < T) (hh : T % 1440 / 60 ≤ T % 60)
    (hm : (7 * 24 * 60 / T - 1) * (T % 60) ≤ 23) (hK : 2 ≤ 7 * 24 * 60 / T) :
    T ≤ stride T ∧ stride T < 2 * T := by
  have hone : T % 60 ≤ 23 := by
    have hle := Nat.mul_le_mul_right (T % 60) (by omega : 1 ≤ 7 * 24 * 60 / T - 1)
    omega
  have hday : 1440 ≤ T := by
    -- a shorter interval has so many fire times that it has no minutes, and then no hours
    by_contra hshort
    have hseven : 7 ≤ 7 * 24 * 60 / T := (Nat.le_div_iff_mul_le hT).mpr (by omega)
    have hfew := Nat.mul_le_mul_right (T % 60) (by omega : 6 ≤ 7 * 24 * 60 / T - 1)
    have hmany : 55 ≤ 7 * 24 * 60 / T := (Nat.le_div_iff_mul_le hT).mpr (by omega)
    have hnone := Nat.mul_le_mul_right (T % 60) (by omega : 54 ≤ 7 * 24 * 60 / T - 1)
    omega
  unfold stride
  omega

/-- Together the hosts rotate at least daily, or once a week, or at intervals of days with no more
hours than minutes, where the minutes stay below 24 and the last fire time leaves an interval of
the week. -/
def EvenlySpread (N T : Nat) : Prop :=
  T * N ≤ 1440 ∨ 5040 < T ∨
    (T % 1440 / 60 ≤ T % 60 ∧ (7 * 24 * 60 / T - 1) * (T % 60) ≤ 23 ∧
      (7 * 24 * 60 / T - 1) * stride T + T ≤ 7 * 24 * 60)

instance (N T : Nat) : Decidable (EvenlySpread N T) := inferInstanceAs (Decidable (_ ∨ _))

/-- Six hours and five hosts: the entries of four consecutive hosts fire at the same minute. -/
theorem hours_lost :
    ¬ ∀ N T : Nat, 1 ≤ N → 1 ≤ T → T ≤ 7 * 24 * 60 → RoundRobin N T := by
  intro h
  have hdays := (round_robin_days (N := 5) (T := 360) (by decide) (by decide) (by decide)
    (by decide)).mp (h 5 360 (by decide) (by decide) (by decide))
  exact absurd (hours_covered (by decide) hdays.2) (by decide)

/-- **Round robin.** For every number of hosts and every interval of at most a week, the entries
of all hosts are valid and evenly spaced exactly if the intervals are `EvenlySpread`. -/
theorem round_robin_iff {N T : Nat} (hN : 1 ≤ N) (hT : 1 ≤ T) (hweek : T ≤ 7 * 24 * 60) :
    RoundRobin N T ↔ EvenlySpread N T := by
  by_cases hday : T * N ≤ 1440
  · have hrobin : RoundRobin N T := by
      by_cases hhour : T * N ≤ 60
      · exact round_robin_minutes hN hT hhour
      · exact round_robin_hours hN hT (by omega) hday
    exact ⟨fun _ => .inl hday, fun _ => hrobin⟩
  obtain ⟨hpos, hlow, hhigh⟩ := quotient_bounds hT hweek
  have hlong : 5040 < T ↔ 7 * 24 * 60 / T < 2 := by
    rw [Nat.div_lt_iff_lt_mul hT]
    omega
  have hprogression : T % 1440 / 60 ≤ T % 60 → (∀ k < 7 * 24 * 60 / T, k * (T % 60) ≤ 23) →
      (List.range (7 * 24 * 60 / T)).map (fun k => dayFire (T * k)) =
        block (7 * 24 * 60 / T) (stride T) 0 := by
    intro hh hm
    apply List.map_congr_left
    intro k hk
    rw [dayFire_stride hh (hm k (List.mem_range.mp hk)), Nat.zero_add]
  rw [round_robin_days hN hT hweek (by omega)]
  constructor
  · rintro ⟨hvalid, hspaced⟩
    refine .inr (or_iff_not_imp_left.mpr fun hshort => ?_)
    have hK : 2 ≤ 7 * 24 * 60 / T := by omega
    have hm := minutes_bounded hvalid
    have hh := hours_covered hK hspaced
    rw [hprogression hh hm, spaced_block_iff hpos] at hspaced
    exact ⟨hh, hm _ (by omega), hspaced.2.1⟩
  · rintro (h | h | ⟨hh, hm, hwrap⟩)
    · exact absurd h hday
    · -- one fire time, at the beginning of the week
      have hone : 7 * 24 * 60 / T = 1 := by omega
      rw [hone]
      refine ⟨fun k hk => ?_, ?_⟩
      · have hzero : k = 0 := by omega
        rw [hzero]
        simp
      · have hblock : (List.range 1).map (fun k => dayFire (T * k)) = block 1 0 0 := by
          simp [block, dayFire]
        rw [hblock, spaced_block_iff Nat.one_pos]
        omega
    · have hall : ∀ k < 7 * 24 * 60 / T, k * (T % 60) ≤ 23 := by
        intro k hk
        exact (Nat.mul_le_mul_right (T % 60) (by omega)).trans hm
      refine ⟨fun k hk => ?_, ?_⟩
      · have hmul : T * k = 60 * (T / 60 * k) + k * (T % 60) := by
          conv_lhs => rw [← Nat.div_add_mod T 60]
          ring
        have hk' := hall k hk
        omega
      · rw [hprogression hh hall, spaced_block_iff hpos]
        have hstride : 2 ≤ 7 * 24 * 60 / T → T ≤ stride T ∧ stride T < 2 * T :=
          stride_bounds hT hh hm
        refine ⟨hstride, hwrap, ?_⟩
        by_cases hK : 2 ≤ 7 * 24 * 60 / T
        · have hle := Nat.mul_le_mul_left (7 * 24 * 60 / T - 1) (hstride hK).1
          omega
        · have hzero : 7 * 24 * 60 / T - 1 = 0 := by omega
          rw [hzero, Nat.zero_mul] at hhigh ⊢
          exact hhigh

/-- Three days and three hosts, the default. -/
theorem round_robin_iff_default : RoundRobin 3 4320 :=
  (round_robin_iff (by decide) (by decide) (by decide)).mpr (by decide)

end Keystone
end KollaPowerOps
