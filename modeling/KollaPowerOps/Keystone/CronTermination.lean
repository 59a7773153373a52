import KollaPowerOps.Keystone.FernetCron

/-!
# Keystone.CronTermination

For which arguments `fernet_rotate_cron_generator` ends.

* `loop_ends_iff` : a loop ends if its step is positive, or before its first pass.
* `ends_iff`      : the generator ends, with a list or with `RotationIntervalTooLong`.
-/

namespace KollaPowerOps
namespace Keystone

/-- With some fuel the generator has a result. -/
def Ends (hostIndex totalHosts totalRotationMins : Int) : Prop :=
  ∃ fuel r, generate fuel hostIndex totalHosts totalRotationMins = some r

section Loop

variable {span T H : Int} {entry : Int → Cron}

/-- A positive step brings the time past the end of the span. -/
theorem loop_ends (hH : 0 < H) (d : Nat) :
    ∀ time : Int, span - T - time < d → ∃ crons, cronsFrom span entry T H (d + 1) time = some crons := by
  induction d with
  | zero =>
    intro time hd
    have hover : ¬ time + T ≤ span := by omega
    exact ⟨[], by rw [cronsFrom, if_neg hover]⟩
  | succ d ih =>
    intro time hd
    rw [cronsFrom]
    split
    · obtain ⟨crons, hcrons⟩ := ih (time + H) (by omega)
      rw [hcrons]
      exact ⟨_, rfl⟩
    · exact ⟨[], rfl⟩

/-- Another step comes no nearer to the end. -/
theorem loop_runs_on (hH : H ≤ 0) (fuel : Nat) :
    ∀ time : Int, time + T ≤ span → cronsFrom span entry T H fuel time = none := by
  induction fuel with
  | zero => exact fun _ _ => rfl
  | succ fuel ih =>
    intro time hle
    have hnext : time + H + T ≤ span := by omega
    rw [cronsFrom, if_pos hle, ih _ hnext]
    rfl

theorem loop_ends_iff {time : Int} :
    (∃ fuel crons, cronsFrom span entry T H fuel time = some crons) ↔ 0 < H ∨ span < time + T := by
  constructor
  · rintro ⟨fuel, crons, h⟩
    by_contra hnot
    push Not at hnot
    rw [loop_runs_on hnot.1 fuel time hnot.2] at h
    cases h
  · rintro (hH | hover)
    · exact ⟨_, loop_ends hH ((span - T - time).toNat + 1) time (by omega)⟩
    · exact ⟨1, [], by rw [cronsFrom, if_neg (by omega)]⟩

end Loop

/-- **The generator ends exactly if** the host is not one of the group, the interval is over a week,
the cycle of the group takes a positive time, or not even one rotation fits in an hour. -/
theorem ends_iff (hostIndex totalHosts totalRotationMins : Int) :
    Ends hostIndex totalHosts totalRotationMins ↔
      totalHosts ≤ hostIndex ∨ weekSpan < totalRotationMins ∨ 0 < totalRotationMins * totalHosts ∨
        hourSpan < totalRotationMins * hostIndex + totalRotationMins := by
  have hmap : ∀ (span : Int) (entry : Int → Cron), (∃ fuel r, (cronsFrom span entry totalRotationMins
      (totalRotationMins * totalHosts) fuel (totalRotationMins * hostIndex)).map
        (Except.ok : List Cron → Except RotationIntervalTooLong (List Cron)) = some r) ↔
      0 < totalRotationMins * totalHosts ∨
        span < totalRotationMins * hostIndex + totalRotationMins := by
    intro span entry
    rw [← @loop_ends_iff span totalRotationMins (totalRotationMins * totalHosts) entry]
    constructor
    · rintro ⟨fuel, r, h⟩
      obtain ⟨crons, hcrons, _⟩ := Option.map_eq_some_iff.mp h
      exact ⟨fuel, crons, hcrons⟩
    · rintro ⟨fuel, crons, h⟩
      exact ⟨fuel, .ok crons, by rw [h]; rfl⟩
  unfold Ends generate
  by_cases hindex : hostIndex ≥ totalHosts
  · simp only [if_pos hindex]
    exact ⟨fun _ => .inl hindex, fun _ => ⟨0, _, rfl⟩⟩
  by_cases hlong : totalRotationMins > weekSpan
  · simp only [if_neg hindex, if_pos hlong]
    exact ⟨fun _ => .inr (.inl hlong), fun _ => ⟨0, _, rfl⟩⟩
  by_cases hday : totalRotationMins * totalHosts > daySpan
  · have hpos : 0 < totalRotationMins * totalHosts := by unfold daySpan hourSpan at hday; omega
    simp only [if_neg hindex, if_neg hlong, if_pos hday]
    exact ⟨fun _ => .inr (.inr (.inl hpos)), fun _ => (hmap _ _).mpr (.inl hpos)⟩
  by_cases hhour : totalRotationMins * totalHosts > hourSpan
  · have hpos : 0 < totalRotationMins * totalHosts := by unfold hourSpan at hhour; omega
    simp only [if_neg hindex, if_neg hlong, if_neg hday, if_pos hhour]
    exact ⟨fun _ => .inr (.inr (.inl hpos)), fun _ => (hmap _ _).mpr (.inl hpos)⟩
  · simp only [if_neg hindex, if_neg hlong, if_neg hday, if_neg hhour]
    refine (hmap _ _).trans ⟨fun h => .inr (.inr h), ?_⟩
    rintro (h | h | h)
    · exact absurd h hindex
    · exact absurd h hlong
    · exact h

/-- An interval of less than a minute. -/
theorem zero_interval_never_ends : ¬ ∀ hostIndex totalHosts totalRotationMins : Int,
    Ends hostIndex totalHosts totalRotationMins := by
  intro h
  obtain ⟨fuel, r, hr⟩ := h 0 1 0
  have hnone : cronsFrom hourSpan minuteCron 0 0 fuel 0 = none :=
    loop_runs_on (Int.le_refl 0) fuel 0 (by decide)
  have hgenerate : generate fuel 0 1 0 = none := by
    change (cronsFrom hourSpan minuteCron 0 0 fuel 0).map _ = none
    rw [hnone]
    rfl
  rw [hgenerate] at hr
  cases hr

end Keystone
end KollaPowerOps
