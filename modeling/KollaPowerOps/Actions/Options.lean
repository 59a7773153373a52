/-!
# Actions.Options

The integers of the option group `powerops`, with the minima they are declared with. None of them
has a maximum.
-/

namespace KollaPowerOps
namespace Actions

structure Options where
  lockTtl : Int := 900
  drainTimeout : Int := 600
  powerTimeout : Int := 180
  pollInterval : Int := 5
  stableObservations : Int := 3
  lockTtl_min : 60 ≤ lockTtl := by decide
  drainTimeout_min : 30 ≤ drainTimeout := by decide
  powerTimeout_min : 30 ≤ powerTimeout := by decide
  pollInterval_min : 1 ≤ pollInterval := by decide
  stableObservations_min : 2 ≤ stableObservations := by decide

theorem powerTimeout_declared : (30 : Int) ≤ 180 := by decide

theorem pollInterval_declared : (1 : Int) ≤ 5 := by decide

/-- As they are declared. -/
def Options.declared : Options where
  powerTimeout_min := powerTimeout_declared
  pollInterval_min := pollInterval_declared

end Actions
end KollaPowerOps
