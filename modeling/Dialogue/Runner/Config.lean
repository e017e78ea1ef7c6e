/-!
# Settings

What a host may set for a runner: two limits, both with a usual value.
-/

namespace Dialogue

/-- The settings of a runner: how many steps one call may take before it has to stop, and how many
events are kept for a host that collects them. -/
structure Config where
  stepLimit : UInt64 := 10000
  backlogLimit : UInt64 := 1024
  deriving DecidableEq, Repr

/-- The settings of a runner for which none are given. -/
def Config.usual : Config := {}

end Dialogue
