/-
# Deadlines

The timed waits of `TakeFor` and `AwaitTermination`: a wait of so many milliseconds ends at a
deadline in nanoseconds on a steady clock.  Both the count of milliseconds and the deadline are
signed words of 64 bits, and the arithmetic on them wraps.
-/
namespace Intake

/-- Nanoseconds in a millisecond. -/
def nanosPerMilli : Int64 := 1000000

/-- When a wait that starts now ends. -/
def deadline (now : Int64) (ms : UInt64) : Int64 := now + ms.toInt64 * nanosPerMilli

/-- True when a wait is over as soon as it starts. -/
def expiresAtOnce (now : Int64) (ms : UInt64) : Bool := deadline now ms ≤ now

end Intake
