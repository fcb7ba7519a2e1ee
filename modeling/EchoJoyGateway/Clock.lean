import Mathlib.Data.Int.Basic

/-!
# Instants of the Go runtime

A `time.Time` is the instant it denotes, in nanoseconds from the Unix epoch.
The zero value of the type is the first instant of year one, so an unset
deadline lies before every instant the gateway handles.
-/

namespace EchoJoyGateway.Clock

abbrev Time := Int

/-- The zero `time.Time`, 0001-01-01T00:00:00Z. -/
def zeroTime : Time := -62135596800 * 1000000000

def isZero (t : Time) : Bool := t == zeroTime

def after (t u : Time) : Bool := decide (u < t)

def unixMilli (t : Time) : Int := t / 1000000

def ofUnixMilli (ms : Int) : Time := ms * 1000000

theorem unixMilli_ofUnixMilli (ms : Int) : unixMilli (ofUnixMilli ms) = ms := by
  simp [unixMilli, ofUnixMilli]

@[simp] theorem after_iff (t u : Time) : after t u = true ↔ u < t := by
  simp [after]

@[simp] theorem after_eq_false_iff (t u : Time) : after t u = false ↔ t ≤ u := by
  simp [after]

@[simp] theorem isZero_iff (t : Time) : isZero t = true ↔ t = zeroTime := by
  simp [isZero]

end EchoJoyGateway.Clock
