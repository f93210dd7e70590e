/-
  Elogind.Basic.TimeUtil

  Points in time in microseconds (time-util.c).
-/

import Mathlib.Data.UInt

namespace Elogind

/-- `USEC_INFINITY`, the largest `usec_t`. -/
def usecInfinity : Nat := 2 ^ 64 - 1

/-- `usec_add`: addition that saturates at `USEC_INFINITY`. -/
def usecAdd (a b : Nat) : Nat := if a > usecInfinity - b then usecInfinity else a + b

/-- `usec_sub_unsigned` -/
def usecSubUnsigned (timestamp delta : Nat) : Nat := if timestamp = usecInfinity then usecInfinity else timestamp - delta

/-- `timestamp_is_set` -/
def timestampIsSet (usec : Nat) : Bool := 0 < usec && usec != 2 ^ 64 - 1

/-- `dual_timestamp` -/
structure DualTimestamp where
  realtime : Nat
  monotonic : Nat
  deriving DecidableEq, Repr

/-- `DUAL_TIMESTAMP_NULL` -/
def DualTimestamp.null : DualTimestamp := ⟨0, 0⟩

/-- `map_clock_usec_raw` -/
def mapClockUsecRaw (t fromBase toBase : Nat) : Nat :=
  if t ≥ fromBase then
    if toBase ≥ usecInfinity - (t - fromBase) then usecInfinity else toBase + (t - fromBase)
  else if toBase ≤ fromBase - t then 0
  else toBase - (fromBase - t)

end Elogind
