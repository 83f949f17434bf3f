/-!
# Durations

Spans of time in nanoseconds. The largest is one nanosecond short of 2⁶⁴ seconds, and sums and
multiples that would be larger stay there.
-/

namespace NamedData

/-- The nanoseconds of the largest span. -/
def Duration.maxNanos : Nat := 0xFFFFFFFFFFFFFFFF * 1000000000 + 999999999

/-- A span of time. -/
structure Duration where
  nanos : Nat
  le_max : nanos ≤ Duration.maxNanos
deriving DecidableEq, Repr

namespace Duration

/-- The span of that many nanoseconds, or the largest. -/
def saturating (n : Nat) : Duration :=
  ⟨min n maxNanos, Nat.min_le_right n maxNanos⟩

def zero : Duration := saturating 0

def largest : Duration := saturating maxNanos

def ofSecs (s : Nat) : Duration :=
  saturating (s * 1000000000)

def ofMillis (ms : Nat) : Duration :=
  saturating (ms * 1000000)

def ofSecsNanos (s n : Nat) : Duration :=
  saturating (s * 1000000000 + n)

/-- Whole milliseconds, modulo 2⁶⁴. -/
def millis (d : Duration) : UInt64 :=
  UInt64.ofNat (d.nanos / 1000000)

/-- Whole seconds. -/
def secs (d : Duration) : Nat :=
  d.nanos / 1000000000

/-- The nanoseconds beyond the whole seconds. -/
def subsecNanos (d : Duration) : Nat :=
  d.nanos % 1000000000

/-- Twice the span, or the largest. -/
def double (d : Duration) : Duration :=
  saturating (2 * d.nanos)

def atMost (d limit : Duration) : Duration :=
  if limit.nanos < d.nanos then limit else d

end Duration

end NamedData
