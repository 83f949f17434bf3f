import NamedData.Duration

/-!
# Congestion marks

A packet is marked while the queue in front of the medium is too full, but not again before an
interval has passed.
-/

namespace NamedData

/-- A point of time, in nanoseconds on one clock. The time since a later point is zero. -/
abbrev Instant := Nat

/-- When the last mark was made. -/
structure CongestionMarker where
  lastMark : Option Instant := none
deriving DecidableEq, Repr

namespace CongestionMarker

/-- Whether a packet is marked now. -/
def marks (m : CongestionMarker) (occupancy threshold : UInt64) (interval : Duration)
    (now : Instant) : Bool :=
  threshold < occupancy && m.lastMark.all fun last => interval.nanos ≤ now - last

/-- The decision, and the marker that remembers it. -/
def consult (m : CongestionMarker) (occupancy threshold : UInt64) (interval : Duration)
    (now : Instant) : Bool × CongestionMarker :=
  if m.marks occupancy threshold interval now then (true, ⟨some now⟩) else (false, m)

end CongestionMarker

end NamedData
