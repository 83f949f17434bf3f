import NamedData.Duration

/-!
# Link options

What a link service does with fragments, local fields and congestion, and the flag bits by which
management switches them.
-/

namespace NamedData

/-- The options of a link service. -/
structure LinkOptions where
  fragmentation : Bool := true
  reassembly : Bool := true
  /-- Incoming packets may choose their next hop. -/
  consumerControlledForwarding : Bool := false
  /-- Outgoing packets name the face they came in by. -/
  incomingFaceIndication : Bool := false
  /-- Cache policies are sent and honoured. -/
  localCachePolicy : Bool := false
  congestionMarking : Bool := true
  /-- The least time between two marks. -/
  congestionInterval : Duration := Duration.ofMillis 100
  /-- The occupancy, in bytes, above which packets are marked. -/
  congestionThreshold : UInt64 := 65536
  reassemblyTimeout : Duration := Duration.ofMillis 500
  reassemblyMaxGroups : Nat := 256
deriving DecidableEq, Repr

namespace LinkOptions

/-- The flag of the three local options together. -/
def localFieldsFlag : UInt64 := 1

def congestionMarkingFlag : UInt64 := 4

def flags (o : LinkOptions) : UInt64 :=
  (if o.consumerControlledForwarding then localFieldsFlag else 0)
    ||| (if o.congestionMarking then congestionMarkingFlag else 0)

def withLocalFields (o : LinkOptions) (on : Bool) : LinkOptions :=
  { o with
    consumerControlledForwarding := on
    incomingFaceIndication := on
    localCachePolicy := on }

/-- Sets the options whose bits are in the mask. -/
def applyFlags (o : LinkOptions) (flags mask : UInt64) : LinkOptions :=
  let o := if mask &&& localFieldsFlag = 0 then o
    else o.withLocalFields (flags &&& localFieldsFlag ≠ 0)
  if mask &&& congestionMarkingFlag = 0 then o
  else { o with congestionMarking := flags &&& congestionMarkingFlag ≠ 0 }

/-- The options of a face between the forwarder and one of its own components. -/
def internal : LinkOptions :=
  { consumerControlledForwarding := true, incomingFaceIndication := true }

end LinkOptions

end NamedData
