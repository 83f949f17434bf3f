import NamedData.Address.Ip
import NamedData.Address.Socket
import NamedData.Link.Options

/-!
# Configuration

The numbers and addresses that a forwarder's faces are set up with, and three sets of them: the
defaults, one for tests and one for small machines.
-/

namespace NamedData

/-- The group that forwarders on an IPv6 link join, unless another is set. -/
def Ipv6.forwarders : Ipv6 :=
  ⟨#v[0xFF02, 0, 0, 0, 0, 0, 0, 0x114]⟩

/-- The configuration of the face layer. -/
structure Config where
  /-- The packets that a face's send queue holds. -/
  queueSize : Nat := 1024
  congestionMarking : Bool := true
  udpPort : UInt16 := 6363
  multicastPort : UInt16 := 56363
  multicastV4 : Ipv4 := ⟨224, 0, 23, 170⟩
  multicastV6 : Ipv6 := .forwarders
  /-- The seconds that an idle UDP face lives. -/
  udpLifetime : UInt64 := 600
  tcpPort : UInt16 := 6363
  /-- The seconds that an idle TCP face lives. -/
  tcpLifetime : UInt64 := 600
  unixPath : String := "/run/nfd.sock"
  webSocketPort : UInt16 := 9696
  forwardingThreads : Nat := 8
  /-- The parcels that a forwarding thread's queues hold. -/
  forwardingQueueSize : Nat := 1024
  /-- The milliseconds that a group of fragments is kept. -/
  reassemblyTimeout : UInt64 := 500
  reassemblyMaxGroups : Nat := 256
  /-- The seconds between two looks for idle faces. -/
  expirationCheck : UInt64 := 10
  /-- The longest wait before a connection is dialled again, in milliseconds. -/
  redialMaxBackoff : UInt64 := 60000
  eventCapacity : Nat := 100
deriving DecidableEq, Repr

namespace Config

/-- Short queues, quick checks and ports that the system chooses. -/
def testing : Config :=
  { queueSize := 64
    forwardingThreads := 4
    forwardingQueueSize := 64
    udpPort := 0
    tcpPort := 0
    webSocketPort := 0
    reassemblyTimeout := 200
    reassemblyMaxGroups := 16
    expirationCheck := 1
    redialMaxBackoff := 1000 }

/-- Few threads and short queues. -/
def lowSpec : Config :=
  { queueSize := 256
    forwardingThreads := 2
    forwardingQueueSize := 256
    reassemblyMaxGroups := 64 }

/-- The options that a face has unless others are asked for. -/
def linkOptions (c : Config) : LinkOptions :=
  { congestionMarking := c.congestionMarking
    reassemblyTimeout := Duration.ofMillis c.reassemblyTimeout.toNat
    reassemblyMaxGroups := c.reassemblyMaxGroups }

/-- The multicast group of an address's family. -/
def multicastGroup (c : Config) : Ip → SocketAddr
  | .v4 _ => .v4 c.multicastV4 c.multicastPort
  | .v6 _ => .v6 c.multicastV6 c.multicastPort 0

end Config

end NamedData
