import NamedData.Address.Literal
import NamedData.Config.Basic
import NamedData.Error
import NamedData.Toml.Document

/-!
# Configuration files

Settings that a document leaves out keep their defaults, keys that mean nothing here are skipped,
and a value of the wrong kind or size spoils the whole document.
-/

namespace NamedData

open Toml

namespace Config

/-- How one setting is read: the value, if it has the right kind and fits. -/
abbrev Setting (α : Type) := Item → Option α

def natural (limit : Nat) : Setting Nat
  | .integer n => if 0 ≤ n ∧ n.toNat ≤ limit then some n.toNat else none
  | _ => none

def size : Setting Nat :=
  natural 0xFFFFFFFFFFFFFFFF

def number64 : Setting UInt64 := fun item =>
  (natural 0xFFFFFFFFFFFFFFFF item).map UInt64.ofNat

def port : Setting UInt16 := fun item =>
  (natural 0xFFFF item).map UInt16.ofNat

def switch : Setting Bool
  | .boolean b => some b
  | _ => none

def text : Setting String
  | .string s => some s
  | _ => none

def addressV4 : Setting Ipv4 := fun item =>
  (text item).bind fun s => Ipv4.parse? s.toList

def addressV6 : Setting Ipv6 := fun item =>
  (text item).bind fun s => Ipv6.parse? s.toList

/-- The value of a key, or the default when the document does not have the key. -/
def setting {α : Type} (es : Entries) (key : String) (read : Setting α) (default : α) : Option α :=
  match es.get? key.toList with
  | none => some default
  | some item => read item

def ofEntries? (es : Entries) : Option Config := do
  let base : Config := {}
  return {
    queueSize := ← setting es "queue_size" size base.queueSize
    congestionMarking := ← setting es "congestion_marking" switch base.congestionMarking
    udpPort := ← setting es "udp_unicast_port" port base.udpPort
    multicastPort := ← setting es "udp_multicast_port" port base.multicastPort
    multicastV4 := ← setting es "udp_multicast_address_ipv4" addressV4 base.multicastV4
    multicastV6 := ← setting es "udp_multicast_address_ipv6" addressV6 base.multicastV6
    udpLifetime := ← setting es "udp_lifetime_secs" number64 base.udpLifetime
    tcpPort := ← setting es "tcp_unicast_port" port base.tcpPort
    tcpLifetime := ← setting es "tcp_lifetime_secs" number64 base.tcpLifetime
    unixPath := ← setting es "unix_socket_path" text base.unixPath
    webSocketPort := ← setting es "websocket_port" port base.webSocketPort
    forwardingThreads := ← setting es "num_fw_threads" size base.forwardingThreads
    forwardingQueueSize := ← setting es "fw_queue_size" size base.forwardingQueueSize
    reassemblyTimeout := ← setting es "reassembly_timeout_ms" number64 base.reassemblyTimeout
    reassemblyMaxGroups := ← setting es "reassembly_max_groups" size base.reassemblyMaxGroups
    expirationCheck := ← setting es "expiration_check_secs" number64 base.expirationCheck
    redialMaxBackoff := ← setting es "redial_max_backoff_ms" number64 base.redialMaxBackoff
    eventCapacity := ← setting es "face_event_capacity" size base.eventCapacity }

/-- Reads a configuration text. -/
def parse (text : List Char) : Except Error Config :=
  match (Toml.parse? text).bind ofEntries? with
  | some c => .ok c
  | none => .error .config

/-- Reads the bytes of a configuration file, which must be UTF-8; `none` is a file that cannot be
read. -/
def ofFile (content : Option ByteArray) : Except Error Config :=
  match content.bind String.fromUTF8? with
  | some text => parse text.toList
  | none => .error .io

end Config

end NamedData
