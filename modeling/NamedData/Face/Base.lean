import NamedData.Face.StopSignal
import NamedData.FaceUri
import NamedData.Link.Congestion

/-!
# What all faces have

The two ends of a face, its properties, its state, and the bytes that went through it.
-/

namespace NamedData

/-- The part of a face that does not depend on its medium. -/
structure FaceBase where
  /-- What the medium is called. -/
  kind : String
  remote : FaceUri
  localUri : FaceUri
  persistency : Persistency
  scope : Scope
  linkType : LinkType
  mtu : Nat
  state : FaceState := .up
  /-- How long an on-demand face may be idle. -/
  lifetime : Option Duration := none
  expiration : Option Instant := none
  /-- The ID that the face table gave it. -/
  id? : Option UInt64 := none
  inBytes : UInt64 := 0
  outBytes : UInt64 := 0
  stop : StopSignal := {}
deriving DecidableEq, Repr

namespace FaceBase

/-- Both ends must be canonical. -/
def create (kind : String) (remote localUri : FaceUri) (persistency : Persistency) (scope : Scope)
    (linkType : LinkType) (mtu : Nat) : Except Error FaceBase :=
  if !remote.canonical then .error (.nonCanonicalUri remote.toText)
  else if !localUri.canonical then .error (.nonCanonicalUri localUri.toText)
  else .ok { kind, remote, localUri, persistency, scope, linkType, mtu }

/-- The ID, which is zero while the face was in no table. -/
def id (b : FaceBase) : UInt64 :=
  b.id?.getD 0

/-- Puts the end of an idle face a lifetime from now. -/
def refresh (b : FaceBase) (now : Instant) : FaceBase :=
  match b.lifetime with
  | some lifetime => { b with expiration := some (now + lifetime.nanos) }
  | none => b

def withLifetime (b : FaceBase) (lifetime : Duration) (now : Instant) : FaceBase :=
  { b with lifetime := some lifetime }.refresh now

def recordIn (b : FaceBase) (n : Nat) (now : Instant) : FaceBase :=
  { b with inBytes := b.inBytes + UInt64.ofNat n }.refresh now

def recordOut (b : FaceBase) (n : Nat) (now : Instant) : FaceBase :=
  { b with outBytes := b.outBytes + UInt64.ofNat n }.refresh now

/-- Whether an on-demand face has been idle for its lifetime. -/
def isExpired (b : FaceBase) (now : Instant) : Bool :=
  b.persistency == .onDemand && b.expiration.any (· ≤ now)

/-- The nanoseconds until an on-demand face expires. -/
def expirationPeriod (b : FaceBase) (now : Instant) : Nat :=
  if b.persistency = .onDemand then b.expiration.getD 0 - now else 0

def toText (b : FaceBase) : String :=
  s!"{b.kind}, FaceID={b.id}, RemoteURI={b.remote.toText}, LocalURI={b.localUri.toText}"

end FaceBase

end NamedData
