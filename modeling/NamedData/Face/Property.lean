/-!
# Face properties

What a face says about itself, with the words and numbers of the management protocol.
-/

namespace NamedData

/-- How long a face lives. -/
inductive Persistency where
  /-- Until it fails. -/
  | persistent
  /-- Until it has been idle for its lifetime. -/
  | onDemand
  /-- Through failures. -/
  | permanent
deriving DecidableEq, Repr

namespace Persistency

def code : Persistency → UInt64
  | persistent => 0
  | onDemand => 1
  | permanent => 2

def ofCode? (code : UInt64) : Option Persistency :=
  [persistent, onDemand, permanent].find? fun p => p.code == code

def toText : Persistency → String
  | persistent => "persistent"
  | onDemand => "on-demand"
  | permanent => "permanent"

end Persistency

/-- Whether a face may carry packets. -/
inductive FaceState where
  | up
  | down
  | adminDown
deriving DecidableEq, Repr

namespace FaceState

def toText : FaceState → String
  | up => "Up"
  | down => "Down"
  | adminDown => "AdminDown"

/-- The state after a request; a face that has left `up` never returns to it. -/
def next? (current target : FaceState) : Option FaceState :=
  if current = target ∨ target = up then none else some target

end FaceState

/-- One thing that follows from a change of state. -/
inductive StateConsequence where
  | enter (state : FaceState)
  | announce (state : FaceState)
  /-- All that runs for the face ends. -/
  | stop
  /-- The medium is closed. -/
  | close
  /-- The face leaves the table. -/
  | remove
deriving DecidableEq, Repr

namespace FaceState

/-- What follows from a request, in order. -/
def consequences (current target : FaceState) : List StateConsequence :=
  match current.next? target with
  | none => []
  | some state =>
    [.enter state, .announce state] ++ if current = up then [.stop, .close, .remove] else []

end FaceState

/-- Whether the other end is on this machine. -/
inductive Scope where
  | nonLocal
  | isLocal
  | unknown
deriving DecidableEq, Repr

namespace Scope

def code : Scope → UInt64
  | nonLocal => 0
  | isLocal => 1
  | unknown => 255

def toText : Scope → String
  | nonLocal => "non-local"
  | isLocal => "local"
  | unknown => "unknown"

end Scope

/-- How many neighbours a face reaches. -/
inductive LinkType where
  | pointToPoint
  | multiAccess
  | adHoc
deriving DecidableEq, Repr

namespace LinkType

def code : LinkType → UInt64
  | pointToPoint => 0
  | multiAccess => 1
  | adHoc => 2

def toText : LinkType → String
  | pointToPoint => "point-to-point"
  | multiAccess => "multi-access"
  | adHoc => "ad-hoc"

end LinkType

end NamedData
