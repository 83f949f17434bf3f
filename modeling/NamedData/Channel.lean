import NamedData.Error

/-!
# Bounded channels

A queue between two ends, each of which may go away. Sending never waits here: it fails when the
queue is full or the receiver is gone.
-/

namespace NamedData

/-- The items that wait, and which ends are still there. -/
structure Channel (α : Type) where
  items : List α
  capacity : Nat
  hasReceiver : Bool
  hasSender : Bool
deriving DecidableEq, Repr

/-- What a receiver finds. -/
inductive Received (α : Type) where
  | item (a : α)
  /-- Nothing waits, but the sender is still there. -/
  | pending
  | closed
deriving DecidableEq, Repr

namespace Channel

variable {α : Type}

def empty (capacity : Nat) : Channel α :=
  ⟨[], capacity, true, true⟩

def send (c : Channel α) (a : α) : Except Error (Channel α) :=
  if !c.hasReceiver then .error .connectionClosed
  else if c.capacity ≤ c.items.length then .error .queueFull
  else .ok { c with items := c.items ++ [a] }

def receive (c : Channel α) : Received α × Channel α :=
  match c.items with
  | a :: rest => (.item a, { c with items := rest })
  | [] => (if c.hasSender then .pending else .closed, c)

/-- Takes all items that wait. -/
def drain (c : Channel α) : List α × Channel α :=
  (c.items, { c with items := [] })

/-- What waits for a receiver that goes away is lost. -/
def dropReceiver (c : Channel α) : Channel α :=
  { c with items := [], hasReceiver := false }

def dropSender (c : Channel α) : Channel α :=
  { c with hasSender := false }

end Channel

end NamedData
