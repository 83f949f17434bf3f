import NamedData.Channel
import NamedData.Face.Property
import NamedData.Name.Hash
import NamedData.Packet.Parcel

/-!
# Dispatching to forwarding threads

An Interest goes to the thread of its name. Data with a PIT token goes to the thread that the token
names; without one, Data from a local face goes to the threads of all its nonempty prefixes and
other Data to the thread of its name. Names under `/localhost` belong to thread 0. A full queue
drops what it is offered.
-/

namespace NamedData

/-- The queues of one forwarding thread. -/
structure ThreadQueues where
  interests : Channel Parcel
  data : Channel Parcel
deriving DecidableEq, Repr

namespace ThreadQueues

def empty (queueSize : Nat) : ThreadQueues :=
  ⟨.empty queueSize, .empty queueSize⟩

/-- Appends a parcel to the queue of its kind. -/
def push (q : ThreadQueues) (p : Parcel) : Except Error ThreadQueues :=
  if p.packet.isInterest then do
    return { q with interests := ← q.interests.send p }
  else do
    return { q with data := ← q.data.send p }

def isOpen (q : ThreadQueues) : Bool :=
  q.interests.hasReceiver && q.data.hasReceiver

/-- The thread goes away, and with it all that waits. -/
def close (q : ThreadQueues) : ThreadQueues :=
  ⟨q.interests.dropReceiver, q.data.dropReceiver⟩

/-- What a thread takes when it empties its queues. -/
def drain (q : ThreadQueues) : ThreadQueues :=
  ⟨q.interests.drain.2, q.data.drain.2⟩

end ThreadQueues

/-- The queues of all forwarding threads. -/
structure Dispatcher where
  threads : List ThreadQueues
deriving DecidableEq, Repr

namespace Dispatcher

/-- There is at least one thread. -/
def create (threads queueSize : Nat) : Dispatcher :=
  ⟨List.replicate (max threads 1) (.empty queueSize)⟩

def size (d : Dispatcher) : Nat :=
  d.threads.length

/-- The thread of a hash value. -/
def threadOf (d : Dispatcher) (hash : UInt64) : Nat :=
  hash.toNat % d.size

def threadForName (d : Dispatcher) (n : Name) : Nat :=
  if n.isLocalhost then 0 else d.threadOf n.hash

/-- The threads of the nonempty prefixes, sorted, with each of them once. -/
def threadsForPrefixes (d : Dispatcher) (n : Name) : List Nat :=
  if n.isLocalhost then [0]
  else ((n.prefixHashes.drop 1).map d.threadOf).mergeSort.eraseReps

/-- The threads that a Data packet with a token is offered to: the one named, if there is one. -/
def threadsForToken (d : Dispatcher) (token : Bytes) : List Nat :=
  match PitToken.thread? token with
  | some t => if t.toNat < d.size then [t.toNat] else []
  | none => []

/-- The threads that a parcel is offered to. -/
def targets (d : Dispatcher) (p : Parcel) (scope : Scope) : List Nat :=
  match p.packet with
  | .interest i => [d.threadForName i.name]
  | .data data =>
    match p.pitToken.getD [] with
    | [] =>
      if scope = .isLocal then d.threadsForPrefixes data.name else [d.threadForName data.name]
    | token => d.threadsForToken token

/-- Appends a parcel to a queue of a thread. -/
def queue (d : Dispatcher) (thread : Nat) (p : Parcel) : Except Error Dispatcher :=
  match d.threads[thread]? with
  | none => .error (.invalidThread thread)
  | some q => do
    return ⟨d.threads.set thread (← q.push p)⟩

/-- Offers a parcel to a thread, which drops it when its queue is full or it is gone. -/
def offer (d : Dispatcher) (p : Parcel) (thread : Nat) : Dispatcher :=
  (d.queue thread p).toOption.getD d

/-- Offers a parcel that came in by a face of this scope to its threads. -/
def dispatch (d : Dispatcher) (p : Parcel) (scope : Scope) : Dispatcher :=
  (d.targets p scope).foldl (fun d thread => d.offer p thread) d

def close (d : Dispatcher) (thread : Nat) : Dispatcher :=
  ⟨d.threads.modify thread ThreadQueues.close⟩

/-- The dispatcher after every thread has emptied its queues. -/
def drain (d : Dispatcher) : Dispatcher :=
  ⟨d.threads.map ThreadQueues.drain⟩

end Dispatcher

end NamedData
