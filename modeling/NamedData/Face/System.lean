import NamedData.Face.Basic
import NamedData.Forwarding.Dispatcher
import NamedData.Transport.Remote

/-!
# The face system

All faces of a forwarder with the table that gives them IDs, the registry by which forwarding
threads find them, the event log and the dispatcher. Faces are numbered in the order in which they
were made; a number says which face is meant, whether or not the face is in the table.

Adding and removing a face are three steps each, and a change of state is a list of consequences:
a face that leaves the state `up` is stopped, closed and then removed. Watches for expiry are
checked in the order in which they began.
-/

namespace NamedData

/-- The number of a face in the order of making. -/
abbrev FaceKey := Nat

/-- The time that frames and marks are stamped with, and the seconds by which timers run. -/
structure Clock where
  now : Instant := 0
  timer : Nat := 0
deriving DecidableEq, Repr

/-- A watch for the expiry of a face, and when it began by the timer clock. -/
structure ExpiryWatch where
  key : FaceKey
  since : Nat
deriving DecidableEq, Repr

/-- A face system. -/
structure FaceSystem where
  config : Config
  faces : List Face := []
  /-- The watches in the order in which they began, which is the order of their checks. -/
  watches : List ExpiryWatch := []
  table : List (UInt64 × FaceKey) := []
  nextId : UInt64 := 1
  registry : List (UInt64 × FaceKey) := []
  log : EventLog
  dispatcher : Dispatcher
  clock : Clock := {}
deriving DecidableEq, Repr

namespace FaceSystem

def create (config : Config) : FaceSystem where
  config := config
  log := .empty config.eventCapacity
  dispatcher := .create config.forwardingThreads config.forwardingQueueSize

/-! ## Faces by number -/

def face? (s : FaceSystem) (key : FaceKey) : Option Face :=
  s.faces[key]?

def modifyFace (s : FaceSystem) (key : FaceKey) (f : Face → Face) : FaceSystem :=
  { s with faces := s.faces.modify key f }

/-- Takes in a face that was made, without adding it to the table. -/
def adopt (s : FaceSystem) (f : Face) : FaceKey × FaceSystem :=
  (s.faces.length, { s with faces := s.faces ++ [f] })

/-! ## Looking faces up -/

def size (s : FaceSystem) : Nat :=
  s.table.length

def isEmpty (s : FaceSystem) : Bool :=
  s.table.isEmpty

/-- The IDs in the table. -/
def ids (s : FaceSystem) : List UInt64 :=
  s.table.map (·.1)

def keyOf? (s : FaceSystem) (id : UInt64) : Option FaceKey :=
  s.table.lookup id

/-- The face that the table has for an ID. -/
def get? (s : FaceSystem) (id : UInt64) : Option Face :=
  (s.keyOf? id).bind s.face?

/-- The face that forwarding threads find for an ID. -/
def registered? (s : FaceSystem) (id : UInt64) : Option Face :=
  (s.registry.lookup id).bind s.face?

/-- A face in the table whose remote end is this one. -/
def find? (s : FaceSystem) (remote : FaceUri) : Option Face :=
  (s.table.filterMap fun entry => s.face? entry.2).find? fun f => f.base.remote == remote

/-! ## Adding a face -/

/-- The first ID from `next` on, around the end, that is neither zero nor taken. -/
def freeId? (next : UInt64) (taken : List UInt64) : Option UInt64 :=
  ((List.range (taken.length + 2)).map fun i => next + UInt64.ofNat i).find?
    fun id => id != 0 && !taken.contains id

/-- Records an event of a face. -/
def emit (s : FaceSystem) (kind : FaceEventKind) (f : Face) : FaceSystem :=
  { s with log := s.log.emit kind f.summary }

/-- First step of adding: the face gets a free ID, once in its life, and stands in the table. -/
def bind (s : FaceSystem) (key : FaceKey) (unique : Bool) : Except Error (UInt64 × FaceSystem) :=
  match s.face? key with
  | none => .error (.faceNotFound 0)
  | some f =>
    match if unique then s.find? f.base.remote else none with
    | some existing => .error (.faceExists existing.id)
    | none =>
      match f.base.id?, freeId? s.nextId s.ids with
      | some id, _ => .error (.alreadyRegistered id)
      | none, none => .error .queueFull
      | none, some id =>
        .ok (id, { s.modifyFace key fun f => { f with base := { f.base with id? := some id } } with
          table := s.table ++ [(id, key)]
          nextId := id + 1 })

/-- Second step of adding: forwarding threads can find the face. -/
def register (s : FaceSystem) (id : UInt64) (key : FaceKey) : FaceSystem :=
  { s with registry := s.registry.filter (·.1 != id) ++ [(id, key)] }

/-- Last step of adding: the event. -/
def announce (s : FaceSystem) (kind : FaceEventKind) (key : FaceKey) : FaceSystem :=
  match s.face? key with
  | some f => s.emit kind f
  | none => s

/-- Adds a face to the table; with `unique`, only if no face there has its remote end. -/
def add (s : FaceSystem) (key : FaceKey) (unique : Bool) : Except Error (UInt64 × FaceSystem) := do
  let (id, s) ← s.bind key unique
  return (id, (s.register id key).announce .created key)

/-! ## Removing a face -/

/-- First step of removing: the table has the ID no more. -/
def unbind? (s : FaceSystem) (id : UInt64) : Option (FaceKey × FaceSystem) :=
  (s.keyOf? id).map fun key => (key, { s with table := s.table.filter (·.1 != id) })

/-- Second step of removing: forwarding threads find the face no more. -/
def unregister (s : FaceSystem) (id : UInt64) : FaceSystem :=
  { s with registry := s.registry.filter (·.1 != id) }

/-- Removes an ID, if it is in the table, and says which face it was. -/
def remove (s : FaceSystem) (id : UInt64) : Option FaceKey × FaceSystem :=
  match s.unbind? id with
  | none => (none, s)
  | some (key, s) => (some key, (s.unregister id).announce .destroyed key)

/-! ## Changing the state of a face -/

/-- The ID that a face got from the table, whether or not it is still there. -/
def boundId? (s : FaceSystem) (key : FaceKey) : Option UInt64 :=
  (s.face? key).bind fun f => f.base.id?

/-- Carries out one consequence of a change of state. A new state is announced only while the
face's ID is in the table. -/
def carryOut (key : FaceKey) (s : FaceSystem) : StateConsequence → FaceSystem
  | .enter state => s.modifyFace key fun f => { f with base := { f.base with state } }
  | .announce state =>
    match (s.boundId? key).bind s.get? with
    | some f => s.emit (if state = .up then .up else .down) f
    | none => s
  | .stop => s.modifyFace key Face.signalStop
  | .close => s.modifyFace key Face.close
  | .remove =>
    match s.boundId? key with
    | some id => (s.remove id).2
    | none => s

/-- The medium of a face goes to a state, with all that follows from it. -/
def transition (s : FaceSystem) (key : FaceKey) (target : FaceState) : FaceSystem :=
  match s.face? key with
  | none => s
  | some f => (f.base.state.consequences target).foldl (carryOut key) s

/-- Moves a face to a state. The service sees the request before the medium does; a medium that
fails goes down by itself. -/
def changeState (s : FaceSystem) (key : FaceKey) (target : FaceState) : FaceSystem :=
  (s.modifyFace key fun f => f.requestState target).transition key target

/-- Takes a face down for good. -/
def destroy (s : FaceSystem) (id : UInt64) : Except Error FaceSystem :=
  match s.keyOf? id with
  | none => .error (.faceNotFound id)
  | some key => .ok (s.changeState key .adminDown)

/-- Takes all faces of the table down. -/
def closeAll (s : FaceSystem) : FaceSystem :=
  (s.table.map (·.2)).foldl (fun s key => s.changeState key .adminDown) s

/-! ## Starting faces -/

/-- Starts a face. A watch for its expiry begins with its tasks. -/
def start (s : FaceSystem) (key : FaceKey) : FaceSystem :=
  let begun := if (s.face? key).any Face.canStartTasks then [⟨key, s.clock.timer⟩] else []
  { s.modifyFace key Face.start with watches := s.watches ++ begun }

/-- Adds a face and starts it. -/
def addFace (s : FaceSystem) (key : FaceKey) : Except Error (UInt64 × FaceSystem) := do
  let (id, s) ← s.add key false
  return (id, s.start key)

/-- Makes, adds and starts a face to a component of the forwarder. -/
def registerComponent (s : FaceSystem) : Except Error (UInt64 × FaceSystem) :=
  let (key, s) := s.adopt (.component s.config.queueSize .internal s.config)
  s.addFace key

/-- Last steps of creating a face: it is added and started, or gives way to one that was faster. -/
def settleNew (s : FaceSystem) (key : FaceKey) : Except Error UInt64 × FaceSystem :=
  match s.add key true with
  | .ok (id, s) => (.ok id, s.start key)
  | .error e =>
    (match e with
      | .faceExists existing => .ok existing
      | e => .error e, s.changeState key .adminDown)

/-- How the face of a canonical remote end is made. -/
abbrev Builder := FaceUri → Persistency → LinkOptions → Except Error Face

/-- Makes a face to a remote end unless there is one. -/
def createFace (s : FaceSystem) (build : Builder) (remote : FaceUri) (persistency : Persistency)
    (options : Option LinkOptions) : Except Error UInt64 × FaceSystem :=
  if !remote.canonical then (.error (.nonCanonicalUri remote.toText), s)
  else match s.find? remote with
    | some existing => (.ok existing.id, s)
    | none =>
      match build remote persistency (options.getD s.config.linkOptions) with
      | .error e => (.error e, s)
      | .ok f =>
        let (key, s) := s.adopt f
        s.settleNew key

/-- On a machine without sockets, dialling fails once the address is found good. -/
def buildOffline (env : Environment) : Builder := fun remote _ _ =>
  match remote.kind with
  | .udp => Remote.udpDial env remote >>= fun _ => .error .io
  | .tcp => Remote.tcpDial env remote >>= fun _ => .error .io
  | .null => .ok .null
  | _ => .error (.unsupportedScheme (String.ofList remote.scheme))

/-! ## Receiving -/

/-- A face hands what a frame brings to the dispatcher. -/
def receive (s : FaceSystem) (key : FaceKey) (frame : Bytes) : FaceSystem :=
  match s.face? key with
  | none => s
  | some f =>
    let (parcel, f) := f.receive frame s.clock.now
    { s with
      faces := s.faces.set key f
      dispatcher := match parcel with
        | some p => s.dispatcher.dispatch p f.base.scope
        | none => s.dispatcher }

/-- The same for a frame whose bytes are counted. -/
def receiveCounted (s : FaceSystem) (key : FaceKey) (frame : Bytes) : FaceSystem :=
  (s.modifyFace key fun f => f.recordIn frame.length s.clock.now).receive key frame

/-- Receives frames one after the other. -/
def receiveAll (s : FaceSystem) (key : FaceKey) (frames : List Bytes) : FaceSystem :=
  frames.foldl (fun s frame => s.receiveCounted key frame) s

/-- Runs stream reception on a face, which does not begin once the face is stopped. A stream that
ends in `stopped` gives the stop signal itself. -/
def runStream (s : FaceSystem) (key : FaceKey) (chunks : List Bytes) (last : StreamEnd) :
    StreamEnd × FaceSystem :=
  if (s.face? key).any fun f => f.base.stop.isStopped then (.stopped, s)
  else
    let reading := Framer.empty.read last chunks
    let s := s.receiveAll key reading.frames
    (reading.ending,
      if reading.ending = .stopped then s.modifyFace key Face.signalStop else s)

/-! ## Running tasks -/

/-- Frames larger than a packet are not accepted from a component. -/
def receiveFromComponent (s : FaceSystem) (key : FaceKey) (frames : List Bytes) : FaceSystem :=
  s.receiveAll key (frames.filter fun frame => frame.length ≤ maxPacketSize)

/-- Runs the receiving task of a face until it waits. -/
def runReceiver (s : FaceSystem) (key : FaceKey) : FaceSystem :=
  match s.face? key with
  | none => s
  | some f =>
    match f.receiver, f.medium with
    | .running, .component link =>
      let stopped := f.base.stop.isStopped
      let (frames, channel) := link.fromComponent.drain
      let ends := stopped || !link.fromComponent.hasSender
      let channel := if ends then channel.dropReceiver else channel
      let s := s.modifyFace key fun f =>
        { f with
          medium := .component { link with fromComponent := channel }
          receiver := if ends then .ended else .running }
      if stopped then s else s.receiveFromComponent key frames
    | .running, _ =>
      if f.base.stop.isStopped then s.modifyFace key fun f => { f with receiver := .ended } else s
    | _, _ => s

/-- Runs the tasks of a face until each waits. -/
def runTasks (s : FaceSystem) (key : FaceKey) : FaceSystem :=
  (s.modifyFace key fun f => f.runSender s.clock.now).runReceiver key

/-- The watches of stopped faces end. -/
def endWatches (s : FaceSystem) : FaceSystem :=
  { s with watches := s.watches.filter fun w =>
      (s.face? w.key).any fun f => !f.base.stop.isStopped }

/-- Runs the tasks of all faces until each waits. -/
def settle (s : FaceSystem) : FaceSystem :=
  ((List.range s.faces.length).foldl runTasks s).endWatches

/-! ## Expiry -/

/-- Whether a multiple of the checking period lies behind `earlier` and not behind `later`. -/
def checkDue (period : Nat) (since earlier later : Nat) : Bool :=
  0 < period && (earlier - since) / period < (later - since) / period

/-- The check of one watch, if it is due: fragments that are too old are given up, and a face that
has expired goes down, which ends the watch. -/
def check (earlier : Nat) (s : FaceSystem) (w : ExpiryWatch) : FaceSystem :=
  if checkDue s.config.expirationCheck.toNat w.since earlier s.clock.timer then
    let s := s.modifyFace w.key fun f => f.evictExpired s.clock.now
    if (s.face? w.key).any fun f => f.base.isExpired s.clock.now then
      { s with watches := s.watches.filter (· ≠ w) }.changeState w.key .down
    else s
  else s

/-- Moves the timer clock, which brings the checks that fall due. -/
def tick (s : FaceSystem) (secs : Nat) : FaceSystem :=
  let later := { s with clock := { s.clock with timer := s.clock.timer + secs } }
  s.watches.foldl (check s.clock.timer) later

end FaceSystem

end NamedData
