import NamedData.Link.Congestion
import NamedData.Link.LpPacket

/-!
# Reassembly

Fragments are gathered in groups. The base of a group is the sequence number of its first fragment,
which every fragment knows from its own number and index, modulo 2⁶⁴. Groups expire, an oldest one
makes room, and none grows beyond a packet's largest size.
-/

namespace NamedData

/-- A packet put together: the header of the first fragment and all bytes. -/
structure Reassembled where
  head : LpPacket
  payload : Bytes
deriving DecidableEq, Repr

/-- A link packet that is one of several, its bytes apart from its header. -/
structure Fragment where
  base : UInt64
  index : UInt64
  count : UInt64
  header : LpPacket
  payload : Bytes
deriving DecidableEq, Repr

namespace Fragment

/-- Checks the fields that place a fragment in its group. -/
def ofPacket (p : LpPacket) : Except Error Fragment :=
  match p.sequence, p.fragment with
  | none, _ => .error (.invalidFragment .noSequence)
  | some _, none => .error (.invalidFragment .noFragment)
  | some sequence, some payload =>
    let index := p.fragIndex.getD 0
    let count := p.fragCount.getD 1
    if count ≤ index then .error (.invalidFragment (.indexOutOfRange index count))
    else if maxPacketSize < count.toNat then .error (.invalidFragment (.countTooLarge count))
    else .ok ⟨sequence - index, index, count, { p with fragment := none }, payload⟩

end Fragment

/-- The fragments of one packet that have come so far, by index. -/
structure FragmentGroup where
  count : UInt64
  head : Option LpPacket
  fragments : List (UInt64 × Bytes)
  totalLength : Nat
  created : Instant
deriving DecidableEq, Repr

namespace FragmentGroup

def start (count : UInt64) (now : Instant) : FragmentGroup :=
  ⟨count, none, [], 0, now⟩

def contains (g : FragmentGroup) (index : UInt64) : Bool :=
  g.fragments.any fun f => f.1 == index

/-- Puts a fragment in its place by index. -/
def place (index : UInt64) (payload : Bytes) : List (UInt64 × Bytes) → List (UInt64 × Bytes)
  | [] => [(index, payload)]
  | f :: rest =>
    if index < f.1 then (index, payload) :: f :: rest else f :: place index payload rest

def add (g : FragmentGroup) (f : Fragment) : FragmentGroup :=
  { g with
    head := if f.index = 0 then some f.header else g.head
    fragments := place f.index f.payload g.fragments
    totalLength := g.totalLength + f.payload.length }

def isComplete (g : FragmentGroup) : Bool :=
  g.count.toNat ≤ g.fragments.length

/-- The fragments' bytes in the order of their indices. -/
def payload (g : FragmentGroup) : Bytes :=
  g.fragments.flatMap (·.2)

def result (g : FragmentGroup) : Reassembled :=
  ⟨g.head.getD {}, g.payload⟩

end FragmentGroup

/-- The incomplete groups of a receiver, by base, in the order in which they were begun. -/
structure Reassembly where
  groups : List (UInt64 × FragmentGroup)
  ttl : Duration
  maxGroups : Nat
  /-- Which of several oldest groups makes room, for each time that one has to. -/
  choices : List Nat
deriving DecidableEq, Repr

namespace Reassembly

/-- At least one group is always allowed. -/
def empty (ttl : Duration) (maxGroups : Nat) : Reassembly :=
  ⟨[], ttl, max maxGroups 1, []⟩

/-- Makes these choices from now on. -/
def choosing (s : Reassembly) (choices : List Nat) : Reassembly :=
  { s with choices }

def size (s : Reassembly) : Nat :=
  s.groups.length

def isEmpty (s : Reassembly) : Bool :=
  s.groups.isEmpty

/-- The fragments that wait in all groups. -/
def bufferedFragments (s : Reassembly) : Nat :=
  (s.groups.flatMap fun g => g.2.fragments).length

def group? (s : Reassembly) (base : UInt64) : Option FragmentGroup :=
  s.groups.lookup base

def erase (s : Reassembly) (base : UInt64) : Reassembly :=
  { s with groups := s.groups.filter fun g => g.1 != base }

/-- Stores a group in the place of the one with its base, or behind all others. -/
def putIn (base : UInt64) (g : FragmentGroup) :
    List (UInt64 × FragmentGroup) → List (UInt64 × FragmentGroup)
  | [] => [(base, g)]
  | old :: rest => if old.1 = base then (base, g) :: rest else old :: putIn base g rest

/-- Stores a group under its base. A group that was there keeps its turn among the others, so that
fragments which come later do not make it younger. -/
def put (s : Reassembly) (base : UInt64) (g : FragmentGroup) : Reassembly :=
  { s with groups := putIn base g s.groups }

def evictExpired (s : Reassembly) (now : Instant) : Reassembly :=
  { s with groups := s.groups.filter fun g => now - g.2.created < s.ttl.nanos }

/-- The bases of the groups than which no other is older. -/
def oldest (groups : List (UInt64 × FragmentGroup)) : List UInt64 :=
  (groups.filter fun g => groups.all fun other => g.2.created ≤ other.2.created).map (·.1)

/-- Drops an oldest group, the first one if there are no more choices. -/
def evictOldest (s : Reassembly) : Reassembly :=
  let bases := oldest s.groups
  match bases[s.choices.headD 0 % bases.length]? with
  | none => s
  | some base => (s.erase base).choosing s.choices.tail

/-- Makes room for one more group. -/
def makeRoom (s : Reassembly) : Reassembly :=
  if s.maxGroups ≤ s.size then s.evictOldest else s

/-- Adds a fragment to its group, which is complete, kept, or dropped because it grew too large. -/
def extend (s : Reassembly) (g : FragmentGroup) (f : Fragment) :
    Except Error (Option Reassembled) × Reassembly :=
  if g.contains f.index then (.ok none, s)
  else
    let g := g.add f
    if maxPacketSize < g.totalLength then
      (.error (.packetTooLarge g.totalLength maxPacketSize), s.erase f.base)
    else if g.isComplete then (.ok (some g.result), s.erase f.base)
    else (.ok none, s.put f.base g)

/-- Takes in a fragment whose place is known. -/
def accept (s : Reassembly) (f : Fragment) (now : Instant) :
    Except Error (Option Reassembled) × Reassembly :=
  let s := s.evictExpired now
  match s.group? f.base with
  | some g =>
    if g.count = f.count then s.extend g f
    else (.error (.invalidFragment (.countMismatch f.base)), s.erase f.base)
  | none => s.makeRoom.extend (.start f.count now) f

/-- Takes in a link packet; the result is a packet when its last fragment has come. -/
def insert (s : Reassembly) (p : LpPacket) (now : Instant) :
    Except Error (Option Reassembled) × Reassembly :=
  match Fragment.ofPacket p with
  | .error e => (.error e, s)
  | .ok f => s.accept f now

end Reassembly

end NamedData
