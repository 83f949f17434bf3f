import NamedData.Name.Basic

/-!
# Name hashes

The forwarding thread of a name follows from a 32-bit cyclic redundancy check of its components.
-/

namespace NamedData

/-- The 32-bit cyclic redundancy check of IEEE 802.3, kept as a register that bytes run through. -/
structure Crc32 where
  register : UInt32
deriving DecidableEq, Repr

namespace Crc32

def initial : Crc32 := ⟨0xFFFFFFFF⟩

/-- One bit of division by the reversed generator polynomial. -/
def shift (r : UInt32) : UInt32 :=
  if r % 2 = 1 then (r >>> 1) ^^^ 0xEDB88320 else r >>> 1

def pushByte (c : Crc32) (b : UInt8) : Crc32 :=
  ⟨Nat.repeat shift 8 (c.register ^^^ b.toUInt32)⟩

def push (c : Crc32) (bs : Bytes) : Crc32 :=
  bs.foldl pushByte c

/-- The check value of the bytes so far. -/
def value (c : Crc32) : UInt32 :=
  c.register ^^^ 0xFFFFFFFF

def ofBytes (bs : Bytes) : UInt32 :=
  (initial.push bs).value

theorem push_append (c : Crc32) (xs ys : Bytes) : c.push (xs ++ ys) = (c.push xs).push ys := by
  simp [push]

end Crc32

namespace Name

/-- The check value of the components' wire forms. -/
def hash (n : Name) : UInt64 :=
  (Crc32.ofBytes n.encodeComponents).toUInt64

/-- The registers after none, one, two, … of the components. -/
def registers (c : Crc32) : List Component → List Crc32
  | [] => [c]
  | component :: rest => c :: registers (c.push component.encode) rest

/-- The hashes of all prefixes, the empty one first, in one pass. -/
def prefixHashes (n : Name) : List UInt64 :=
  (registers Crc32.initial n.components).map fun c => c.value.toUInt64

theorem length_registers (c : Crc32) (cs : List Component) :
    (registers c cs).length = cs.length + 1 := by
  induction cs generalizing c with
  | nil => rfl
  | cons component cs ih => rw [registers, List.length_cons, ih, List.length_cons]

end Name

end NamedData
