import NamedData.Tlv.Block

/-!
# Names

A name is a list of typed components. On the wire it is one block whose value is the components'
blocks.
-/

namespace NamedData

/-- A component: a type and any bytes. -/
structure Component where
  type : UInt64
  value : Bytes
deriving DecidableEq, Repr

namespace Component

/-- The type of a component that is written without its type. -/
def genericType : UInt64 := 8

def generic (value : Bytes) : Component :=
  ⟨genericType, value⟩

def toBlock (c : Component) : Tlv.Block :=
  ⟨c.type, c.value⟩

def ofBlock (b : Tlv.Block) : Component :=
  ⟨b.type, b.value⟩

def encode (c : Component) : Bytes :=
  c.toBlock.encode

def size (c : Component) : Nat :=
  c.toBlock.size

end Component

/-- A list of components. -/
structure Name where
  components : List Component
deriving DecidableEq, Repr

namespace Name

/-- The type of a name's block. -/
def blockType : UInt64 := 7

def empty : Name := ⟨[]⟩

def length (n : Name) : Nat :=
  n.components.length

/-- The first `k` components, or all of them. -/
def take (n : Name) (k : Nat) : Name :=
  ⟨n.components.take k⟩

def append (a b : Name) : Name :=
  ⟨a.components ++ b.components⟩

instance : Append Name := ⟨append⟩

/-- Whether the components of `b` begin with those of `a`. -/
def isPrefixOf (a b : Name) : Bool :=
  a.components.isPrefixOf b.components

/-- Whether the first component is the generic component `localhost`. -/
def isLocalhost (n : Name) : Bool :=
  n.components.head? == some (Component.generic (Bytes.ofText "localhost"))

/-- The components' wire forms, one behind the other. -/
def encodeComponents (n : Name) : Bytes :=
  n.components.flatMap Component.encode

def toBlock (n : Name) : Tlv.Block :=
  ⟨blockType, n.encodeComponents⟩

def encode (n : Name) : Bytes :=
  n.toBlock.encode

/-- The size of the wire form, from the sizes of the components alone. -/
def size (n : Name) : Nat :=
  Tlv.blockSize blockType (n.components.foldl (fun total c => total + c.size) 0)

def ofBlock (b : Tlv.Block) : Except Error Name :=
  if b.type = blockType then b.children.map fun bs => ⟨bs.map Component.ofBlock⟩
  else .error (.unexpectedType blockType b.type)

theorem encodeComponents_eq (n : Name) :
    n.encodeComponents = Tlv.Block.encodeAll (n.components.map Component.toBlock) := by
  rw [encodeComponents, Tlv.Block.encodeAll, List.flatMap_map]
  rfl

theorem length_encodeComponents (n : Name) :
    n.encodeComponents.length = n.components.foldl (fun total c => total + c.size) 0 := by
  have haux : ∀ (cs : List Component) (start : Nat),
      start + (cs.flatMap Component.encode).length
        = cs.foldl (fun total c => total + c.size) start := by
    intro cs
    induction cs with
    | nil => exact fun start => rfl
    | cons c cs ih =>
      intro start
      have hc : c.encode.length = c.size := Tlv.Block.length_encode c.toBlock
      rw [List.foldl_cons, ← ih, List.flatMap_cons, List.length_append, hc, Nat.add_assoc]
  have := haux n.components 0
  rwa [Nat.zero_add] at this

@[simp] theorem length_encode (n : Name) : n.encode.length = n.size := by
  rw [encode, Tlv.Block.length_encode, Tlv.Block.size, size, ← length_encodeComponents]
  rfl

/-- Reading gives back the name that was written. -/
theorem ofBlock_toBlock (n : Name) (h : n.size ≤ maxSize) : ofBlock n.toBlock = .ok n := by
  have hsize : ∀ c ∈ n.components, c.toBlock.size ≤ maxSize := by
    intro c hc
    have hle : c.encode.length ≤ n.encodeComponents.length := by
      obtain ⟨before, after, heq⟩ := List.append_of_mem hc
      rw [encodeComponents, heq, List.flatMap_append, List.flatMap_cons]
      simp only [List.length_append]
      omega
    have hc' : c.encode.length = c.toBlock.size := Tlv.Block.length_encode c.toBlock
    rw [size, ← length_encodeComponents, Tlv.blockSize] at h
    omega
  have hchildren : n.toBlock.children = .ok (n.components.map Component.toBlock) := by
    rw [Tlv.Block.children, toBlock, encodeComponents_eq]
    refine Tlv.Block.sequence_encodeAll _ ?_
    intro b hb
    obtain ⟨c, hc, rfl⟩ := List.mem_map.1 hb
    exact hsize c hc
  have hback : (n.components.map Component.toBlock).map Component.ofBlock = n.components := by
    rw [List.map_map]
    exact List.map_id n.components
  have htype : n.toBlock.type = blockType := rfl
  rw [ofBlock, if_pos htype, hchildren]
  exact congrArg (fun cs => Except.ok (Name.mk cs)) hback

end Name

end NamedData
