import NamedData.Proofs.Name.Prefixes
import NamedData.Proofs.Tlv.Sequences

/-!
# The wire form of names

A name is read back as it was written. The bytes of a prefix are a prefix of the bytes, and no other
bytes that belong to a name are.
-/

namespace NamedData.Name

open Tlv

variable {n a b : Name}

/-- The length that is written, which is added up from the components, is that of what follows. -/
theorem encode_eq (n : Name) :
    n.encode = VarNumber.encode blockType
      ++ VarNumber.encode (UInt64.ofNat (n.components.foldl (fun total c => total + c.size) 0))
      ++ n.encodeComponents := by
  rw [← length_encodeComponents]
  rfl

theorem size_le_of_mem (hn : n.size ≤ maxSize) :
    ∀ b ∈ n.components.map Component.toBlock, b.size ≤ maxSize := by
  intro b hb
  have hle := Block.size_le_length_encodeAll hb
  rw [← encodeComponents_eq] at hle
  have hvalue : n.encodeComponents.length ≤ n.size := by
    rw [← length_encode]
    exact (Block.length_value_le_size n.toBlock).trans (Block.length_encode n.toBlock).ge
  omega

theorem prefix_iff_prefix_map_toBlock {cs ds : List Component} :
    cs.map Component.toBlock <+: ds.map Component.toBlock ↔ cs <+: ds := by
  constructor
  · intro h
    have hback := h.map Component.ofBlock
    rw [List.map_map, List.map_map] at hback
    have hid (cs : List Component) : cs.map (Component.ofBlock ∘ Component.toBlock) = cs :=
      List.map_id cs
    rwa [hid, hid] at hback
  · intro h
    exact h.map Component.toBlock

theorem isPrefixOf_iff_encodeComponents (ha : a.size ≤ maxSize) (hb : b.size ≤ maxSize) :
    a.isPrefixOf b = true ↔ a.encodeComponents <+: b.encodeComponents := by
  rw [encodeComponents_eq, encodeComponents_eq,
    Block.encodeAll_prefix_iff (size_le_of_mem ha) (size_le_of_mem hb),
    prefix_iff_prefix_map_toBlock]
  exact List.isPrefixOf_iff_prefix

theorem decode_encode_append (hn : n.size ≤ maxSize) (rest : Bytes) :
    Block.decode (n.encode ++ rest) = .ok (n.toBlock, rest) :=
  Block.decode_encode_append n.toBlock rest (by
    rw [← Block.length_encode n.toBlock]
    exact (length_encode n).trans_le hn)

theorem encode_inj (ha : a.size ≤ maxSize) (heq : a.encode = b.encode) : a = b := by
  have hb : b.size ≤ maxSize := by rwa [← length_encode b, ← heq, length_encode]
  have hread := decode_encode_append ha []
  rw [heq, decode_encode_append hb []] at hread
  have hblock : b.toBlock = a.toBlock := congrArg Prod.fst (Except.ok.inj hread)
  have hback := ofBlock_toBlock a ha
  rw [← hblock, ofBlock_toBlock b hb] at hback
  exact (Except.ok.inj hback).symm

theorem encodeComponents_inj (ha : a.size ≤ maxSize)
    (heq : a.encodeComponents = b.encodeComponents) : a = b :=
  encode_inj ha (by rw [encode, encode, toBlock, toBlock, heq])

/-- As many bytes are written for a name as its size says, the length in front of its components
among them, and they are read back as the name, whatever stands behind them. One name is a prefix of
another just if the bytes of its components are a prefix of those of the other's, so two names are
the same just if they are written alike. -/
theorem isPrefixOf_iff_wire_prefix (a b : Name) (ha : a.size ≤ maxSize) (hb : b.size ≤ maxSize) :
    a.encode.length = a.size
      ∧ a.encode = VarNumber.encode blockType
        ++ VarNumber.encode (UInt64.ofNat (a.components.foldl (fun total c => total + c.size) 0))
        ++ a.encodeComponents
      ∧ (∀ rest, ∃ block, Block.decode (a.encode ++ rest) = .ok (block, rest)
        ∧ ofBlock block = .ok a)
      ∧ (a.isPrefixOf b = true ↔ a.encodeComponents <+: b.encodeComponents)
      ∧ (a = b ↔ a.encodeComponents = b.encodeComponents)
      ∧ (a = b ↔ a.encode = b.encode) :=
  ⟨length_encode a, encode_eq a,
    fun rest => ⟨a.toBlock, decode_encode_append ha rest, ofBlock_toBlock a ha⟩,
    isPrefixOf_iff_encodeComponents ha hb,
    ⟨congrArg encodeComponents, encodeComponents_inj ha⟩,
    ⟨congrArg encode, encode_inj ha⟩⟩

/-- The only component of `a` holds the bytes of the first component of `b`, which do not make it a
prefix. -/
theorem isPrefixOf_iff_wire_prefix_of_nested :
    let a : Name := ⟨[⟨8, [8, 1, 97]⟩]⟩
    let b : Name := ⟨[.generic [97], ⟨300, []⟩]⟩
    a.size ≤ maxSize ∧ b.size ≤ maxSize
      ∧ (∃ block, Block.decode (b.encode ++ [5]) = .ok (block, [5]) ∧ ofBlock block = .ok b)
      ∧ ¬ a.encodeComponents <+: b.encodeComponents
      ∧ (b.take 1).encodeComponents <+: b.encodeComponents := by
  intro a b
  have ha : a.size ≤ maxSize := by decide
  have hb : b.size ≤ maxSize := by decide
  have hother : ¬ a.isPrefixOf b = true := by decide
  obtain ⟨-, -, -, hwhole, -⟩ := isPrefixOf_iff_wire_prefix a b ha hb
  obtain ⟨-, -, hback, -⟩ := isPrefixOf_iff_wire_prefix b a hb ha
  obtain ⟨-, -, -, hfront, -⟩ := isPrefixOf_iff_wire_prefix (b.take 1) b (by decide) hb
  exact ⟨ha, hb, hback [5], fun h => hother (hwhole.mpr h), hfront.mp (by decide)⟩

end NamedData.Name
