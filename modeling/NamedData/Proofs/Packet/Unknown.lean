import NamedData.Link.LpPacket
import NamedData.Packet.Basic
import NamedData.Proofs.Tlv.Editing

/-!
# Unknown fields

A field that a reader does not know is skipped or refused by its type alone, wherever it stands
among the others: in a packet, in the description of a Data packet and in a link packet.
-/

namespace NamedData

open Tlv

theorem Tlv.isCritical_eq_false_iff (type : UInt64) :
    Tlv.isCritical type = false ↔ 32 ≤ type ∧ type % 2 = 0 := by
  simp only [Tlv.isCritical, Bool.or_eq_false_iff, decide_eq_false_iff_not, beq_eq_false_iff_ne,
    ne_eq, UInt64.le_iff_toNat_le, ← UInt64.toNat_inj, UInt64.toNat_mod, UInt64.reduceToNat]
  omega

theorem LpPacket.isCritical_eq_false_iff (type : UInt64) :
    isCritical type = false ↔ 800 ≤ type ∧ type ≤ 959 ∧ type % 4 = 0 := by
  simp [isCritical, and_assoc]

/-! ## One field -/

section Absorb

variable {b : Block}

theorem Interest.absorb_unknown (h : Field.ofType? b.type = none) (i : Interest) :
    absorb i b
      = if Tlv.isCritical b.type then .error (.unrecognizedCritical b.type) else .ok i := by
  simp only [absorb, h]

theorem MetaInfo.absorb_unknown (h : Field.ofType? b.type = none) (m : MetaInfo) :
    absorb m b
      = if Tlv.isCritical b.type then .error (.unrecognizedCritical b.type) else .ok m := by
  simp only [absorb, h]

theorem Data.absorb_unknown (h : Field.ofType? b.type = none) (d : Data) :
    absorb d b
      = if Tlv.isCritical b.type then .error (.unrecognizedCritical b.type) else .ok d := by
  simp only [absorb, h]

theorem LpPacket.absorb_unknown (h : Field.ofType? b.type = none) (p : LpPacket) :
    absorb p b
      = if isCritical b.type then .error (.unrecognizedCritical b.type) else .ok p := by
  simp only [absorb, h]

end Absorb

/-! ## One field more -/

variable {wire : Bytes} {b old new : Block} {blocks : List Block} {k : Nat}

theorem Tlv.foldlM_insert {σ : Type} {absorb : σ → Block → Except Error σ} {refused : Bool}
    {e : Error} (hb : ∀ s, absorb s b = if refused then .error e else .ok s) {s s' : σ}
    (h : blocks.foldlM absorb s = .ok s') (k : Nat) :
    (blocks.take k ++ b :: blocks.drop k).foldlM absorb s
      = if refused then .error e else .ok s' := by
  refine foldlM_exchange [] [b] (fun s s' hs => ?_) ?_
  · cases hs
    rw [List.foldlM_cons, hb]
    cases refused <;> rfl
  · rw [List.nil_append, List.take_append_drop]
    exact h

theorem Interest.ofBlocks_insert {i : Interest} (h : ofBlocks blocks = .ok i) (hk : 0 < k)
    (hunknown : Field.ofType? b.type = none) :
    ofBlocks (blocks.take k ++ b :: blocks.drop k)
      = if Tlv.isCritical b.type then .error (.unrecognizedCritical b.type) else .ok i := by
  cases blocks with
  | nil => cases h
  | cons nameBlock fields =>
      obtain ⟨k, rfl⟩ := Nat.exists_eq_add_one_of_ne_zero hk.ne'
      obtain ⟨name, hname, h⟩ := exists_of_bind_eq_ok h
      rw [List.take_succ_cons, List.cons_append, ofBlocks, hname, ok_bind]
      exact foldlM_insert (absorb_unknown hunknown) h k

theorem Data.ofBlocks_insert {d : Data} (h : ofBlocks blocks = .ok d) (hk : 0 < k)
    (hunknown : Field.ofType? b.type = none) :
    ofBlocks (blocks.take k ++ b :: blocks.drop k)
      = if Tlv.isCritical b.type then .error (.unrecognizedCritical b.type) else .ok d := by
  cases blocks with
  | nil => cases h
  | cons nameBlock fields =>
      obtain ⟨k, rfl⟩ := Nat.exists_eq_add_one_of_ne_zero hk.ne'
      obtain ⟨name, hname, h⟩ := exists_of_bind_eq_ok h
      rw [List.take_succ_cons, List.cons_append, ofBlocks, hname, ok_bind]
      exact foldlM_insert (absorb_unknown hunknown) h k

/-- A description that gets an unknown field is taken in as before, or refused. -/
theorem Data.absorb_described {d d' : Data} (htype : old.type = Field.metaInfo.type)
    (h : absorb d old = .ok d') (hnew : b.Inserted k old new)
    (hunknown : MetaInfo.Field.ofType? b.type = none) :
    absorb d new
      = if Tlv.isCritical b.type then .error (.unrecognizedCritical b.type) else .ok d' := by
  have hfield : Field.ofType? old.type = some .metaInfo := by
    rw [htype]
    rfl
  simp only [absorb, hnew.type_eq, hfield] at h ⊢
  obtain ⟨inner, hinner, h⟩ := exists_of_bind_eq_ok h
  obtain ⟨m, hm, h⟩ := exists_of_bind_eq_ok h
  cases h
  rw [(hnew.children hinner).2, ok_bind, foldlM_insert (MetaInfo.absorb_unknown hunknown) hm k]
  cases Tlv.isCritical b.type <;> rfl

theorem Data.ofBlocks_replace {d : Data} {field : Block} {before after : List Block}
    (htype : field.type = Field.metaInfo.type) (h : ofBlocks (before ++ field :: after) = .ok d)
    (hnew : b.Inserted k field new) (hunknown : MetaInfo.Field.ofType? b.type = none) :
    ofBlocks (before ++ new :: after)
      = if Tlv.isCritical b.type then .error (.unrecognizedCritical b.type) else .ok d := by
  cases before with
  | nil =>
      -- The first block is the name, and a description is none.
      obtain ⟨name, hname, -⟩ := exists_of_bind_eq_ok h
      have hne : field.type ≠ Name.blockType := by
        rw [htype]
        decide
      rw [Name.ofBlock, if_neg hne] at hname
      cases hname
  | cons nameBlock before =>
      obtain ⟨name, hname, h⟩ := exists_of_bind_eq_ok h
      rw [List.cons_append, ofBlocks, hname, ok_bind]
      refine foldlM_exchange [field] [new] (fun s s' hs => ?_) h
      obtain ⟨s₁, hfield, hs⟩ := exists_of_bind_eq_ok hs
      cases hs
      rw [List.foldlM_cons, absorb_described htype hfield hnew hunknown]
      cases Tlv.isCritical b.type <;> rfl

/-! ## Packets -/

namespace Packet

/-- Whether a packet of this kind has fields of a type behind its name. -/
def hasField : Packet → UInt64 → Bool
  | interest _, type => (Interest.Field.ofType? type).isSome
  | data _, type => (Data.Field.ofType? type).isSome

theorem decode_of_block (h : Block.decode wire = .ok (b, [])) : decode wire = ofBlock b := by
  simp only [decode, h, ne_eq, not_true_eq_false, ↓reduceIte]

theorem ofBlock_eq_ok {p : Packet} (h : ofBlock b = .ok p) :
    ∃ blocks, b.children = .ok blocks ∧ match p with
      | interest i => b.type = Interest.blockType ∧ Interest.ofBlocks blocks = .ok i
      | data d => b.type = Data.blockType ∧ Data.ofBlocks blocks = .ok d := by
  unfold ofBlock at h
  split at h
  · rename_i htype
    obtain ⟨i, hi, rfl⟩ := exists_of_map_eq_ok h
    obtain ⟨blocks, hblocks, hi⟩ := exists_of_bind_eq_ok hi
    exact ⟨blocks, hblocks, htype, hi⟩
  · split at h
    · rename_i htype
      obtain ⟨d, hd, rfl⟩ := exists_of_map_eq_ok h
      obtain ⟨blocks, hblocks, hd⟩ := exists_of_bind_eq_ok hd
      exact ⟨blocks, hblocks, htype, hd⟩
    · split at h <;> cases h

theorem ofBlock_interest (htype : b.type = Interest.blockType) (hblocks : b.children = .ok blocks) :
    ofBlock b = interest <$> Interest.ofBlocks blocks := by
  rw [ofBlock, if_pos htype, hblocks, ok_bind]

theorem ofBlock_data (htype : b.type = Data.blockType) (hblocks : b.children = .ok blocks) :
    ofBlock b = data <$> Data.ofBlocks blocks := by
  have hne : b.type ≠ Interest.blockType := by
    rw [htype]
    decide
  rw [ofBlock, if_neg hne, if_pos htype, hblocks, ok_bind]

theorem ofBlock_insert {p : Packet} (h : ofBlock old = .ok p) (hk : 0 < k)
    (hnew : b.Inserted k old new) (hunknown : p.hasField b.type = false) :
    ofBlock new
      = if Tlv.isCritical b.type then .error (.unrecognizedCritical b.type) else .ok p := by
  obtain ⟨blocks, hblocks, hp⟩ := ofBlock_eq_ok h
  have hchildren := (hnew.children hblocks).2
  cases p with
  | interest i =>
      obtain ⟨htype, hi⟩ := hp
      have hfield : Interest.Field.ofType? b.type = none := by simpa [hasField] using hunknown
      rw [ofBlock_interest (hnew.type_eq.trans htype) hchildren,
        Interest.ofBlocks_insert hi hk hfield]
      cases Tlv.isCritical b.type <;> rfl
  | data d =>
      obtain ⟨htype, hd⟩ := hp
      have hfield : Data.Field.ofType? b.type = none := by simpa [hasField] using hunknown
      rw [ofBlock_data (hnew.type_eq.trans htype) hchildren, Data.ofBlocks_insert hd hk hfield]
      cases Tlv.isCritical b.type <;> rfl

theorem ofBlock_describe {d : Data} {field field' : Block} {j : Nat}
    (h : ofBlock old = .ok (data d)) (htype : field.type = Data.Field.metaInfo.type)
    (hfield : b.Inserted k field field') (hnew : field.Replaced field' j old new)
    (hunknown : MetaInfo.Field.ofType? b.type = none) :
    ofBlock new
      = if Tlv.isCritical b.type then .error (.unrecognizedCritical b.type) else .ok (data d) := by
  obtain ⟨blocks, hblocks, holdType, hd⟩ := ofBlock_eq_ok h
  obtain ⟨hsplit, hchildren⟩ := hnew.children hblocks
  rw [hsplit] at hd
  rw [ofBlock_data (hnew.type_eq.trans holdType) hchildren,
    Data.ofBlocks_replace htype hd hfield hunknown]
  cases Tlv.isCritical b.type <;> rfl

end Packet

/-! ## Link packets -/

namespace LpPacket

variable {p : LpPacket}

theorem decode_insert {wire' : Bytes} (hold : Block.decode wire = .ok (old, []))
    (hwire : Block.decode wire' = .ok (new, [])) (h : decode wire = .ok p)
    (hnew : b.Inserted k old new) (hunknown : Field.ofType? b.type = none) :
    decode wire'
      = if isCritical b.type then .error (.unrecognizedCritical b.type) else .ok p := by
  obtain ⟨outer, houter, hread⟩ := exists_of_bind_eq_ok h
  obtain ⟨fields, hfields, hrecord⟩ := exists_of_bind_eq_ok hread
  have htype : old.type = blockType := by
    by_contra hne
    simp only [Block.decodeExact, hold, ne_eq, hne, not_false_eq_true, ↓reduceIte] at houter
    cases houter
  have hexact {wire : Bytes} {b : Block} (h : Block.decode wire = .ok (b, []))
      (hb : b.type = blockType) : Block.decodeExact wire blockType = .ok b := by
    simp [Block.decodeExact, h, hb]
  cases (hexact hold htype).symm.trans houter
  unfold decode
  rw [hexact hwire (hnew.type_eq.trans htype), ok_bind, (hnew.children hfields).2, ok_bind,
    foldlM_insert (absorb_unknown hunknown) hrecord k]

end LpPacket

/-! ## Forward compatibility -/

/-- An unknown field behind the name of a packet or in the description of a Data packet is skipped
if its type is even and at least 32, and one of a link packet if its type lies from 800 to 959 and
four divides it. Any other unknown field makes the whole unreadable, and the error names its type.
This is so at every position, for every form of the field, and whatever form the rest has. -/
theorem unknown_field_follows_type :
    (∀ (wire wire' : Bytes) (old new b : Block) (k : Nat) (p : Packet),
      Block.decode wire = .ok (old, []) → Block.decode wire' = .ok (new, []) →
      Packet.decode wire = .ok p → p.hasField b.type = false → 0 < k → b.Inserted k old new →
        Packet.decode wire' = if 32 ≤ b.type ∧ b.type % 2 = 0 then .ok p
          else .error (.unrecognizedCritical b.type))
      ∧ (∀ (wire wire' : Bytes) (old new m m' b : Block) (j k : Nat) (d : Data),
        Block.decode wire = .ok (old, []) → Block.decode wire' = .ok (new, []) →
        Packet.decode wire = .ok (.data d) → m.type = Data.Field.metaInfo.type →
        MetaInfo.Field.ofType? b.type = none → b.Inserted k m m' → m.Replaced m' j old new →
          Packet.decode wire' = if 32 ≤ b.type ∧ b.type % 2 = 0 then .ok (.data d)
            else .error (.unrecognizedCritical b.type))
      ∧ ∀ (wire wire' : Bytes) (old new b : Block) (k : Nat) (p : LpPacket),
        Block.decode wire = .ok (old, []) → Block.decode wire' = .ok (new, []) →
        LpPacket.decode wire = .ok p → LpPacket.Field.ofType? b.type = none →
        b.Inserted k old new →
          LpPacket.decode wire' = if 800 ≤ b.type ∧ b.type ≤ 959 ∧ b.type % 4 = 0 then .ok p
            else .error (.unrecognizedCritical b.type) := by
  have hskip {α : Type} {critical : Bool} {skippable : Prop} [Decidable skippable]
      (h : critical = false ↔ skippable) (x y : α) :
      (if critical then x else y) = if skippable then y else x := by
    cases critical <;> simp_all
  refine ⟨fun wire wire' old new b k p hold hwire hp hunknown hk hnew => ?_,
    fun wire wire' old new m m' b j k d hold hwire hd htype hunknown hm hnew => ?_,
    fun wire wire' old new b k p hold hwire hp hunknown hnew => ?_⟩
  · rw [Packet.decode_of_block hold] at hp
    rw [Packet.decode_of_block hwire, Packet.ofBlock_insert hp hk hnew hunknown,
      hskip (Tlv.isCritical_eq_false_iff b.type)]
  · rw [Packet.decode_of_block hold] at hd
    rw [Packet.decode_of_block hwire, Packet.ofBlock_describe hd htype hm hnew hunknown,
      hskip (Tlv.isCritical_eq_false_iff b.type)]
  · rw [LpPacket.decode_insert hold hwire hp hnew hunknown,
      hskip (LpPacket.isCritical_eq_false_iff b.type)]

/-- A longer form of an even type behind the name of an Interest, and a second name at its end; an
odd type in front of the content type of a Data packet; a skipped and a refused type in front of the
fragment of a link packet. -/
theorem unknown_field_follows_type_at_front :
    let i : Packet := .interest { name := ⟨[.generic [97]]⟩, hopLimit := some 9 }
    let interestWire : Bytes := [5, 8, 7, 3, 8, 1, 97, 34, 1, 9]
    let d : Data := { name := .empty, metaInfo.contentType := some 2 }
    let dataWire : Bytes := [6, 7, 7, 0, 20, 3, 24, 1, 2]
    let p : LpPacket := { fragment := some [5] }
    let linkWire : Bytes := [100, 3, 80, 1, 5]
    Packet.decode interestWire = .ok i
      ∧ Packet.decode [5, 13, 7, 3, 8, 1, 97, 0xFD, 0, 32, 1, 1, 34, 1, 9] = .ok i
      ∧ Packet.decode [5, 10, 7, 3, 8, 1, 97, 34, 1, 9, 7, 0] = .error (.unrecognizedCritical 7)
      ∧ Packet.decode dataWire = .ok (.data d)
      ∧ Packet.decode [6, 9, 7, 0, 20, 5, 27, 0, 24, 1, 2] = .error (.unrecognizedCritical 27)
      ∧ LpPacket.decode linkWire = .ok p
      ∧ LpPacket.decode [100, 7, 0xFD, 3, 0x88, 0, 80, 1, 5] = .ok p
      ∧ LpPacket.decode [100, 7, 0xFD, 3, 0x89, 0, 80, 1, 5]
        = .error (.unrecognizedCritical 905) := by
  intro i interestWire d dataWire p linkWire
  have hinterest : Packet.decode interestWire = .ok i := by cbv
  have hdata : Packet.decode dataWire = .ok (.data d) := by cbv
  have hlink : LpPacket.decode linkWire = .ok p := by cbv
  obtain ⟨hpackets, hdescribed, hlinks⟩ := unknown_field_follows_type
  refine ⟨hinterest, ?_, ?_, hdata, ?_, hlink, ?_, ?_⟩
  · exact hpackets interestWire _ ⟨5, [7, 3, 8, 1, 97, 34, 1, 9]⟩
      ⟨5, [7, 3, 8, 1, 97, 0xFD, 0, 32, 1, 1, 34, 1, 9]⟩ ⟨32, [1]⟩ 1 i (by cbv) (by cbv) hinterest
      (by decide) (by decide)
      ⟨rfl, ⟨[⟨7, [8, 1, 97]⟩, ⟨34, [9]⟩], by cbv, by decide⟩, [0xFD, 0, 32, 1, 1], by cbv, by cbv⟩
  · exact hpackets interestWire _ ⟨5, [7, 3, 8, 1, 97, 34, 1, 9]⟩
      ⟨5, [7, 3, 8, 1, 97, 34, 1, 9, 7, 0]⟩ ⟨7, []⟩ 2 i (by cbv) (by cbv) hinterest
      (by decide) (by decide)
      ⟨rfl, ⟨[⟨7, [8, 1, 97]⟩, ⟨34, [9]⟩], by cbv, by decide⟩, [7, 0], by cbv, by cbv⟩
  · exact hdescribed dataWire _ ⟨6, [7, 0, 20, 3, 24, 1, 2]⟩ ⟨6, [7, 0, 20, 5, 27, 0, 24, 1, 2]⟩
      ⟨20, [24, 1, 2]⟩ ⟨20, [27, 0, 24, 1, 2]⟩ ⟨27, []⟩ 1 0 d (by cbv) (by cbv) hdata
      rfl (by decide)
      ⟨rfl, ⟨[⟨24, [2]⟩], by cbv, by decide⟩, [27, 0], by cbv, by cbv⟩
      ⟨rfl, ⟨[⟨7, []⟩, ⟨20, [24, 1, 2]⟩], by cbv, rfl⟩, [20, 5, 27, 0, 24, 1, 2], by cbv, by cbv⟩
  · exact hlinks linkWire _ ⟨100, [80, 1, 5]⟩ ⟨100, [0xFD, 3, 0x88, 0, 80, 1, 5]⟩ ⟨904, []⟩ 0 p
      (by cbv) (by cbv) hlink (by decide)
      ⟨rfl, ⟨[⟨80, [5]⟩], by cbv, by decide⟩, [0xFD, 3, 0x88, 0], by cbv, by cbv⟩
  · exact hlinks linkWire _ ⟨100, [80, 1, 5]⟩ ⟨100, [0xFD, 3, 0x89, 0, 80, 1, 5]⟩ ⟨905, []⟩ 0 p
      (by cbv) (by cbv) hlink (by decide)
      ⟨rfl, ⟨[⟨80, [5]⟩], by cbv, by decide⟩, [0xFD, 3, 0x89, 0], by cbv, by cbv⟩

end NamedData
