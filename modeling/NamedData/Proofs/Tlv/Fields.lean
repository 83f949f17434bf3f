import Mathlib
import NamedData.Tlv.Block

/-!
# Blocks with fields

Reading back a block whose value is a list of blocks, and taking in fields that may be absent.
-/

namespace NamedData.Tlv

namespace Block

theorem length_encodeAll (bs : List Block) : (encodeAll bs).length = (bs.map size).sum := by
  simp only [encodeAll, List.length_flatMap, length_encode]

theorem size_le_length_encodeAll {b : Block} {bs : List Block} (h : b ∈ bs) :
    b.size ≤ (encodeAll bs).length := by
  rw [length_encodeAll]
  exact List.single_le_sum (fun _ _ => Nat.zero_le _) _ (List.mem_map.mpr ⟨b, h, rfl⟩)

theorem length_value_le_size (b : Block) : b.value.length ≤ b.size :=
  Nat.le_add_left _ _

theorem decode_encode (b : Block) (h : b.size ≤ maxSize) : decode b.encode = .ok (b, []) := by
  have := decode_encode_append b [] h
  rwa [List.append_nil] at this

theorem decodeExact_encode (b : Block) (h : b.size ≤ maxSize) :
    decodeExact b.encode b.type = .ok b := by
  simp [decodeExact, decode_encode b h]

/-- Blocks inside a block are read back as they were written. -/
theorem children_encodeAll (type : UInt64) (bs : List Block)
    (h : (⟨type, encodeAll bs⟩ : Block).size ≤ maxSize) :
    (⟨type, encodeAll bs⟩ : Block).children = .ok bs := by
  refine sequence_encodeAll bs fun b hb => ?_
  have hb := size_le_length_encodeAll hb
  have hle : (encodeAll bs).length ≤ _ := length_value_le_size ⟨type, encodeAll bs⟩
  omega

theorem peek?_of_decode {bs rest : Bytes} {b : Block} (h : decode bs = .ok (b, rest)) :
    ∃ size, peek? bs = some (b.type, size) := by
  simp only [decode] at h
  split at h
  · cases h
  · rename_i header hheader
    split at h
    · cases h
    · rename_i hmax
      split at h
      · cases h
      · rename_i value tail hcut
        obtain ⟨hle, -, -⟩ := Bytes.cut?_eq_some_iff.mp hcut
        obtain ⟨-, hsize⟩ := Header.decode_size_pos hheader
        have hwhole : ¬ bs.length < header.saturatedTotal := by
          simp only [Header.saturatedTotal, Header.total, List.length_drop] at hle ⊢
          omega
        cases h
        exact ⟨header.saturatedTotal, by simp only [peek?, hheader, if_neg hwhole]⟩

@[simp] theorem toNumber_ofNumber (type v : UInt64) : (ofNumber type v).toNumber = .ok v :=
  Nni.decode_encode v

end Block

/-! ## Fields that may be absent -/

section Fields

variable {σ α : Type} {absorb : σ → Block → Except Error σ}

@[simp] theorem ok_bind {β : Type} (a : α) (f : α → Except Error β) : (Except.ok a >>= f) = f a :=
  rfl

theorem exists_of_bind_eq_ok {β : Type} {x : Except Error α} {f : α → Except Error β} {b : β}
    (h : (x >>= f) = .ok b) : ∃ a, x = .ok a ∧ f a = .ok b := by
  cases x with
  | error e => cases h
  | ok a => exact ⟨a, rfl, h⟩

theorem exists_of_map_eq_ok {β : Type} {x : Except Error α} {f : α → β} {b : β}
    (h : f <$> x = .ok b) : ∃ a, x = .ok a ∧ f a = b := by
  cases x with
  | error e => cases h
  | ok a => exact ⟨a, rfl, Except.ok.inj h⟩

/-- An optional field is taken in if it is there. -/
theorem foldlM_optional {toBlock : α → Block} (set : σ → Option α → σ)
    (hnone : ∀ s, set s none = s) (hsome : ∀ s a, absorb s (toBlock a) = .ok (set s (some a)))
    (s : σ) (o : Option α) : (o.toList.map toBlock).foldlM absorb s = .ok (set s o) := by
  cases o with
  | none => exact congrArg Except.ok (hnone s).symm
  | some a =>
      rw [Option.toList_some, List.map_singleton, List.foldlM_cons, hsome]
      rfl

theorem foldlM_flag {b : Block} (set : σ → Bool → σ) (hfalse : ∀ s, set s false = s)
    (htrue : ∀ s, absorb s b = .ok (set s true)) (s : σ) (flag : Bool) :
    (if flag then [b] else []).foldlM absorb s = .ok (set s flag) := by
  cases flag with
  | false => exact congrArg Except.ok (hfalse s).symm
  | true =>
      rw [if_pos rfl, List.foldlM_cons, htrue]
      rfl

end Fields

end NamedData.Tlv
