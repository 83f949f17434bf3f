import NamedData.Proofs.Tlv.Editing
import NamedData.Proofs.Tlv.Forms

/-!
# Sequences of blocks

A byte string is cut in at most one way into blocks, whatever forms these are in. The blocks inside
a block are read if and only if there is such a cut, and they are those of the cut.
-/

namespace NamedData.Tlv

namespace Block

/-- Blocks in any of their forms, one behind the other and nothing else. -/
inductive Joined : List Block → Bytes → Prop where
  | nil : Joined [] []
  | cons {b : Block} {blocks : List Block} {form rest : Bytes} (first : b.Form form)
      (later : Joined blocks rest) : Joined (b :: blocks) (form ++ rest)

variable {b : Block} {blocks others : List Block} {bs rest : Bytes}

theorem joined_of_sequence (h : sequence bs = .ok blocks) : Joined blocks bs := by
  -- By the recursion of `sequence`: every block takes the bytes of one form.
  fun_induction sequence bs generalizing blocks with
  | case1 =>
      cases h
      exact .nil
  | case2 bs hne e hdecode => cases h
  | case3 bs hne b rest hdecode hlt ih =>
      obtain ⟨form, hform, -, rfl⟩ := decode_eq_ok_iff.mp hdecode
      cases hrest : sequence rest with
      | error e => rw [hrest] at h; cases h
      | ok later =>
          rw [hrest] at h
          cases h
          exact .cons hform (ih hrest)

theorem Joined.sequence_eq (h : Joined blocks bs) (hsize : bs.length ≤ maxSize) :
    sequence bs = .ok blocks := by
  induction h with
  | nil => exact sequence_nil
  | @cons b blocks form rest first later ih =>
      rw [List.length_append] at hsize
      rw [sequence_of_decode (first.decode_append (by omega) rest), ih (by omega)]
      rfl

/-- Reading a sequence is finding its cut. -/
theorem sequence_eq_ok_iff (hsize : bs.length ≤ maxSize) :
    sequence bs = .ok blocks ↔ Joined blocks bs :=
  ⟨joined_of_sequence, fun h => h.sequence_eq hsize⟩

theorem Joined.unique (h : Joined blocks bs) (h' : Joined others bs) (hsize : bs.length ≤ maxSize) :
    blocks = others :=
  Except.ok.inj ((h.sequence_eq hsize).symm.trans (h'.sequence_eq hsize))

theorem Joined.two_mul_length_le (h : Joined blocks bs) : 2 * blocks.length ≤ bs.length := by
  induction h with
  | nil => exact Nat.le_refl 0
  | cons first later ih =>
      have := first.two_le_length
      rw [List.length_cons, List.length_append]
      omega

/-! ## Written sequences -/

theorem encode_append_inj {c : Block} {tail : Bytes} (hb : b.size ≤ maxSize) (hc : c.size ≤ maxSize)
    (heq : b.encode ++ rest = c.encode ++ tail) : b = c ∧ rest = tail := by
  have hread := decode_encode_append b rest hb
  rw [heq, decode_encode_append c tail hc] at hread
  cases hread
  exact ⟨rfl, rfl⟩

/-- No boundary between blocks falls inside a block of another sequence. -/
theorem encodeAll_prefix_iff (hblocks : ∀ b ∈ blocks, b.size ≤ maxSize)
    (hothers : ∀ b ∈ others, b.size ≤ maxSize) :
    encodeAll blocks <+: encodeAll others ↔ blocks <+: others := by
  constructor
  · intro h
    induction blocks generalizing others with
    | nil => exact List.nil_prefix
    | cons b blocks ih =>
        obtain ⟨hb, hlater⟩ := List.forall_mem_cons.mp hblocks
        obtain ⟨tail, htail⟩ := h
        have hcons : encodeAll (b :: blocks) = b.encode ++ encodeAll blocks := List.flatMap_cons
        rw [hcons, List.append_assoc] at htail
        cases others with
        | nil =>
            have hlength := congrArg List.length htail
            have hpos := b.size_pos
            rw [List.length_append, length_encode, length_encodeAll_nil] at hlength
            omega
        | cons c others =>
            obtain ⟨hc, hlater'⟩ := List.forall_mem_cons.mp hothers
            have hcons' : encodeAll (c :: others) = c.encode ++ encodeAll others :=
              List.flatMap_cons
            rw [hcons'] at htail
            obtain ⟨rfl, hrest⟩ := encode_append_inj hb hc htail
            exact (List.prefix_cons_inj b).mpr (ih hlater hlater' ⟨tail, hrest⟩)
  · rintro ⟨later, rfl⟩
    exact ⟨encodeAll later, List.flatMap_append.symm⟩

/-! ## The cut of a value -/

/-- The blocks inside a block are read just if its value can be cut into blocks, and then they are
those of the only cut; there is always an answer, and every block takes two bytes or more. What was
written is read back. A block is read from the bytes of one form, of which none can be missing and
behind which anything may follow; written again it takes no more bytes, and the same ones just if
its numbers were as short as they can be. -/
theorem children_eq_ok_iff_joined :
    (∀ b : Block, b.value.length ≤ maxSize →
      (∀ blocks, b.children = .ok blocks ↔ Joined blocks b.value)
        ∧ (∀ blocks others, Joined blocks b.value → Joined others b.value → blocks = others)
        ∧ ((∃ blocks, b.children = .ok blocks ∧ 2 * blocks.length ≤ b.value.length)
          ∨ ∃ e, b.children = .error e))
      ∧ (∀ (type : UInt64) (blocks : List Block), (encodeAll blocks).length ≤ maxSize →
        (⟨type, encodeAll blocks⟩ : Block).children = .ok blocks)
      ∧ ∀ (bs rest : Bytes) (b : Block), decode bs = .ok (b, rest) →
        ∃ (type length : Bytes) (n : UInt64),
          let form := type ++ (length ++ b.value)
          bs = form ++ rest ∧ VarNumber.Form b.type type ∧ VarNumber.Form n length
            ∧ n.toNat = b.value.length
            ∧ b.encode.length ≤ form.length
            ∧ (b.encode = form ↔ VarNumber.Shortest b.type type ∧ VarNumber.Shortest n length)
            ∧ decode b.encode = .ok (b, [])
            ∧ (∀ tail, decode (bs ++ tail) = .ok (b, rest ++ tail))
            ∧ ∀ m < form.length, ∃ need, decode (form.take m) = .error (.truncated need m) := by
  refine ⟨fun b hsize => ⟨fun blocks => sequence_eq_ok_iff hsize,
    fun blocks others h h' => h.unique h' hsize, ?_⟩, fun type blocks hsize => ?_,
    fun bs rest b hdecode => ?_⟩
  · cases hchildren : b.children with
    | error e => exact .inr ⟨e, rfl⟩
    | ok blocks => exact .inl ⟨blocks, rfl, (joined_of_sequence hchildren).two_mul_length_le⟩
  · exact sequence_encodeAll blocks fun b hb => (size_le_length_encodeAll hb).trans hsize
  · obtain ⟨form, hform, hsize, rfl⟩ := decode_eq_ok_iff.mp hdecode
    have hle := size_add_le_of_decode hdecode
    rw [List.length_append] at hle
    have htake (m : Nat) (hm : m < form.length) := hform.decode_take hsize hm
    have hback : decode b.encode = .ok (b, []) := b.decode_encode (by omega)
    cases hform with
    | @intro type length n htype hlength hn =>
        refine ⟨type, length, n, rfl, htype, hlength, hn, ?_, encode_eq_iff htype hlength hn, hback,
          Block.decode_append hdecode, htake⟩
        rw [length_encode]
        omega

/-- A value whose first block has a type of three bytes where one would do. -/
theorem children_eq_ok_iff_joined_of_long_type :
    let blocks : List Block := [⟨5, [0xAA]⟩, ⟨6, []⟩]
    let b : Block := ⟨7, [0xFD, 0, 5, 1, 0xAA, 6, 0]⟩
    b.value.length ≤ maxSize ∧ b.children = .ok blocks ∧ Joined blocks b.value
      ∧ (⟨7, encodeAll blocks⟩ : Block).children = .ok blocks
      ∧ decode b.value = .ok (⟨5, [0xAA]⟩, [6, 0])
      ∧ decode (⟨5, [0xAA]⟩ : Block).encode = .ok (⟨5, [0xAA]⟩, []) := by
  intro blocks b
  have hread : b.children = .ok blocks := by cbv
  have hfirst : decode b.value = .ok (⟨5, [0xAA]⟩, [6, 0]) := by decide
  obtain ⟨hcut, hback, hfront⟩ := children_eq_ok_iff_joined
  obtain ⟨-, -, -, -, -, -, -, -, -, hagain, -⟩ := hfront _ _ _ hfirst
  exact ⟨by decide, hread, ((hcut b (by decide)).1 blocks).mp hread,
    hback 7 blocks (by decide), hfirst, hagain⟩

end Block

end NamedData.Tlv
