import NamedData.Proofs.Tlv.Shortest

/-!
# Fields put in between others

A byte string of blocks is edited at a boundary between two of them; all other bytes stay, in
whatever form they are. A block that gets one more field says so by a new length.
-/

namespace NamedData.Tlv

namespace Block

variable {bs rest : Bytes} {b : Block} {blocks : List Block} {k : Nat}

/-! ## Sequences taken apart -/

/-- A block needs no more bytes than it takes. -/
theorem decode_front (h : decode bs = .ok (b, rest)) :
    decode (bs.take (bs.length - rest.length)) = .ok (b, []) := by
  unfold decode at h
  cases hheader : Header.decode bs with
  | error e => rw [hheader] at h; cases h
  | ok header =>
      simp only [hheader] at h
      split at h
      · cases h
      · rename_i hmax
        cases hcut : Bytes.cut? header.length.toNat (bs.drop header.size) with
        | none => rw [hcut] at h; cases h
        | some cut =>
            rw [hcut] at h
            cases h
            obtain ⟨hle, hvalue, hrest⟩ := Bytes.cut?_eq_some_iff.mp hcut
            have hsize := (Header.decode_size_pos hheader).2
            rw [List.length_drop] at hle
            have hfront : bs.length - cut.2.length = header.size + header.length.toNat := by
              rw [hrest, List.length_drop, List.length_drop]
              omega
            have hback : Header.decode (bs.take (header.size + header.length.toNat)) = .ok header :=
              Header.decode_take hheader (Nat.le_add_right _ _)
            have hcut' : Bytes.cut? header.length.toNat
                ((bs.take (header.size + header.length.toNat)).drop header.size)
                  = some (cut.1, []) := by
              refine Bytes.cut?_eq_some_iff.mpr ⟨?_, ?_, ?_⟩
              · rw [List.length_drop, List.length_take]
                omega
              · rw [List.drop_take, Nat.add_sub_cancel_left, List.take_take, Nat.min_self, hvalue]
              · rw [List.drop_take, Nat.add_sub_cancel_left, List.drop_take, Nat.sub_self,
                  List.take_zero]
            simp only [hfront, decode, hback, if_neg hmax, hcut']

theorem exists_of_sequence_eq_cons (h : sequence bs = .ok (b :: blocks)) :
    ∃ rest, decode bs = .ok (b, rest) ∧ sequence rest = .ok blocks := by
  cases hdecode : decode bs with
  | error e =>
      rw [sequence] at h
      split at h
      · cases h
      · split at h
        · cases h
        · rename_i heq
          rw [hdecode] at heq
          cases heq
  | ok front =>
      obtain ⟨c, rest⟩ := front
      rw [sequence_of_decode hdecode] at h
      cases hrest : sequence rest with
      | error e => rw [hrest] at h; cases h
      | ok tail =>
          rw [hrest] at h
          cases h
          exact ⟨rest, rfl, hrest⟩

/-! ## Editing at a boundary -/

/-- Edits what stands behind the first `k` blocks. -/
def editBehind (edit : Bytes → Bytes) : (k : Nat) → Bytes → Bytes
  | 0, bs => edit bs
  | k + 1, bs =>
    match decode bs with
    | .error _ => bs
    | .ok (_, rest) => bs.take (bs.length - rest.length) ++ editBehind edit k rest

/-- Puts bytes in behind the first `k` blocks. -/
def insertBehind (form : Bytes) (k : Nat) (bs : Bytes) : Bytes :=
  editBehind (form ++ ·) k bs

/-- Puts bytes in the place of the block behind the first `k`. -/
def replaceBehind (form : Bytes) (k : Nat) (bs : Bytes) : Bytes :=
  editBehind
    (fun bs => match decode bs with
      | .error _ => bs
      | .ok (_, rest) => form ++ rest)
    k bs

theorem sequence_editBehind {edit : Bytes → Bytes} {new : List Block}
    (h : sequence bs = .ok blocks) (hk : k ≤ blocks.length)
    (hedit : ∀ tail, sequence tail = .ok (blocks.drop k) → sequence (edit tail) = .ok new) :
    sequence (editBehind edit k bs) = .ok (blocks.take k ++ new) := by
  induction k generalizing bs blocks with
  | zero => exact hedit bs h
  | succ k ih =>
      cases blocks with
      | nil => cases hk
      | cons b blocks =>
          obtain ⟨rest, hdecode, hrest⟩ := exists_of_sequence_eq_cons h
          have hlater := ih hrest (Nat.le_of_succ_le_succ hk) hedit
          have hfront := decode_append (decode_front hdecode) (editBehind edit k rest)
          simp only [editBehind, hdecode]
          rw [sequence_of_decode hfront, List.nil_append, hlater]
          rfl

theorem sequence_insertBehind {form : Bytes} (hform : decode form = .ok (b, []))
    (h : sequence bs = .ok blocks) (hk : k ≤ blocks.length) :
    sequence (insertBehind form k bs) = .ok (blocks.take k ++ b :: blocks.drop k) := by
  refine sequence_editBehind h hk fun tail htail => ?_
  rw [sequence_of_decode (decode_append hform tail), List.nil_append, htail]
  rfl

theorem sequence_replaceBehind {form : Bytes} {old : Block} (hform : decode form = .ok (b, []))
    (h : sequence bs = .ok blocks) (hold : blocks[k]? = some old) :
    sequence (replaceBehind form k bs) = .ok (blocks.take k ++ b :: blocks.drop (k + 1)) := by
  obtain ⟨hk, -⟩ := List.getElem?_eq_some_iff.mp hold
  refine sequence_editBehind h (Nat.le_of_lt hk) fun tail htail => ?_
  rw [List.drop_eq_getElem_cons hk] at htail
  obtain ⟨rest, hdecode, hrest⟩ := exists_of_sequence_eq_cons htail
  simp only [hdecode]
  rw [sequence_of_decode (decode_append hform rest), List.nil_append, hrest]
  rfl

/-! ## Blocks with one field changed -/

/-- The block `new` is `old` with `b`, in any of its forms, behind the first `k` fields. -/
structure Inserted (b : Block) (k : Nat) (old new : Block) : Prop where
  type_eq : new.type = old.type
  position : ∃ fields, old.children = .ok fields ∧ k ≤ fields.length
  value_eq : ∃ form, decode form = .ok (b, []) ∧ new.value = insertBehind form k old.value

/-- The block `new` is `old` with `b`, in any of its forms, in the place of its field `field`, which
stands behind `k` others. -/
structure Replaced (field b : Block) (k : Nat) (old new : Block) : Prop where
  type_eq : new.type = old.type
  position : ∃ fields, old.children = .ok fields ∧ fields[k]? = some field
  value_eq : ∃ form, decode form = .ok (b, []) ∧ new.value = replaceBehind form k old.value

variable {old new field : Block} {fields : List Block}

theorem Inserted.children (h : Inserted b k old new) (hfields : old.children = .ok fields) :
    k ≤ fields.length ∧ new.children = .ok (fields.take k ++ b :: fields.drop k) := by
  obtain ⟨fields', hfields', hk⟩ := h.position
  obtain ⟨form, hform, hvalue⟩ := h.value_eq
  cases hfields.symm.trans hfields'
  refine ⟨hk, ?_⟩
  rw [Block.children, hvalue]
  exact sequence_insertBehind hform hfields hk

theorem Replaced.children (h : Replaced field b k old new) (hfields : old.children = .ok fields) :
    fields = fields.take k ++ field :: fields.drop (k + 1)
      ∧ new.children = .ok (fields.take k ++ b :: fields.drop (k + 1)) := by
  obtain ⟨fields', hfields', hk⟩ := h.position
  obtain ⟨form, hform, hvalue⟩ := h.value_eq
  cases hfields.symm.trans hfields'
  obtain ⟨hlt, hget⟩ := List.getElem?_eq_some_iff.mp hk
  constructor
  · rw [← hget, ← List.drop_eq_getElem_cons hlt, List.take_append_drop]
  · rw [Block.children, hvalue]
    exact sequence_replaceBehind hform hfields hk

end Block

/-! ## Records of fields that were changed -/

/-- Where some fields are exchanged for others that leave the same, the record is the same; where
the others are refused, there is no record. -/
theorem foldlM_exchange {σ : Type} {absorb : σ → Block → Except Error σ} {refused : Bool}
    {e : Error} {before after : List Block} (old new : List Block) {s s' : σ}
    (hnew : ∀ s s', old.foldlM absorb s = .ok s' →
      new.foldlM absorb s = if refused then .error e else .ok s')
    (h : (before ++ (old ++ after)).foldlM absorb s = .ok s') :
    (before ++ (new ++ after)).foldlM absorb s = if refused then .error e else .ok s' := by
  simp only [List.foldlM_append] at h ⊢
  obtain ⟨s₁, hbefore, h⟩ := exists_of_bind_eq_ok h
  obtain ⟨s₂, hold, hafter⟩ := exists_of_bind_eq_ok h
  rw [hbefore, ok_bind, hnew s₁ s₂ hold]
  cases refused with
  | true => rfl
  | false => exact hafter

end NamedData.Tlv
