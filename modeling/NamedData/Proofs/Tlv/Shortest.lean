import NamedData.Proofs.Tlv.Fields

/-!
# Shortest forms

What is read took at least as many bytes as it is written in: numbers, blocks and sequences of
blocks. What fields leave in a record is then no larger than the fields were.
-/

namespace NamedData

theorem Bytes.toNumber_lt (bs : Bytes) : bs.toNumber < 256 ^ bs.length := by
  induction bs using List.reverseRecOn with
  | nil => decide
  | append_singleton bs b ih =>
      have hb := b.toNat_lt
      rw [toNumber_concat, List.length_append, List.length_singleton, pow_succ]
      omega

theorem Bytes.ofNat_toNumber_lt (bs : Bytes) :
    (UInt64.ofNat bs.toNumber).toNat < 256 ^ bs.length := by
  rw [UInt64.toNat_ofNat']
  exact Nat.lt_of_le_of_lt (Nat.mod_le _ _) bs.toNumber_lt

/-- Eight bytes fit in 64 bits. -/
theorem Bytes.toNat_ofNat_toNumber {bs : Bytes} (h : bs.length ≤ 8) :
    (UInt64.ofNat bs.toNumber).toNat = bs.toNumber := by
  have hpow : 256 ^ bs.length ≤ 256 ^ 8 := Nat.pow_le_pow_right (by decide) h
  exact UInt64.toNat_ofNat_of_lt' (Nat.lt_of_lt_of_le bs.toNumber_lt hpow)

namespace Tlv

/-! ## Numbers -/

namespace VarNumber

theorem size_mono {v w : UInt64} (h : v ≤ w) : size v ≤ size w := by
  simp only [size, UInt64.lt_iff_toNat_lt, UInt64.le_iff_toNat_le] at h ⊢
  split_ifs <;> omega

theorem size_le (v : UInt64) : size v ≤ 9 := by
  simp only [size]
  split_ifs <;> omega

theorem size_ofNat_le {n : Nat} (h : n ≤ 0xFFFF) : size (UInt64.ofNat n) ≤ 3 := by
  have hle : UInt64.ofNat n ≤ 0xFFFF := by
    rw [UInt64.le_iff_toNat_le, UInt64.toNat_ofNat_of_lt' (Nat.lt_of_le_of_lt h (by decide))]
    exact h
  exact size_mono hle

theorem size_le_of_decodeWide? {width : Nat} {rest : Bytes} {v : UInt64} {n : Nat}
    (hwidth : width = 2 ∨ width = 4 ∨ width = 8) (h : decodeWide? width rest = some (v, n)) :
    size v ≤ n := by
  obtain ⟨⟨digits, tail⟩, hcut, heq⟩ := Option.map_eq_some_iff.mp h
  cases heq
  obtain ⟨hle, hdigits, -⟩ := Bytes.cut?_eq_some_iff.mp hcut
  have hlength : digits.length = width := by
    rw [hdigits, List.length_take, Nat.min_eq_left hle]
  have hlt := hlength ▸ digits.ofNat_toNumber_lt
  have hsize (limit : UInt64) (hlimit : (UInt64.ofNat digits.toNumber).toNat ≤ limit.toNat) :
      size (UInt64.ofNat digits.toNumber) ≤ size limit :=
    size_mono (UInt64.le_iff_toNat_le.mpr hlimit)
  rcases hwidth with rfl | rfl | rfl
  · exact hsize 0xFFFF (Nat.le_of_lt_succ hlt)
  · exact hsize 0xFFFFFFFF (Nat.le_of_lt_succ hlt)
  · exact size_le _

/-- No form of a number is shorter than the one in which it is written. -/
theorem size_le_of_decode? {bs : Bytes} {v : UInt64} {n : Nat} (h : decode? bs = some (v, n)) :
    size v ≤ n := by
  cases bs with
  | nil => cases h
  | cons first rest =>
      simp only [decode?] at h
      split at h
      · exact size_le_of_decodeWide? (.inl rfl) h
      · split at h
        · exact size_le_of_decodeWide? (.inr (.inl rfl)) h
        · split at h
          · exact size_le_of_decodeWide? (.inr (.inr rfl)) h
          · rename_i h1 h2 h3
            cases h
            have hplain : first.toUInt64 ≤ 0xFC := by
              have hlt := first.toNat_lt
              have h1 : first.toNat ≠ 0xFD := fun heq => h1 (UInt8.toNat_inj.mp heq)
              have h2 : first.toNat ≠ 0xFE := fun heq => h2 (UInt8.toNat_inj.mp heq)
              have h3 : first.toNat ≠ 0xFF := fun heq => h3 (UInt8.toNat_inj.mp heq)
              rw [UInt64.le_iff_toNat_le, UInt8.toNat_toUInt64]
              exact (show first.toNat ≤ 0xFC by omega)
            exact size_mono hplain

end VarNumber

namespace Nni

theorem size_mono {v w : UInt64} (h : v ≤ w) : size v ≤ size w := by
  simp only [size, UInt64.le_iff_toNat_le] at h ⊢
  split_ifs <;> omega

theorem size_le (v : UInt64) : size v ≤ 8 := by
  have h := size_mem v
  simp only [List.mem_cons, List.not_mem_nil, or_false] at h
  omega

theorem size_le_of_decode {bs : Bytes} {v : UInt64} (h : decode bs = .ok v) :
    size v ≤ bs.length := by
  unfold decode at h
  split at h
  · rename_i hlength
    cases h
    have hlt := bs.ofNat_toNumber_lt
    have hsize (limit : UInt64) (hlimit : (UInt64.ofNat bs.toNumber).toNat ≤ limit.toNat) :
        size (UInt64.ofNat bs.toNumber) ≤ size limit :=
      size_mono (UInt64.le_iff_toNat_le.mpr hlimit)
    simp only [List.mem_cons, List.not_mem_nil, or_false] at hlength
    rcases hlength with hlength | hlength | hlength | hlength <;> rw [hlength] at hlt ⊢
    · exact hsize 0xFF (Nat.le_of_lt_succ hlt)
    · exact hsize 0xFFFF (Nat.le_of_lt_succ hlt)
    · exact hsize 0xFFFFFFFF (Nat.le_of_lt_succ hlt)
    · exact hsize 0xFFFFFFFFFFFFFFFF (Nat.le_of_lt_succ hlt)
  · cases h

end Nni

/-! ## Blocks -/

theorem Header.size_le_of_decode {bs : Bytes} {h : Header} (hd : decode bs = .ok h) :
    VarNumber.size h.type + VarNumber.size h.length ≤ h.size := by
  unfold decode at hd
  split at hd
  · cases hd
  · rename_i htype
    split at hd
    · cases hd
    · rename_i hlength
      cases hd
      have := VarNumber.size_le_of_decode? htype
      have := VarNumber.size_le_of_decode? hlength
      dsimp only
      omega

namespace Block

variable {bs rest : Bytes} {b : Block}

theorem length_encodeAll_nil : (encodeAll []).length = 0 := rfl

theorem length_encodeAll_cons (b : Block) (bs : List Block) :
    (encodeAll (b :: bs)).length = b.size + (encodeAll bs).length := by
  rw [length_encodeAll, length_encodeAll, List.map_cons, List.sum_cons]

/-- A block and what stands behind it are no larger than the bytes they were read from. -/
theorem size_add_le_of_decode (h : decode bs = .ok (b, rest)) :
    b.size + rest.length ≤ bs.length := by
  unfold decode at h
  split at h
  · cases h
  · rename_i header hheader
    have hsizes := Header.size_le_of_decode hheader
    have hfront := Header.decode_size_pos hheader
    split at h
    · cases h
    · split at h
      · cases h
      · rename_i value tail hcut
        cases h
        obtain ⟨hle, hvalue, htail⟩ := Bytes.cut?_eq_some_iff.mp hcut
        have hlength : value.length = header.length.toNat := by
          rw [hvalue, List.length_take, Nat.min_eq_left hle]
        rw [List.length_drop] at hle
        rw [htail, List.length_drop, List.length_drop, size, blockSize]
        dsimp only
        rw [hlength, UInt64.ofNat_toNat]
        omega

theorem size_le_of_decodeExact {type : UInt64} (h : decodeExact bs type = .ok b) :
    b.size ≤ bs.length := by
  unfold decodeExact at h
  split at h
  · cases h
  · rename_i b' rest hdecode
    have hsize := size_add_le_of_decode hdecode
    split at h
    · cases h
    · split at h
      · cases h
      · cases h
        omega

theorem length_encodeAll_le_of_sequence {blocks : List Block} (h : sequence bs = .ok blocks) :
    (encodeAll blocks).length ≤ bs.length := by
  fun_induction sequence bs generalizing blocks with
  | case1 => cases h; exact Nat.zero_le _
  | case2 bs hne e hdecode => cases h
  | case3 bs hne b rest hdecode hlt ih =>
      cases hrest : sequence rest with
      | error e => rw [hrest] at h; cases h
      | ok tail =>
          rw [hrest] at h
          cases h
          have hsize := size_add_le_of_decode hdecode
          have := ih hrest
          rw [length_encodeAll_cons]
          omega

theorem length_encodeAll_le_of_children {blocks : List Block} (h : b.children = .ok blocks) :
    (encodeAll blocks).length ≤ b.value.length :=
  length_encodeAll_le_of_sequence h

theorem size_ofNumber (type v : UInt64) :
    (ofNumber type v).size = VarNumber.size type + 1 + Nni.size v := by
  have hlength : VarNumber.size (UInt64.ofNat (Nni.size v)) = 1 := by
    have hmem := Nni.size_mem v
    simp only [List.mem_cons, List.not_mem_nil, or_false] at hmem
    rcases hmem with h | h | h | h <;> rw [h] <;> decide
  simp only [ofNumber, size, blockSize, Nni.length_encode, hlength]

theorem size_ofNumber_le {v : UInt64} (h : b.toNumber = .ok v) :
    (ofNumber b.type v).size ≤ b.size := by
  have hv : Nni.size v ≤ b.value.length := Nni.size_le_of_decode h
  have hpos := VarNumber.size_pos (UInt64.ofNat b.value.length)
  rw [size_ofNumber, size, blockSize]
  omega

theorem size_nil_le (b : Block) : (⟨b.type, []⟩ : Block).size ≤ b.size := by
  have hempty : VarNumber.size (UInt64.ofNat 0) = 1 := by decide
  have hlength := VarNumber.size_pos (UInt64.ofNat b.value.length)
  simp only [size, blockSize, List.length_nil, hempty]
  omega

theorem length_encodeAll_append (bs cs : List Block) :
    (encodeAll (bs ++ cs)).length = (encodeAll bs).length + (encodeAll cs).length := by
  simp only [encodeAll, List.flatMap_append, List.length_append]

theorem length_encodeAll_some {α : Type} (toBlock : α → Block) (a : α) :
    (encodeAll ((some a).toList.map toBlock)).length = (toBlock a).size := by
  simp [length_encodeAll]

theorem length_encodeAll_optional_le {α : Type} {toBlock : α → Block} {size : Nat}
    (h : ∀ a, (toBlock a).size ≤ size) (o : Option α) :
    (encodeAll (o.toList.map toBlock)).length ≤ if o.isSome then size else 0 := by
  cases o with
  | none => simp [length_encodeAll]
  | some a =>
      rw [length_encodeAll_some]
      exact h a

theorem size_le_add (b : Block) : b.size ≤ VarNumber.size b.type + 9 + b.value.length := by
  have := VarNumber.size_le (UInt64.ofNat b.value.length)
  rw [size, blockSize]
  omega

end Block

/-! ## Records -/

/-- What every field leaves true of a record is true of the record with all its fields. -/
theorem foldlM_induction {σ : Type} {absorb : σ → Block → Except Error σ} {P : σ → Prop}
    (habsorb : ∀ {s s' b}, P s → absorb s b = .ok s' → P s') {s s' : σ} {blocks : List Block}
    (hs : P s) (h : blocks.foldlM absorb s = .ok s') : P s' := by
  induction blocks generalizing s with
  | nil => cases h; exact hs
  | cons b rest ih =>
      rw [List.foldlM_cons] at h
      obtain ⟨s₁, hfirst, h⟩ := exists_of_bind_eq_ok h
      exact ih (habsorb hs hfirst) h

/-- A record does not outgrow the fields that it takes in. -/
theorem foldlM_le {σ : Type} {absorb : σ → Block → Except Error σ} (bulk : σ → Nat)
    (habsorb : ∀ {s s' b}, absorb s b = .ok s' → bulk s' ≤ bulk s + b.size) {s s' : σ}
    {blocks : List Block} (h : blocks.foldlM absorb s = .ok s') :
    bulk s' ≤ bulk s + (Block.encodeAll blocks).length := by
  induction blocks generalizing s with
  | nil => cases h; exact Nat.le_add_right _ _
  | cons b rest ih =>
      rw [List.foldlM_cons] at h
      obtain ⟨s₁, hfirst, h⟩ := exists_of_bind_eq_ok h
      have hb := habsorb hfirst
      have hrest := ih h
      rw [Block.length_encodeAll_cons]
      omega

end Tlv

end NamedData
