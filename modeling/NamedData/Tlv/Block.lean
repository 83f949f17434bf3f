import NamedData.Tlv.Number

/-!
# Type-length-value blocks

A block is a type and a value; on the wire a header of two variable-size numbers stands before the
value. Every reader of blocks goes through `Header.decode`.
-/

namespace NamedData

/-- No network packet is larger. -/
def maxPacketSize : Nat := 8800

/-- The largest size that a byte count can hold. -/
def maxSize : Nat := 0xFFFFFFFFFFFFFFFF

namespace Tlv

/-- Types up to 31 and odd types must not be skipped by a reader that does not know them. -/
def isCritical (type : UInt64) : Bool :=
  type ≤ 31 || type % 2 == 1

/-- The numbers before a value, and the bytes that they take. -/
structure Header where
  type : UInt64
  length : UInt64
  size : Nat
deriving DecidableEq, Repr

namespace Header

/-- The bytes of the header and its value together, without a limit. -/
def total (h : Header) : Nat :=
  h.size + h.length.toNat

/-- The same, kept within the largest byte count. -/
def saturatedTotal (h : Header) : Nat :=
  min h.total maxSize

/-- A header at the front of a byte string. -/
def decode (bs : Bytes) : Except Error Header :=
  match VarNumber.decode? bs with
  | none => .error (.truncated 1 bs.length)
  | some (type, typeSize) =>
    match VarNumber.decode? (bs.drop typeSize) with
    | none => .error (.truncated (typeSize + 1) bs.length)
    | some (length, lengthSize) => .ok ⟨type, length, typeSize + lengthSize⟩

theorem decode_size_pos {bs : Bytes} {h : Header} (hd : decode bs = .ok h) :
    0 < h.size ∧ h.size ≤ bs.length := by
  simp only [decode] at hd
  split at hd
  · cases hd
  · rename_i type typeSize htype
    split at hd
    · cases hd
    · rename_i length lengthSize hlength
      cases hd
      have h1 := VarNumber.decode?_pos htype
      have h2 := VarNumber.decode?_pos hlength
      simp only [List.length_drop] at h2
      exact ⟨by simp only; omega, by simp only; omega⟩

theorem decode_append {bs : Bytes} {h : Header} (hd : decode bs = .ok h) (tail : Bytes) :
    decode (bs ++ tail) = .ok h := by
  simp only [decode] at hd ⊢
  split at hd
  · cases hd
  · rename_i type typeSize htype
    obtain ⟨-, hle⟩ := VarNumber.decode?_pos htype
    rw [VarNumber.decode?_append htype tail]
    split at hd
    · cases hd
    · rename_i length lengthSize hlength
      have := VarNumber.decode?_append hlength tail
      simp only [List.drop_append_of_le_length hle, this]
      exact hd

/-- A header needs no more bytes than it takes. -/
theorem decode_take {bs : Bytes} {h : Header} {m : Nat} (hd : decode bs = .ok h)
    (hm : h.size ≤ m) : decode (bs.take m) = .ok h := by
  simp only [decode] at hd ⊢
  split at hd
  · cases hd
  · rename_i type typeSize htype
    split at hd
    · cases hd
    · rename_i length lengthSize hlength
      cases hd
      dsimp only at hm
      have hrest := VarNumber.decode?_take (m := m - typeSize) hlength (by omega)
      rw [VarNumber.decode?_take htype (by omega)]
      dsimp only
      rw [List.drop_take, hrest]

/-- Eighteen bytes hold a whole header. -/
theorem length_lt_of_decode_eq_error {bs : Bytes} {e : Error} (hd : decode bs = .error e) :
    bs.length < 18 := by
  simp only [decode] at hd
  split at hd
  · rename_i htype
    have := VarNumber.length_lt_of_decode?_eq_none htype
    omega
  · rename_i type typeSize htype
    split at hd
    · rename_i hlength
      have h1 := VarNumber.decode?_le htype
      have h2 := VarNumber.length_lt_of_decode?_eq_none hlength
      simp only [List.length_drop] at h2
      omega
    · cases hd

end Header

/-- The type and the whole size of the block at the front; `none` while bytes of it are missing. -/
def peek? (bs : Bytes) : Option (UInt64 × Nat) :=
  match Header.decode bs with
  | .error _ => none
  | .ok h => if bs.length < h.saturatedTotal then none else some (h.type, h.saturatedTotal)

/-- A type and a value. -/
structure Block where
  type : UInt64
  value : Bytes
deriving DecidableEq, Repr

/-- The size of a block of this type whose value has `length` bytes. -/
def blockSize (type : UInt64) (length : Nat) : Nat :=
  VarNumber.size type + VarNumber.size (UInt64.ofNat length) + length

namespace Block

def size (b : Block) : Nat :=
  blockSize b.type b.value.length

def encode (b : Block) : Bytes :=
  VarNumber.encode b.type ++ VarNumber.encode (UInt64.ofNat b.value.length) ++ b.value

/-- The block at the front of a byte string, and the bytes behind it. -/
def decode (bs : Bytes) : Except Error (Block × Bytes) :=
  match Header.decode bs with
  | .error e => .error e
  | .ok h =>
    if maxSize < h.total then .error (.packetTooLarge maxSize maxPacketSize)
    else match Bytes.cut? h.length.toNat (bs.drop h.size) with
      | none => .error (.truncated h.total bs.length)
      | some (value, rest) => .ok (⟨h.type, value⟩, rest)

theorem length_rest_lt {bs rest : Bytes} {b : Block} (h : decode bs = .ok (b, rest)) :
    rest.length < bs.length := by
  simp only [decode] at h
  split at h
  · cases h
  · rename_i header hheader
    have hpos := Header.decode_size_pos hheader
    split at h
    · cases h
    · split at h
      · cases h
      · rename_i value tail hcut
        obtain ⟨-, -, hrest⟩ := Bytes.cut?_eq_some_iff.1 hcut
        cases h
        simp only [hrest, List.length_drop]
        omega

/-- A byte string that is one block of the expected type and nothing else. -/
def decodeExact (bs : Bytes) (expected : UInt64) : Except Error Block :=
  match decode bs with
  | .error e => .error e
  | .ok (b, rest) =>
    if b.type ≠ expected then .error (.unexpectedType expected b.type)
    else if rest ≠ [] then .error (.invalidFragment (.afterBlock rest.length))
    else .ok b

/-- The blocks that a byte string consists of, one behind the other. -/
def sequence (bs : Bytes) : Except Error (List Block) :=
  if bs = [] then .ok []
  else match h : decode bs with
    | .error e => .error e
    | .ok (b, rest) =>
      have := length_rest_lt h
      (sequence rest).map (b :: ·)
termination_by bs.length

/-- The blocks inside the value. -/
def children (b : Block) : Except Error (List Block) :=
  sequence b.value

/-- The value read as a nonnegative integer. -/
def toNumber (b : Block) : Except Error UInt64 :=
  Nni.decode b.value

/-- A block whose value is a nonnegative integer. -/
def ofNumber (type v : UInt64) : Block :=
  ⟨type, Nni.encode v⟩

/-- The wire form of blocks one behind the other. -/
def encodeAll (bs : List Block) : Bytes :=
  bs.flatMap encode

@[simp] theorem length_encode (b : Block) : b.encode.length = b.size := by
  simp only [encode, size, blockSize, List.length_append, VarNumber.length_encode]

theorem size_pos (b : Block) : 0 < b.size := by
  have := VarNumber.size_pos b.type
  simp only [size, blockSize]
  omega

/-- Reading gives back the block that was written, and what stands behind it. -/
theorem decode_encode_append (b : Block) (rest : Bytes) (h : b.size ≤ maxSize) :
    decode (b.encode ++ rest) = .ok (b, rest) := by
  have hlt : b.value.length < UInt64.size := by
    have := VarNumber.size_pos b.type
    simp only [size, blockSize, maxSize] at h
    simp only [UInt64.size]
    omega
  have hlength : (UInt64.ofNat b.value.length).toNat = b.value.length :=
    UInt64.toNat_ofNat_of_lt' hlt
  have hheader : Header.decode (b.encode ++ rest)
      = .ok ⟨b.type, UInt64.ofNat b.value.length,
          VarNumber.size b.type + VarNumber.size (UInt64.ofNat b.value.length)⟩ := by
    have hdrop : (b.encode ++ rest).drop (VarNumber.size b.type)
        = VarNumber.encode (UInt64.ofNat b.value.length) ++ (b.value ++ rest) := by
      rw [← VarNumber.length_encode, encode, List.append_assoc, List.append_assoc, List.drop_left]
    have htype : VarNumber.decode? (b.encode ++ rest) = some (b.type, VarNumber.size b.type) := by
      rw [encode, List.append_assoc, List.append_assoc]
      exact VarNumber.decode?_encode_append b.type _
    simp only [Header.decode, htype, hdrop, VarNumber.decode?_encode_append]
  have hvalue : (b.encode ++ rest).drop
      (VarNumber.size b.type + VarNumber.size (UInt64.ofNat b.value.length)) = b.value ++ rest := by
    have : (VarNumber.encode b.type ++ VarNumber.encode (UInt64.ofNat b.value.length)).length
        = VarNumber.size b.type + VarNumber.size (UInt64.ofNat b.value.length) := by
      rw [List.length_append, VarNumber.length_encode, VarNumber.length_encode]
    rw [← this, encode, List.append_assoc, List.drop_left]
  have hcut := Bytes.cut?_append b.value rest
  simp only [size, blockSize] at h
  simp only [decode, hheader, hvalue, hlength, hcut, Header.total]
  rw [if_neg (by omega)]

/-- Bytes behind a block do not change it. -/
theorem decode_append {bs rest : Bytes} {b : Block} (h : decode bs = .ok (b, rest))
    (tail : Bytes) : decode (bs ++ tail) = .ok (b, rest ++ tail) := by
  simp only [decode] at h ⊢
  split at h
  · cases h
  · rename_i header hheader
    obtain ⟨-, hsize⟩ := Header.decode_size_pos hheader
    rw [Header.decode_append hheader tail]
    split at h
    · cases h
    · rename_i hmax
      simp only [if_neg hmax]
      split at h
      · cases h
      · rename_i value rest' hcut
        cases h
        obtain ⟨hle, hvalue, hrest⟩ := Bytes.cut?_eq_some_iff.1 hcut
        have hcut' : Bytes.cut? header.length.toNat ((bs ++ tail).drop header.size)
            = some (value, rest ++ tail) := by
          refine Bytes.cut?_eq_some_iff.2 ⟨?_, ?_, ?_⟩
          · simp only [List.length_drop, List.length_append] at hle ⊢
            omega
          · rw [List.drop_append_of_le_length hsize, List.take_append_of_le_length hle, hvalue]
          · rw [List.drop_append_of_le_length hsize, List.drop_append_of_le_length hle, hrest]
        rw [hcut']

theorem sequence_nil : sequence [] = .ok [] := by
  rw [sequence]
  exact if_pos rfl

theorem sequence_of_decode {bs rest : Bytes} {b : Block} (h : decode bs = .ok (b, rest)) :
    sequence bs = (sequence rest).map (b :: ·) := by
  have hne : bs ≠ [] := by
    rintro rfl
    exact Nat.not_lt_zero _ (length_rest_lt h)
  rw [sequence, if_neg hne]
  split
  · rename_i e he
    rw [h] at he
    cases he
  · rename_i b' rest' heq
    rw [h] at heq
    cases heq
    rfl

/-- Reading gives back all blocks that were written one behind the other. -/
theorem sequence_encodeAll (bs : List Block) (h : ∀ b ∈ bs, b.size ≤ maxSize) :
    sequence (encodeAll bs) = .ok bs := by
  induction bs with
  | nil => exact sequence_nil
  | cons b bs ih =>
    have hb := decode_encode_append b (encodeAll bs) (h b List.mem_cons_self)
    have hcons : encodeAll (b :: bs) = b.encode ++ encodeAll bs := List.flatMap_cons
    rw [hcons, sequence_of_decode hb, ih fun c hc => h c (List.mem_cons_of_mem b hc)]
    rfl

end Block

end Tlv

end NamedData
