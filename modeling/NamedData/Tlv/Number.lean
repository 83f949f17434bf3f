import NamedData.Bytes
import NamedData.Error

/-!
# Numbers on the wire

Variable-size numbers, which carry types and lengths in one, three, five or nine bytes, and
nonnegative integers, whose one, two, four or eight bytes are counted by an enclosing length.
-/

namespace NamedData.Tlv

namespace VarNumber

/-- The bytes that the shortest form takes. -/
def size (v : UInt64) : Nat :=
  if v < 0xFD then 1 else if v ≤ 0xFFFF then 3 else if v ≤ 0xFFFFFFFF then 5 else 9

/-- The shortest form. -/
def encode (v : UInt64) : Bytes :=
  if v < 0xFD then [v.toUInt8]
  else if v ≤ 0xFFFF then 0xFD :: Bytes.bigEndian 2 v.toNat
  else if v ≤ 0xFFFFFFFF then 0xFE :: Bytes.bigEndian 4 v.toNat
  else 0xFF :: Bytes.bigEndian 8 v.toNat

/-- A number of `width` bytes behind its mark, and the bytes that both take. -/
def decodeWide? (width : Nat) (rest : Bytes) : Option (UInt64 × Nat) :=
  (rest.cut? width).map fun (digits, _) => (UInt64.ofNat digits.toNumber, width + 1)

/-- A number in any of the four forms, and the bytes it takes; `none` while some are missing. -/
def decode? : Bytes → Option (UInt64 × Nat)
  | [] => none
  | first :: rest =>
    if first = 0xFD then decodeWide? 2 rest
    else if first = 0xFE then decodeWide? 4 rest
    else if first = 0xFF then decodeWide? 8 rest
    else some (first.toUInt64, 1)

theorem decodeWide?_pos {width : Nat} {rest : Bytes} {v : UInt64} {n : Nat}
    (h : decodeWide? width rest = some (v, n)) : 0 < n ∧ n ≤ rest.length + 1 := by
  obtain ⟨⟨digits, tail⟩, hcut, heq⟩ := Option.map_eq_some_iff.1 h
  obtain ⟨hle, -, -⟩ := Bytes.cut?_eq_some_iff.1 hcut
  cases heq
  omega

theorem decode?_pos {bs : Bytes} {v : UInt64} {n : Nat} (h : decode? bs = some (v, n)) :
    0 < n ∧ n ≤ bs.length := by
  cases bs with
  | nil => simp [decode?] at h
  | cons first rest =>
    simp only [decode?] at h
    split at h
    · exact decodeWide?_pos h
    · split at h
      · exact decodeWide?_pos h
      · split at h
        · exact decodeWide?_pos h
        · cases h
          simp

@[simp] theorem length_encode (v : UInt64) : (encode v).length = size v := by
  simp only [encode, size]
  split
  · rfl
  · split
    · simp
    · split <;> simp

theorem size_pos (v : UInt64) : 0 < size v := by
  simp only [size]
  split
  · omega
  · split
    · omega
    · split <;> omega

theorem decodeWide?_bigEndian {width : Nat} {v : UInt64} (h : v.toNat < Nat.pow 256 width)
    (tail : Bytes) :
    decodeWide? width (Bytes.bigEndian width v.toNat ++ tail) = some (v, width + 1) := by
  have hcut := Bytes.cut?_append (Bytes.bigEndian width v.toNat) tail
  rw [Bytes.length_bigEndian] at hcut
  simp only [decodeWide?, hcut, Option.map_some, Bytes.toNumber_bigEndian_of_lt h,
    UInt64.ofNat_toNat]

/-- Reading gives back what was written, whatever stands behind it. -/
theorem decode?_encode_append (v : UInt64) (tail : Bytes) :
    decode? (encode v ++ tail) = some (v, size v) := by
  simp only [encode, size]
  split
  · rename_i h
    have hlt : v.toNat < 0xFD := UInt64.lt_iff_toNat_lt.1 h
    have hne : ∀ n, 0xFD ≤ n → n < 256 → v.toUInt8 ≠ UInt8.ofNat n := by
      intro n hn hn' heq
      have := congrArg UInt8.toNat heq
      simp only [UInt64.toNat_toUInt8, UInt8.toNat_ofNat'] at this
      omega
    have hback : v.toUInt8.toUInt64 = v := by
      apply UInt64.toNat_inj.1
      simp only [UInt8.toNat_toUInt64, UInt64.toNat_toUInt8]
      omega
    have h1 : v.toUInt8 ≠ 0xFD := hne 0xFD (by omega) (by omega)
    have h2 : v.toUInt8 ≠ 0xFE := hne 0xFE (by omega) (by omega)
    have h3 : v.toUInt8 ≠ 0xFF := hne 0xFF (by omega) (by omega)
    simp only [List.cons_append, List.nil_append, decode?]
    rw [if_neg h1, if_neg h2, if_neg h3, hback]
  · split
    · rename_i h
      have hle : v.toNat ≤ 0xFFFF := UInt64.le_iff_toNat_le.1 h
      have hlt : v.toNat < Nat.pow 256 2 := Nat.lt_succ_of_le hle
      exact decodeWide?_bigEndian hlt tail
    · split
      · rename_i h
        have hle : v.toNat ≤ 0xFFFFFFFF := UInt64.le_iff_toNat_le.1 h
        have hlt : v.toNat < Nat.pow 256 4 := Nat.lt_succ_of_le hle
        exact decodeWide?_bigEndian hlt tail
      · have hlt : v.toNat < Nat.pow 256 8 := UInt64.toNat_lt v
        exact decodeWide?_bigEndian hlt tail

theorem decodeWide?_append {width : Nat} {bs : Bytes} {v : UInt64} {n : Nat}
    (h : decodeWide? width bs = some (v, n)) (tail : Bytes) :
    decodeWide? width (bs ++ tail) = some (v, n) := by
  obtain ⟨⟨digits, rest⟩, hcut, heq⟩ := Option.map_eq_some_iff.1 h
  obtain ⟨hle, hdigits, -⟩ := Bytes.cut?_eq_some_iff.1 hcut
  refine Option.map_eq_some_iff.2 ⟨(digits, (bs ++ tail).drop width), ?_, heq⟩
  refine Bytes.cut?_eq_some_iff.2 ⟨?_, ?_, rfl⟩
  · simp only [List.length_append]
    omega
  · rw [hdigits, List.take_append_of_le_length hle]

/-- Bytes behind a number do not change it. -/
theorem decode?_append {bs : Bytes} {v : UInt64} {n : Nat} (h : decode? bs = some (v, n))
    (tail : Bytes) : decode? (bs ++ tail) = some (v, n) := by
  cases bs with
  | nil => cases h
  | cons first rest =>
    simp only [List.cons_append, decode?] at h ⊢
    split at h
    · rename_i h1
      rw [if_pos h1]
      exact decodeWide?_append h tail
    · rename_i h1
      rw [if_neg h1]
      split at h
      · rename_i h2
        rw [if_pos h2]
        exact decodeWide?_append h tail
      · rename_i h2
        rw [if_neg h2]
        split at h
        · rename_i h3
          rw [if_pos h3]
          exact decodeWide?_append h tail
        · rename_i h3
          rw [if_neg h3]
          exact h

/-- The first byte alone decides which form a number has. -/
theorem decode?_form (first : UInt8) :
    (∀ rest, decode? (first :: rest) = some (first.toUInt64, 1))
      ∨ ∃ width, width ≤ 8 ∧ ∀ rest, decode? (first :: rest) = decodeWide? width rest := by
  by_cases h1 : first = 0xFD
  · exact .inr ⟨2, by omega, fun rest => by rw [decode?, if_pos h1]⟩
  · by_cases h2 : first = 0xFE
    · exact .inr ⟨4, by omega, fun rest => by rw [decode?, if_neg h1, if_pos h2]⟩
    · by_cases h3 : first = 0xFF
      · exact .inr ⟨8, by omega, fun rest => by rw [decode?, if_neg h1, if_neg h2, if_pos h3]⟩
      · exact .inl fun rest => by rw [decode?, if_neg h1, if_neg h2, if_neg h3]

theorem decodeWide?_take {width : Nat} {bs : Bytes} {v : UInt64} {n m : Nat}
    (h : decodeWide? width bs = some (v, n)) (hm : n ≤ m + 1) :
    decodeWide? width (bs.take m) = some (v, n) := by
  obtain ⟨⟨digits, rest⟩, hcut, heq⟩ := Option.map_eq_some_iff.1 h
  obtain ⟨hle, hdigits, -⟩ := Bytes.cut?_eq_some_iff.1 hcut
  cases heq
  refine Option.map_eq_some_iff.2 ⟨(digits, (bs.take m).drop width), ?_, rfl⟩
  refine Bytes.cut?_eq_some_iff.2 ⟨?_, ?_, rfl⟩
  · simp only [List.length_take]
    omega
  · rw [hdigits, List.take_take, Nat.min_eq_left (by omega)]

/-- A number needs no more bytes than it takes. -/
theorem decode?_take {bs : Bytes} {v : UInt64} {n m : Nat} (h : decode? bs = some (v, n))
    (hm : n ≤ m) : decode? (bs.take m) = some (v, n) := by
  cases bs with
  | nil => cases h
  | cons first rest =>
    obtain ⟨k, rfl⟩ : ∃ k, m = k + 1 := ⟨m - 1, by have := decode?_pos h; omega⟩
    rw [List.take_succ_cons]
    rcases decode?_form first with hplain | ⟨width, -, hwide⟩
    · rw [hplain] at h ⊢
      exact h
    · rw [hwide] at h ⊢
      exact decodeWide?_take h hm

theorem decode?_le {bs : Bytes} {v : UInt64} {n : Nat} (h : decode? bs = some (v, n)) :
    n ≤ 9 := by
  cases bs with
  | nil => cases h
  | cons first rest =>
    rcases decode?_form first with hplain | ⟨width, hwidth, hwide⟩
    · rw [hplain] at h
      cases h
      omega
    · rw [hwide] at h
      obtain ⟨_, -, heq⟩ := Option.map_eq_some_iff.1 h
      cases heq
      omega

/-- Nine bytes hold a whole number. -/
theorem length_lt_of_decode?_eq_none {bs : Bytes} (h : decode? bs = none) : bs.length < 9 := by
  cases bs with
  | nil => simp
  | cons first rest =>
    rcases decode?_form first with hplain | ⟨width, hwidth, hwide⟩
    · rw [hplain] at h
      cases h
    · rw [hwide] at h
      have hcut : Bytes.cut? width rest = none := Option.map_eq_none_iff.1 h
      have hlt := Bytes.cut?_eq_none_iff.1 hcut
      simp only [List.length_cons]
      omega

end VarNumber

namespace Nni

/-- The bytes that the shortest form takes. -/
def size (v : UInt64) : Nat :=
  if v ≤ 0xFF then 1 else if v ≤ 0xFFFF then 2 else if v ≤ 0xFFFFFFFF then 4 else 8

/-- The shortest form. -/
def encode (v : UInt64) : Bytes :=
  Bytes.bigEndian (size v) v.toNat

/-- A nonnegative integer has one, two, four or eight bytes. -/
def decode (bs : Bytes) : Except Error UInt64 :=
  if bs.length ∈ [1, 2, 4, 8] then .ok (UInt64.ofNat bs.toNumber)
  else .error (.invalidNumber bs.length)

@[simp] theorem length_encode (v : UInt64) : (encode v).length = size v :=
  Bytes.length_bigEndian (size v) v.toNat

theorem lt_pow_size (v : UInt64) : v.toNat < Nat.pow 256 (size v) := by
  simp only [size]
  split
  · rename_i h
    exact Nat.lt_succ_of_le (UInt64.le_iff_toNat_le.1 h)
  · split
    · rename_i h
      exact Nat.lt_succ_of_le (UInt64.le_iff_toNat_le.1 h)
    · split
      · rename_i h
        exact Nat.lt_succ_of_le (UInt64.le_iff_toNat_le.1 h)
      · exact UInt64.toNat_lt v

theorem size_mem (v : UInt64) : size v ∈ [1, 2, 4, 8] := by
  simp only [size]
  split
  · simp
  · split
    · simp
    · split <;> simp

theorem decode_encode (v : UInt64) : decode (encode v) = .ok v := by
  simp only [decode, length_encode]
  rw [if_pos (size_mem v), encode, Bytes.toNumber_bigEndian_of_lt (lt_pow_size v),
    UInt64.ofNat_toNat]

end Nni

end NamedData.Tlv
