/-!
# Byte strings

Cutting a byte string, and numbers in a fixed count of bytes, most significant first.
-/

namespace NamedData

/-- A byte string. -/
abbrev Bytes := List UInt8

namespace Bytes

/-- The first `n` bytes and the rest, when there are that many. -/
def cut? (n : Nat) (bs : Bytes) : Option (Bytes × Bytes) :=
  let head := bs.take n
  if head.length = n then some (head, bs.drop n) else none

/-- The low `n` bytes of a number, most significant first. -/
def bigEndian : (n : Nat) → (value : Nat) → Bytes
  | 0, _ => []
  | n + 1, value => bigEndian n (value / 256) ++ [UInt8.ofNat value]

/-- The number that bytes denote, most significant first. -/
def toNumber (bs : Bytes) : Nat :=
  bs.foldl (fun acc b => acc * 256 + b.toNat) 0

/-- The UTF-8 bytes of a character sequence. -/
def ofChars (cs : List Char) : Bytes :=
  cs.flatMap String.utf8EncodeChar

/-- The UTF-8 bytes of a text. -/
def ofText (text : String) : Bytes :=
  ofChars text.toList

theorem cut?_eq_some_iff {n : Nat} {bs head rest : Bytes} :
    cut? n bs = some (head, rest) ↔ n ≤ bs.length ∧ head = bs.take n ∧ rest = bs.drop n := by
  simp only [cut?, List.length_take]
  by_cases h : n ≤ bs.length
  · rw [if_pos (by omega)]
    simp [h, eq_comm]
  · rw [if_neg (by omega)]
    simp [h]

theorem cut?_eq_none_iff {n : Nat} {bs : Bytes} : cut? n bs = none ↔ bs.length < n := by
  simp only [cut?, List.length_take]
  split
  · simp only [reduceCtorEq, false_iff]
    omega
  · simp only [true_iff]
    omega

@[simp] theorem length_bigEndian (n value : Nat) : (bigEndian n value).length = n := by
  induction n generalizing value with
  | zero => rfl
  | succ n ih => simp only [bigEndian, List.length_append, ih, List.length_singleton]

theorem toNumber_concat (bs : Bytes) (b : UInt8) :
    toNumber (bs ++ [b]) = toNumber bs * 256 + b.toNat := by
  simp only [toNumber, List.foldl_append, List.foldl_cons, List.foldl_nil]

/-- Reading gives back what fits in the bytes. -/
theorem toNumber_bigEndian (n value : Nat) :
    toNumber (bigEndian n value) = value % Nat.pow 256 n := by
  induction n generalizing value with
  | zero => exact (Nat.mod_one value).symm
  | succ n ih =>
    have hpow : Nat.pow 256 (n + 1) = 256 * Nat.pow 256 n := Nat.mul_comm _ _
    rw [bigEndian, toNumber_concat, ih, hpow, Nat.mod_mul, UInt8.toNat_ofNat']
    omega

theorem toNumber_bigEndian_of_lt {n value : Nat} (h : value < Nat.pow 256 n) :
    toNumber (bigEndian n value) = value := by
  rw [toNumber_bigEndian, Nat.mod_eq_of_lt h]

theorem cut?_append (xs ys : Bytes) : cut? xs.length (xs ++ ys) = some (xs, ys) := by
  refine cut?_eq_some_iff.2 ⟨?_, ?_, ?_⟩
  · simp only [List.length_append]
    omega
  · exact List.take_left.symm
  · exact List.drop_left.symm

end Bytes

end NamedData
