import Mathlib
import NamedData.Name.Hash

/-!
# The check value as a remainder

Bits are the coefficients of a polynomial over the field of two elements. The check value of IEEE
802.3 is the complement of the remainder that the message leaves, with 32 zeros behind it and its
first 32 bits complemented, on division by the generator. The register of `Crc32` holds that
remainder.
-/

namespace NamedData.Crc32

open Polynomial

/-! ## Bits as polynomials -/

/-- The polynomial with these coefficients, that of the highest power first. -/
noncomputable def polynomial : List Bool → (ZMod 2)[X]
  | [] => 0
  | b :: rest => C (if b then 1 else 0) * X ^ rest.length + polynomial rest

/-- The bits of a number, the least significant first. -/
def bits (width n : Nat) : List Bool :=
  (List.range width).map n.testBit

variable {as bs : List Bool} {width n : Nat}

theorem polynomial_append (as bs : List Bool) :
    polynomial (as ++ bs) = polynomial as * X ^ bs.length + polynomial bs := by
  induction as with
  | nil => simp [polynomial]
  | cons b as ih =>
      rw [List.cons_append, polynomial, polynomial, ih, List.length_append, pow_add]
      ring

theorem polynomial_replicate_false (n : Nat) : polynomial (List.replicate n false) = 0 := by
  induction n with
  | zero => rfl
  | succ n ih => simp [List.replicate_succ, polynomial, ih]

theorem coefficient_xor (a b : Bool) :
    (if a ^^ b then 1 else 0 : ZMod 2) = (if a then 1 else 0) + if b then 1 else 0 := by
  cases a <;> cases b <;> decide

theorem polynomial_zipWith_xor (h : as.length = bs.length) :
    polynomial (List.zipWith xor as bs) = polynomial as + polynomial bs := by
  induction as generalizing bs with
  | nil =>
      cases bs with
      | nil => simp [polynomial]
      | cons b bs => cases h
  | cons a as ih =>
      cases bs with
      | nil => cases h
      | cons b bs =>
          have hlength : as.length = bs.length := Nat.succ.inj h
          have hzip : (List.zipWith xor as bs).length = bs.length := by simp [hlength]
          rw [List.zipWith_cons_cons, polynomial, polynomial, polynomial, ih hlength, hzip, hlength,
            coefficient_xor, C_add]
          ring

theorem polynomial_complement (bs : List Bool) :
    polynomial (bs.map not) = polynomial bs + polynomial (List.replicate bs.length true) := by
  have hxor : bs.map not = List.zipWith xor bs (List.replicate bs.length true) := by
    induction bs with
    | nil => rfl
    | cons b bs ih => simp [List.replicate_succ, ih]
  rw [hxor, polynomial_zipWith_xor (List.length_replicate).symm]

theorem degree_polynomial_lt (bs : List Bool) : (polynomial bs).degree < bs.length := by
  induction bs with
  | nil => simp [polynomial]
  | cons b bs ih =>
      have hpower : (bs.length : WithBot ℕ) < (b :: bs).length := by
        exact_mod_cast Nat.lt_succ_self bs.length
      refine (degree_add_le _ _).trans_lt (max_lt ?_ (ih.trans hpower))
      exact (degree_C_mul_X_pow_le _ _).trans_lt hpower

theorem polynomial_inj (hlength : as.length = bs.length) (h : polynomial as = polynomial bs) :
    as = bs := by
  induction as generalizing bs with
  | nil => exact (List.length_eq_zero_iff.mp hlength.symm).symm
  | cons a as ih =>
      cases bs with
      | nil => cases hlength
      | cons b bs =>
          have hlength : as.length = bs.length := Nat.succ.inj hlength
          -- Only the first bit has a part in the coefficient of the highest power.
          have hlead (c : Bool) (cs : List Bool) :
              (polynomial (c :: cs)).coeff cs.length = if c then 1 else 0 := by
            rw [polynomial, coeff_add, coeff_C_mul_X_pow, if_pos rfl,
              coeff_eq_zero_of_degree_lt (degree_polynomial_lt cs), add_zero]
          have hfirst : a = b := by
            have hcoeff := hlead a as
            rw [h, hlength, hlead b bs] at hcoeff
            cases a <;> cases b <;> simp at hcoeff ⊢
          rw [hfirst, polynomial, polynomial, hlength] at h
          rw [hfirst, ih hlength (add_left_cancel h)]

/-! ## Bits of numbers -/

@[simp] theorem length_bits (width n : Nat) : (bits width n).length = width := by
  simp [bits]

theorem bits_xor (width m n : Nat) :
    bits width (m ^^^ n) = List.zipWith xor (bits width m) (bits width n) := by
  apply List.ext_getElem
  · simp
  · intro i hi hi'
    simp [bits, Nat.testBit_xor]

theorem bits_add (low high n : Nat) :
    bits (low + high) n = bits low n ++ bits high (n >>> low) := by
  simp only [bits, List.range_add, List.map_append, List.map_map]
  congr 1
  refine List.map_congr_left fun i _ => ?_
  rw [Function.comp_apply, Nat.testBit_shiftRight]

theorem bits_zero (width : Nat) : bits width 0 = List.replicate width false := by
  apply List.ext_getElem
  · simp
  · intro i hi hi'
    simp [bits]

theorem bits_all (width : Nat) : bits width (2 ^ width - 1) = List.replicate width true := by
  apply List.ext_getElem
  · simp
  · intro i hi hi'
    rw [length_bits] at hi
    simp [bits, Nat.testBit_two_pow_sub_one, hi]

/-- No bits stand behind those of a number that is small enough. -/
theorem polynomial_bits_add {low : Nat} (h : n < 2 ^ low) (high : Nat) :
    polynomial (bits (low + high) n) = polynomial (bits low n) * X ^ high := by
  rw [bits_add, Nat.shiftRight_eq_div_pow, Nat.div_eq_of_lt h, bits_zero, polynomial_append,
    polynomial_replicate_false, List.length_replicate, add_zero]

theorem eq_of_bits_eq {v w : UInt32} (h : bits 32 v.toNat = bits 32 w.toNat) : v = w := by
  apply UInt32.toNat_inj.mp
  apply Nat.eq_of_testBit_eq
  intro i
  by_cases hi : i < 32
  · exact List.map_inj_left.mp h i (List.mem_range.mpr hi)
  · have hpow : 2 ^ 32 ≤ 2 ^ i := Nat.pow_le_pow_right (by decide) (Nat.le_of_not_lt hi)
    rw [Nat.testBit_eq_false_of_lt (v.toNat_lt.trans_le hpow),
      Nat.testBit_eq_false_of_lt (w.toNat_lt.trans_le hpow)]

/-! ## The generator -/

/-- The generator polynomial of IEEE 802.3. -/
noncomputable def generator : (ZMod 2)[X] :=
  X ^ 32 + X ^ 26 + X ^ 23 + X ^ 22 + X ^ 16 + X ^ 12 + X ^ 11 + X ^ 10 + X ^ 8 + X ^ 7 + X ^ 5
    + X ^ 4 + X ^ 2 + X + 1

/-- The number in a shift has the bits of the generator behind the first. -/
theorem generator_eq : generator = X ^ 32 + polynomial (bits 32 0xEDB88320) := by
  have hbits : bits 32 0xEDB88320 = [false, false, false, false, false, true, false, false, true,
      true, false, false, false, false, false, true, false, false, false, true, true, true, false,
      true, true, false, true, true, false, true, true, true] := by
    decide
  rw [hbits, generator]
  simp only [polynomial, List.length_cons, List.length_nil, Bool.false_eq_true, if_false, if_true,
    C_0, C_1, zero_mul, one_mul, zero_add, add_zero, pow_zero, pow_one]
  ring

theorem degree_generator : generator.degree = 32 := by
  rw [generator_eq, degree_add_eq_left_of_degree_lt, degree_X_pow]
  · rfl
  · rw [degree_X_pow]
    simpa using degree_polynomial_lt (bits 32 0xEDB88320)

theorem generator_monic : generator.Monic := by
  rw [generator_eq]
  apply monic_X_pow_add
  simpa using degree_polynomial_lt (bits 32 0xEDB88320)

/-! ## The register -/

/-- A polynomial up to multiples of the generator. -/
noncomputable abbrev residue : (ZMod 2)[X] →+* AdjoinRoot generator :=
  AdjoinRoot.mk generator

/-- The polynomial that a register holds. -/
noncomputable def held (r : UInt32) : (ZMod 2)[X] :=
  polynomial (bits 32 r.toNat)

theorem degree_held_lt (r : UInt32) : (held r).degree < 32 := by
  have h := degree_polynomial_lt (bits 32 r.toNat)
  rwa [length_bits] at h

theorem held_xor (r s : UInt32) : held (r ^^^ s) = held r + held s := by
  rw [held, UInt32.toNat_xor, bits_xor, polynomial_zipWith_xor (by simp)]
  rfl

/-- The first bit goes and the others move up. -/
theorem held_shiftRight (r : UInt32) :
    held (r >>> 1) = X * held r - C (if r.toNat.testBit 0 then 1 else 0) * X ^ 32 := by
  have hhigh : (r >>> 1).toNat < 2 ^ 31 := by
    have hr := r.toNat_lt
    have hhalf : (r >>> 1).toNat = r.toNat / 2 := Nat.shiftRight_eq_div_pow r.toNat 1
    omega
  have hfirst : bits 32 r.toNat = r.toNat.testBit 0 :: bits 31 (r >>> 1).toNat :=
    bits_add 1 31 r.toNat
  have hmoved : held (r >>> 1) = polynomial (bits 31 (r >>> 1).toNat) * X ^ 1 :=
    polynomial_bits_add hhigh 1
  rw [hmoved, held, hfirst, polynomial, length_bits]
  ring

/-- A shift multiplies by the first power, up to multiples of the generator. -/
theorem residue_shift (r : UInt32) : residue (held (shift r)) = residue (X * held r) := by
  have hmod : r % 2 = 1 ↔ r.toNat.testBit 0 = true := by
    rw [Nat.testBit_zero, decide_eq_true_iff, ← UInt32.toNat_inj, UInt32.toNat_mod]
    rfl
  unfold shift
  split
  · rename_i hodd
    -- The power that is dropped and the number that is added make up the generator.
    have hgenerator : held ((r >>> 1) ^^^ 0xEDB88320) = X * held r + generator - 2 * X ^ 32 := by
      rw [held_xor, held_shiftRight, hmod.mp hodd, generator_eq, if_pos rfl, C_1]
      simp only [held, UInt32.reduceToNat]
      ring
    have htwo : (2 : (ZMod 2)[X]) = 0 := CharTwo.two_eq_zero
    rw [hgenerator, htwo, zero_mul, sub_zero, map_add, AdjoinRoot.mk_self, add_zero]
  · rename_i heven
    rw [held_shiftRight, if_neg (fun h => heven (hmod.mpr h)), C_0, zero_mul, sub_zero]

theorem residue_repeat_shift (k : Nat) (r : UInt32) :
    residue (held (Nat.repeat shift k r)) = residue (X ^ k * held r) := by
  induction k with
  | zero => simp [Nat.repeat]
  | succ k ih =>
      rw [Nat.repeat, residue_shift, map_mul, ih, ← map_mul, pow_succ, ← mul_assoc,
        mul_comm X (X ^ k)]

theorem residue_pushByte (c : Crc32) (b : UInt8) :
    residue (held (c.pushByte b).register)
      = residue (X ^ 8 * held c.register + X ^ 32 * polynomial (bits 8 b.toNat)) := by
  have hbyte : held b.toUInt32 = polynomial (bits 8 b.toNat) * X ^ 24 := by
    rw [held, UInt8.toNat_toUInt32]
    exact polynomial_bits_add b.toNat_lt 24
  rw [pushByte, residue_repeat_shift, held_xor, hbyte]
  refine congrArg residue ?_
  ring

/-! ## Messages -/

/-- The bits of a message in the order in which they are divided. -/
def messageBits (bs : Bytes) : List Bool :=
  bs.flatMap fun b => bits 8 b.toNat

theorem length_messageBits (bs : Bytes) : (messageBits bs).length = 8 * bs.length := by
  simp [messageBits, List.length_flatMap, Nat.mul_comm]

theorem residue_push (c : Crc32) (bs : Bytes) :
    residue (held (c.push bs).register)
      = residue (X ^ (8 * bs.length) * held c.register
        + X ^ 32 * polynomial (messageBits bs)) := by
  induction bs generalizing c with
  | nil => simp [push, messageBits, polynomial]
  | cons b bs ih =>
      have hbits : messageBits (b :: bs) = bits 8 b.toNat ++ messageBits bs := List.flatMap_cons
      have hsum : polynomial (messageBits (b :: bs))
          = polynomial (bits 8 b.toNat) * X ^ (8 * bs.length) + polynomial (messageBits bs) := by
        rw [hbits, polynomial_append, length_messageBits]
      calc residue (held ((c.pushByte b).push bs).register)
          = residue (X ^ (8 * bs.length)) * residue (held (c.pushByte b).register)
              + residue (X ^ 32 * polynomial (messageBits bs)) := by rw [ih, map_add, map_mul]
        _ = residue (X ^ (8 * bs.length)
                * (X ^ 8 * held c.register + X ^ 32 * polynomial (bits 8 b.toNat))
              + X ^ 32 * polynomial (messageBits bs)) := by
            rw [residue_pushByte, ← map_mul, ← map_add]
        _ = residue (X ^ (8 * (bs.length + 1)) * held c.register
              + X ^ 32 * polynomial (messageBits (b :: bs))) := by
            refine congrArg residue ?_
            rw [hsum, Nat.mul_succ, pow_add]
            ring

/-- The bits that are divided: those of the message and 32 zeros, the first 32 complemented. -/
def dividend (bs : Bytes) : List Bool :=
  let padded := messageBits bs ++ List.replicate 32 false
  (padded.take 32).map not ++ padded.drop 32

theorem polynomial_dividend (bs : Bytes) :
    polynomial (dividend bs)
      = X ^ (8 * bs.length) * held initial.register + X ^ 32 * polynomial (messageBits bs) := by
  have hones : held initial.register = polynomial (List.replicate 32 true) :=
    congrArg polynomial (bits_all 32)
  have hpadded : polynomial (messageBits bs ++ List.replicate 32 false)
      = X ^ 32 * polynomial (messageBits bs) := by
    rw [polynomial_append, polynomial_replicate_false, List.length_replicate, add_zero, mul_comm]
  have hlength : (messageBits bs ++ List.replicate 32 false).length = 8 * bs.length + 32 := by
    rw [List.length_append, length_messageBits, List.length_replicate]
  rw [← hpadded, hones, dividend]
  generalize messageBits bs ++ List.replicate 32 false = padded at hlength ⊢
  have hfront : (padded.take 32).length = 32 := List.length_take_of_le (by omega)
  have hbehind : (padded.drop 32).length = 8 * bs.length := by
    rw [List.length_drop, hlength, Nat.add_sub_cancel]
  have hwhole := polynomial_append (padded.take 32) (padded.drop 32)
  rw [List.take_append_drop, hbehind] at hwhole
  rw [polynomial_append, polynomial_complement, hfront, hbehind, hwhole]
  ring

/-- Whether a number is the check value of a message as IEEE 802.3 defines it. -/
def IsCheckOf (v : UInt32) (bs : Bytes) : Prop :=
  polynomial ((bits 32 v.toNat).map not) = polynomial (dividend bs) %ₘ generator

theorem bits_complement (r : UInt32) :
    (bits 32 (r ^^^ 0xFFFFFFFF).toNat).map not = bits 32 r.toNat := by
  have hall : bits 32 (0xFFFFFFFF : UInt32).toNat = List.replicate 32 true := bits_all 32
  rw [UInt32.toNat_xor, bits_xor, hall]
  apply List.ext_getElem
  · simp
  · intro i hi hi'
    simp only [List.getElem_map, List.getElem_zipWith, List.getElem_replicate, Bool.xor_true,
      Bool.not_not]

theorem isCheckOf_ofBytes (bs : Bytes) : IsCheckOf (ofBytes bs) bs := by
  have hcongruent : generator ∣ held (initial.push bs).register - polynomial (dividend bs) := by
    rw [polynomial_dividend]
    exact AdjoinRoot.mk_eq_mk.mp (residue_push initial bs)
  have hsmall : (held (initial.push bs).register).degree < generator.degree := by
    rw [degree_generator]
    exact degree_held_lt _
  rw [IsCheckOf, ofBytes, value, bits_complement,
    ← modByMonic_eq_of_dvd_sub generator_monic hcongruent]
  exact ((modByMonic_eq_self_iff generator_monic).mpr hsmall).symm

/-- The register of a message holds the one number that the definition admits. -/
theorem isCheckOf_iff {v : UInt32} {bs : Bytes} : IsCheckOf v bs ↔ v = ofBytes bs := by
  constructor
  · intro h
    have hbits := polynomial_inj (by simp) (h.trans (isCheckOf_ofBytes bs).symm)
    exact eq_of_bits_eq (List.map_injective_iff.mpr Bool.not_injective hbits)
  · rintro rfl
    exact isCheckOf_ofBytes bs

example : ofBytes (Bytes.ofText "123456789") = 0xCBF43926 := by decide +kernel

end NamedData.Crc32
