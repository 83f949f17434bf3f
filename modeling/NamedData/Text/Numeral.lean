/-!
# Numerals

Unsigned numbers in decimal and hexadecimal text, as addresses, names and command lines write them.
-/

namespace NamedData.Numeral

/-- The digit that a character stands for in a base of at most sixteen, in either case. -/
def digit? (base : Nat) (c : Char) : Option Nat :=
  let value :=
    if '0' ≤ c ∧ c ≤ '9' then some (c.toNat - '0'.toNat)
    else if 'a' ≤ c ∧ c ≤ 'f' then some (c.toNat - 'a'.toNat + 10)
    else if 'A' ≤ c ∧ c ≤ 'F' then some (c.toNat - 'A'.toNat + 10)
    else none
  value.filter (· < base)

/-- The number that a nonempty run of digits denotes. -/
def digits? (base : Nat) : List Char → Option Nat
  | [] => none
  | cs => cs.foldlM (fun acc c => (digit? base c).map (acc * base + ·)) 0

/-- A numeral of at most `limit`, where one leading plus sign is allowed. -/
def unsigned? (base limit : Nat) (cs : List Char) : Option Nat :=
  let digits := match cs with
    | '+' :: rest => rest
    | _ => cs
  (digits? base digits).filter (· ≤ limit)

/-- A decimal numeral for a 16-bit number. -/
def decimal16? (cs : List Char) : Option UInt16 :=
  (unsigned? 10 0xFFFF cs).map UInt16.ofNat

/-- A decimal numeral for a 32-bit number. -/
def decimal32? (cs : List Char) : Option UInt32 :=
  (unsigned? 10 0xFFFFFFFF cs).map UInt32.ofNat

/-- A decimal numeral for a 64-bit number. -/
def decimal64? (cs : List Char) : Option UInt64 :=
  (unsigned? 10 0xFFFFFFFFFFFFFFFF cs).map UInt64.ofNat

/-- The byte that two characters denote in hexadecimal; a plus sign may stand for the first. -/
def hexByte? (high low : Char) : Option UInt8 :=
  (unsigned? 16 0xFF [high, low]).map UInt8.ofNat

/-- The decimal text of a number. -/
def decimal (n : Nat) : List Char :=
  Nat.toDigits 10 n

/-- The hexadecimal text of a number, in lower case and without leading zeros. -/
def hex (n : Nat) : List Char :=
  Nat.toDigits 16 n

/-- The two lower-case hexadecimal digits of a byte. -/
def hexByte (b : UInt8) : List Char :=
  [Nat.digitChar (b.toNat / 16), Nat.digitChar (b.toNat % 16)]

/-- The two upper-case hexadecimal digits of a byte. -/
def upperHexByte (b : UInt8) : List Char :=
  (hexByte b).map Char.toUpper

end NamedData.Numeral
