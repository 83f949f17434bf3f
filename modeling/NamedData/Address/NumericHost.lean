import NamedData.Address.Ip

/-!
# Numeric host names

The older way to write an IPv4 address: one to four parts in decimal, octal behind `0` or
hexadecimal behind `0x`, where the last part fills all the bytes that the others leave.
-/

namespace NamedData.NumericHost

/-- A part, whose first character must be a digit in any case. -/
def part? (cs : List Char) : Option Nat := do
  guard (cs.head?.any Char.isDigit)
  let n ← match cs with
    | '0' :: 'x' :: digits => Numeral.digits? 16 digits
    | '0' :: 'X' :: digits => Numeral.digits? 16 digits
    | '0' :: digits => if digits = [] then some 0 else Numeral.digits? 8 digits
    | digits => Numeral.digits? 10 digits
  guard (n ≤ 0xFFFFFFFF)
  return n

/-- The address of a host that is written as numbers. -/
def parse? (cs : List Char) : Option Ipv4 := do
  let parts ← (cs.splitOn '.').mapM part?
  let last ← parts.getLast?
  let front := parts.dropLast
  let room := Nat.pow 256 (4 - front.length)
  guard (front.length ≤ 3 ∧ front.all (· ≤ 0xFF) ∧ last < room)
  let high := front.foldl (fun acc n => acc * 256 + n) 0
  return Ipv4.ofNumber (high * room + last)

end NamedData.NumericHost
