import NamedData.Address.Ip

/-!
# Address literals

Reading the text of an address. In dotted decimal a part has at most three digits and no leading
zero; an IPv6 group has at most four, one `::` may stand for missing groups, and the last two
groups may be written as an IPv4 address.
-/

namespace NamedData

namespace Literal

/-- The digits at the front: at most `most` of them, and a leading zero only where allowed. -/
def number? (base most : Nat) (leadingZero : Bool) (cs : List Char) :
    Option (Nat × List Char) := do
  let digits := cs.takeWhile fun c => (Numeral.digit? base c).isSome
  guard (digits.length ≤ most)
  guard (leadingZero || digits.length ≤ 1 || digits.head? ≠ some '0')
  return (← Numeral.digits? base digits, cs.drop digits.length)

/-- One part of a dotted address. -/
def octet? (cs : List Char) : Option (UInt8 × List Char) := do
  let (n, rest) ← number? 10 3 false cs
  guard (n ≤ 255)
  return (UInt8.ofNat n, rest)

/-- The text behind a separator. -/
def after? (separator : Char) : List Char → Option (List Char)
  | [] => none
  | c :: rest => if c = separator then some rest else none

/-- A dotted address at the front. -/
def ipv4Front? (cs : List Char) : Option (Ipv4 × List Char) := do
  let (a, cs) ← octet? cs
  let (b, cs) ← octet? (← after? '.' cs)
  let (c, cs) ← octet? (← after? '.' cs)
  let (d, cs) ← octet? (← after? '.' cs)
  return (⟨a, b, c, d⟩, cs)

/-- What the groups at the front of a text are, and the text behind them. -/
structure Groups where
  groups : List UInt16
  /-- Whether the last two were written as an IPv4 address. -/
  dotted : Bool
  rest : List Char

/-- Reads at most `room` groups, with a colon before each but the first. -/
def groupsFront : (room : Nat) → (first : Bool) → List Char → Groups
  | 0, _, cs => ⟨[], false, cs⟩
  | room + 1, first, cs =>
    match if first then some cs else after? ':' cs with
    | none => ⟨[], false, cs⟩
    | some body =>
      match if room = 0 then none else ipv4Front? body with
      | some (ip, rest) => ⟨ip.groups, true, rest⟩
      | none =>
        match number? 16 4 true body with
        | none => ⟨[], false, cs⟩
        | some (g, rest) =>
          let more := groupsFront room false rest
          { more with groups := UInt16.ofNat g :: more.groups }

end Literal

open Literal

def Ipv4.parse? (cs : List Char) : Option Ipv4 := do
  let (ip, rest) ← ipv4Front? cs
  guard (rest = [])
  return ip

def Ipv6.parse? (cs : List Char) : Option Ipv6 := do
  let front := groupsFront 8 true cs
  if front.groups.length = 8 then
    guard (front.rest = [])
    Ipv6.ofGroups? front.groups
  else
    guard (!front.dotted)
    let cs ← after? ':' (← after? ':' front.rest)
    let back := groupsFront (7 - front.groups.length) true cs
    guard (back.rest = [])
    let missing := 8 - front.groups.length - back.groups.length
    Ipv6.ofGroups? (front.groups ++ List.replicate missing 0 ++ back.groups)

def Ip.parse? (cs : List Char) : Option Ip :=
  match Ipv4.parse? cs with
  | some ip => some (.v4 ip)
  | none => (Ipv6.parse? cs).map .v6

end NamedData
