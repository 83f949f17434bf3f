import NamedData.Text.Numeral
import NamedData.Toml.Item

/-!
# Numbers and dates in settings

A scalar without quotes is recognised by its whole text. Underscores may stand between digits,
decimal numbers have no leading zeros, integers have 64 bits with sign, and dates exist in the
calendar.
-/

namespace NamedData.Toml.Scalar

/-- Digits with single underscores between them, the underscores left out. -/
def digitRun? (base : Nat) : List Char → Option (List Char)
  | [] => none
  | [c] => if (Numeral.digit? base c).isSome then some [c] else none
  | c :: '_' :: rest =>
    if (Numeral.digit? base c).isSome then (digitRun? base rest).map (c :: ·) else none
  | c :: rest =>
    if (Numeral.digit? base c).isSome then (digitRun? base rest).map (c :: ·) else none

/-- Decimal digits that begin with zero only as the single digit zero. -/
def decimalRun? (cs : List Char) : Option (List Char) := do
  let digits ← digitRun? 10 cs
  guard (digits.head? ≠ some '0' ∨ cs = ['0'])
  return digits

/-- A sign, if there is one, and the text behind it. -/
def splitSign : List Char → Bool × List Char
  | '-' :: rest => (true, rest)
  | '+' :: rest => (false, rest)
  | cs => (false, cs)

/-- A natural number in some base. -/
def natural? (base : Nat) (cs : List Char) : Option Int :=
  ((digitRun? base cs).bind (Numeral.digits? base)).map Int.ofNat

/-- A decimal integer with or without a sign. -/
def decimal? (cs : List Char) : Option Int := do
  let (negative, digits) := splitSign cs
  let n ← (decimalRun? digits).bind (Numeral.digits? 10)
  return if negative then -(n : Int) else n

/-- A 64-bit integer; a base other than ten is named at its front, where no sign may stand. -/
def integer? (cs : List Char) : Option Int :=
  let n := match cs with
    | '0' :: 'x' :: digits => natural? 16 digits
    | '0' :: 'o' :: digits => natural? 8 digits
    | '0' :: 'b' :: digits => natural? 2 digits
    | cs => decimal? cs
  n.filter fun n => -0x8000000000000000 ≤ n ∧ n ≤ 0x7FFFFFFFFFFFFFFF

/-- Whether `digits · 10 ^ exponent` rounds to infinity in 64-bit binary floating point. -/
def overflows (digits : Nat) (exponent : Int) : Bool :=
  let bound := (Nat.pow 2 54 - 1) * Nat.pow 2 970
  let size := (Numeral.decimal digits).length + exponent
  if digits = 0 ∨ size < 0 then false
  else if 400 < size then true
  else if 0 ≤ exponent then bound ≤ digits * Nat.pow 10 exponent.toNat
  else bound * Nat.pow 10 (-exponent).toNat ≤ digits

/-- The exponent behind its letter. -/
def exponent? (cs : List Char) : Option Int := do
  let (negative, digits) := splitSign cs
  let n ← (digitRun? 10 digits).bind (Numeral.digits? 10)
  return if negative then -(n : Int) else n

/-- Whether a text is a number with a fraction or an exponent, or one of the special numbers. A
positive number must be finite. -/
def isFloat (cs : List Char) : Bool :=
  let (negative, body) := splitSign cs
  body == "inf".toList || body == "nan".toList || Option.isSome do
    let mantissa := body.takeWhile fun c => c ≠ 'e' ∧ c ≠ 'E'
    let exponent ← match body.drop mantissa.length with
      | [] => some none
      | _ :: digits => (exponent? digits).map some
    let whole ← decimalRun? (mantissa.takeWhile (· ≠ '.'))
    let fraction ← match mantissa.dropWhile (· ≠ '.') with
      | [] => some none
      | _ :: digits => (digitRun? 10 digits).map some
    guard (exponent.isSome ∨ fraction.isSome)
    let fraction := fraction.getD []
    let digits ← Numeral.digits? 10 (whole ++ fraction)
    guard (negative ∨ !overflows digits (exponent.getD 0 - fraction.length))

/-- The number in a field of a fixed count of digits, within bounds. -/
def field? (count least most : Nat) (cs : List Char) : Option Nat := do
  guard (cs.length = count)
  let n ← Numeral.digits? 10 cs
  guard (least ≤ n ∧ n ≤ most)
  return n

def daysInMonth (year month : Nat) : Nat :=
  if month = 2 then
    if year % 4 = 0 ∧ (year % 100 ≠ 0 ∨ year % 400 = 0) then 29 else 28
  else if month ∈ [4, 6, 9, 11] then 30 else 31

/-- A year, a month and a day. -/
def isDate (cs : List Char) : Bool :=
  match cs.splitOn '-' with
  | [year, month, day] => Option.isSome do
    let year ← field? 4 0 9999 year
    let month ← field? 2 1 12 month
    field? 2 1 (daysInMonth year month) day
  | _ => false

/-- Hours, minutes and seconds, which may have a fraction and may be a leap second. -/
def isTime (cs : List Char) : Bool :=
  let whole := cs.takeWhile (· ≠ '.')
  let fractionOk := match cs.dropWhile (· ≠ '.') with
    | [] => true
    | _ :: digits => !digits.isEmpty && digits.all Char.isDigit
  fractionOk && match whole.splitOn ':' with
    | [hour, minute, second] =>
      (field? 2 0 23 hour).isSome && (field? 2 0 59 minute).isSome && (field? 2 0 60 second).isSome
    | _ => false

/-- A time that may be followed by its distance from universal time. -/
def isOffsetTime (cs : List Char) : Bool :=
  let isMark (c : Char) : Bool := c == 'Z' || c == 'z' || c == '+' || c == '-'
  isTime (cs.takeWhile (!isMark ·)) && match cs.dropWhile (!isMark ·) with
    | [] => true
    | mark :: offset =>
      if mark = 'Z' ∨ mark = 'z' then offset.isEmpty
      else match offset.splitOn ':' with
        | [hour, minute] => (field? 2 0 23 hour).isSome && (field? 2 0 59 minute).isSome
        | _ => false

/-- A date, a time, or both with a letter or a blank between them. -/
def isDateTime (cs : List Char) : Bool :=
  isTime cs || isDate cs
    || (isDate (cs.take 10) && match cs.drop 10 with
      | mark :: time => (mark == 'T' || mark == 't' || mark == ' ') && isOffsetTime time
      | [] => false)

/-- The value of a scalar without quotes. -/
def ofChars? (cs : List Char) : Option Item :=
  if cs = "true".toList then some (.boolean true)
  else if cs = "false".toList then some (.boolean false)
  else match integer? cs with
    | some n => some (.integer n)
    | none =>
      if isFloat cs then some (.float (String.ofList cs))
      else if isDateTime cs then some (.dateTime (String.ofList cs))
      else none

/-- The characters of a scalar without quotes. -/
def isScalarChar (c : Char) : Bool :=
  c.isAlphanum || c == '+' || c == '-' || c == '_' || c == '.' || c == ':'

/-- The scalar at the front of a text. A blank between a date and a digit belongs to it. -/
def split (cs : List Char) : List Char × List Char :=
  let token := cs.takeWhile isScalarChar
  let rest := cs.drop token.length
  match rest with
  | ' ' :: c :: _ =>
    if isDate token ∧ c.isDigit then
      let time := rest.tail.takeWhile isScalarChar
      (token ++ ' ' :: time, rest.tail.drop time.length)
    else (token, rest)
  | _ => (token, rest)

end NamedData.Toml.Scalar
