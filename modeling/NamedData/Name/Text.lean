import NamedData.Name.Basic

/-!
# Names as text

A slash stands before each component, a type other than the generic one before an equals sign, and
bytes outside the unreserved characters are escaped with a percent sign and two hexadecimal digits.
-/

namespace NamedData

namespace Component

/-- Letters, digits and four marks stand for themselves. -/
def isUnreserved (b : UInt8) : Bool :=
  let c := Char.ofNat b.toNat
  c.isAlphanum || c == '-' || c == '.' || c == '_' || c == '~'

def escape (b : UInt8) : List Char :=
  if isUnreserved b then [Char.ofNat b.toNat] else '%' :: Numeral.upperHexByte b

def toChars (c : Component) : List Char :=
  let value := c.value.flatMap escape
  if c.type = genericType then value else Numeral.decimal c.type.toNat ++ '=' :: value

/-- The bytes of a text whose percent signs each begin an escape. -/
def unescape? : List Char → Option Bytes
  | [] => some []
  | '%' :: high :: low :: rest => do
    let b ← Numeral.hexByte? high low
    return b :: (← unescape? rest)
  | c :: rest => if c = '%' then none else (unescape? rest).map (String.utf8EncodeChar c ++ ·)

/-- A run of decimal digits before the first equals sign, and the text behind the sign. -/
def typed? (cs : List Char) : Option (List Char × List Char) :=
  let digits := cs.takeWhile (· ≠ '=')
  match cs.dropWhile (· ≠ '=') with
  | '=' :: value => if digits ≠ [] ∧ digits.all Char.isDigit then some (digits, value) else none
  | _ => none

def ofChars (cs : List Char) : Except Error Component :=
  let bytes (value : List Char) : Except Error Bytes :=
    match unescape? value with
    | some bytes => .ok bytes
    | none => .error (.invalidName (String.ofList value))
  match typed? cs with
  | none => generic <$> bytes cs
  | some (digits, value) =>
    match Numeral.decimal64? digits with
    | none => .error (.invalidName (String.ofList cs))
    | some type => mk type <$> bytes value

end Component

namespace Name

def toChars (n : Name) : List Char :=
  if n.components = [] then ['/'] else n.components.flatMap fun c => '/' :: c.toChars

def toText (n : Name) : String :=
  String.ofList n.toChars

/-- The nonempty parts between slashes, behind an optional scheme. -/
def parts (cs : List Char) : List (List Char) :=
  let scheme := "ndn:".toList
  let path := if scheme.isPrefixOf cs then cs.drop scheme.length else cs
  (path.splitOn '/').filter (· ≠ [])

def ofChars (cs : List Char) : Except Error Name :=
  mk <$> (parts cs).mapM Component.ofChars

def ofText (text : String) : Except Error Name :=
  ofChars text.toList

end Name

end NamedData
