import NamedData.Text.Numeral

/-!
# Quoted text in settings

Text between double quotes has escapes, text between single quotes has none. Three quotes on each
side allow line breaks, drop one right behind the opening, and let up to two quotes stand before the
closing ones.
-/

namespace NamedData.Toml.Quoted

/-- Control characters other than the tab stand in no text. -/
def isTextChar (c : Char) : Bool :=
  c == '\t' || (' ' ≤ c && c ≠ '\x7f')

/-- The character of a two-character escape. -/
def escape? (c : Char) : Option Char :=
  [('b', '\x08'), ('t', '\t'), ('n', '\n'), ('f', '\x0c'), ('r', '\r'), ('"', '"'),
    ('\\', '\\')].lookup c

/-- The character with a hexadecimal number, which no surrogate has. -/
def scalar? (digits : List Char) : Option Char := do
  let n ← Numeral.digits? 16 digits
  guard n.isValidChar
  return Char.ofNat n

/-- A text and what follows its closing quotes. -/
abbrev Split := Option (List Char × List Char)

def cons (c : Char) (s : Split) : Split :=
  s.map fun (text, rest) => (c :: text, rest)

/-- Text on one line, up to a double quote. -/
def basic? : List Char → Split
  | [] => none
  | '"' :: rest => some ([], rest)
  | '\\' :: 'u' :: a :: b :: c :: d :: rest =>
    (scalar? [a, b, c, d]).bind fun x => cons x (basic? rest)
  | '\\' :: 'U' :: a :: b :: c :: d :: e :: f :: g :: h :: rest =>
    (scalar? [a, b, c, d, e, f, g, h]).bind fun x => cons x (basic? rest)
  | '\\' :: c :: rest => (escape? c).bind fun x => cons x (basic? rest)
  | c :: rest => if isTextChar c ∧ c ≠ '\\' then cons c (basic? rest) else none

/-- Text on one line, up to a single quote. -/
def literal? : List Char → Split
  | [] => none
  | '\'' :: rest => some ([], rest)
  | c :: rest => if isTextChar c then cons c (literal? rest) else none

/-- What a line ending behind a backslash does to the text after it. -/
inductive Skip where
  | no
  /-- Blanks up to the line ending are left out. -/
  | line
  /-- Blanks and line endings are left out. -/
  | all
deriving DecidableEq, Repr

/-- Whether a backslash stands at the end of its line. -/
def endsLine (cs : List Char) : Bool :=
  match cs.dropWhile fun c => c == ' ' || c == '\t' with
  | '\n' :: _ => true
  | '\r' :: '\n' :: _ => true
  | _ => false

/-- Text on several lines, up to three double quotes. -/
def basicLines? : Skip → List Char → Split
  | _, [] => none
  | _, '"' :: '"' :: '"' :: '"' :: '"' :: rest => some (['"', '"'], rest)
  | _, '"' :: '"' :: '"' :: '"' :: rest => some (['"'], rest)
  | _, '"' :: '"' :: '"' :: rest => some ([], rest)
  | _, '\\' :: 'u' :: a :: b :: c :: d :: rest =>
    (scalar? [a, b, c, d]).bind fun x => cons x (basicLines? .no rest)
  | _, '\\' :: 'U' :: a :: b :: c :: d :: e :: f :: g :: h :: rest =>
    (scalar? [a, b, c, d, e, f, g, h]).bind fun x => cons x (basicLines? .no rest)
  | skip, '\r' :: '\n' :: rest =>
    if skip = .no then cons '\n' (basicLines? .no rest) else basicLines? .all rest
  | skip, '\n' :: rest =>
    if skip = .no then cons '\n' (basicLines? .no rest) else basicLines? .all rest
  | _, '\\' :: c :: rest =>
    if endsLine (c :: rest) then basicLines? .line (c :: rest)
    else (escape? c).bind fun x => cons x (basicLines? .no rest)
  | skip, c :: rest =>
    if skip ≠ .no ∧ (c = ' ' ∨ c = '\t') then basicLines? skip rest
    else if isTextChar c ∧ c ≠ '\\' then cons c (basicLines? .no rest) else none

/-- Text on several lines, up to three single quotes. -/
def literalLines? : List Char → Split
  | [] => none
  | '\'' :: '\'' :: '\'' :: '\'' :: '\'' :: rest => some (['\'', '\''], rest)
  | '\'' :: '\'' :: '\'' :: '\'' :: rest => some (['\''], rest)
  | '\'' :: '\'' :: '\'' :: rest => some ([], rest)
  | '\r' :: '\n' :: rest => cons '\n' (literalLines? rest)
  | c :: rest => if isTextChar c ∨ c = '\n' then cons c (literalLines? rest) else none

/-- Without one line break at the front. -/
def dropLineBreak : List Char → List Char
  | '\n' :: rest => rest
  | '\r' :: '\n' :: rest => rest
  | cs => cs

/-- A text in any of the four forms, behind which the rest begins. -/
def split? : List Char → Split
  | '"' :: '"' :: '"' :: rest => basicLines? .no (dropLineBreak rest)
  | '"' :: rest => basic? rest
  | '\'' :: '\'' :: '\'' :: rest => literalLines? (dropLineBreak rest)
  | '\'' :: rest => literal? rest
  | _ => none

end NamedData.Toml.Quoted
