import NamedData.Toml.Quoted
import NamedData.Toml.Scalar

/-!
# Reading settings documents

A document is read line by line into one table. Keys and values nest to a limited depth.
-/

namespace NamedData.Toml

/-- A reader gives a value and the text behind it, or fails. -/
abbrev Reader (α : Type) := List Char → Option (α × List Char)

namespace Reader

/-- Arrays, inline tables and dotted keys may not be deeper. -/
def depthLimit : Nat := 80

def isBlank (c : Char) : Bool :=
  c == ' ' || c == '\t'

def skipBlanks (cs : List Char) : List Char :=
  cs.dropWhile isBlank

/-- A comment runs to the end of its line. -/
def skipComment : List Char → List Char
  | '#' :: rest => rest.dropWhile Quoted.isTextChar
  | cs => cs

def lineBreak? : List Char → Option (List Char)
  | '\n' :: rest => some rest
  | '\r' :: '\n' :: rest => some rest
  | _ => none

/-- The end of a line behind blanks and a comment, which may be the end of the document. -/
def lineEnd? (cs : List Char) : Option (List Char) :=
  match skipComment (skipBlanks cs) with
  | [] => some []
  | cs => lineBreak? cs

def expect? (c : Char) : List Char → Option (List Char)
  | [] => none
  | d :: rest => if c = d then some rest else none

/-- Skips blanks, comments and line breaks; a comment must be whole. -/
def skipLines : (fuel : Nat) → List Char → Option (List Char)
  | 0, cs => some cs
  | fuel + 1, cs =>
    match skipBlanks cs with
    | '#' :: rest => (lineEnd? ('#' :: rest)).bind (skipLines fuel)
    | cs =>
      match lineBreak? cs with
      | some rest => skipLines fuel rest
      | none => some cs

/-! ## Keys -/

def isKeyChar (c : Char) : Bool :=
  c.isAlphanum || c == '-' || c == '_'

/-- One part of a key: bare, or quoted on one line. -/
def simpleKey : Reader Key
  | '"' :: rest => Quoted.basic? rest
  | '\'' :: rest => Quoted.literal? rest
  | cs =>
    let key := cs.takeWhile isKeyChar
    if key = [] then none else some (key, cs.drop key.length)

/-- The parts of a key between dots. -/
def keyParts : (fuel : Nat) → Reader (List Key)
  | 0, _ => none
  | fuel + 1, cs => do
    let (part, cs) ← simpleKey (skipBlanks cs)
    match skipBlanks cs with
    | '.' :: cs => do
      let (parts, cs) ← keyParts fuel cs
      return (part :: parts, cs)
    | cs => return ([part], cs)

def key : Reader (List Key) :=
  keyParts (depthLimit - 1)

/-! ## Values -/

/-- The items of an array up to its closing bracket, with an optional comma behind the last. -/
def arrayItems (value : Reader Item) : (fuel : Nat) → Reader (List Item)
  | 0, _ => none
  | fuel + 1, cs => do
    match ← skipLines cs.length cs with
    | ']' :: cs => return ([], cs)
    | cs =>
      let (item, cs) ← value cs
      match ← skipLines cs.length cs with
      | ']' :: cs => return ([item], cs)
      | ',' :: cs =>
        let (items, cs) ← arrayItems value fuel cs
        return (item :: items, cs)
      | _ => none

/-- A key, an equals sign and a value. -/
def pair (value : Reader Item) : Reader (List Key × Item) := fun cs => do
  let (path, cs) ← key cs
  let (item, cs) ← value (skipBlanks (← expect? '=' cs))
  return ((path, item), cs)

/-- The entries of an inline table up to its closing brace; no comma stands behind the last. -/
def inlineEntries (value : Reader Item) : (fuel : Nat) → Entries → Reader Entries
  | 0, _, _ => none
  | fuel + 1, es, cs => do
    let ((path, item), cs) ← pair value cs
    let es ← es.insert path item
    match skipBlanks cs with
    | '\x7d' :: cs => return (es, cs)
    | ',' :: cs => inlineEntries value fuel es cs
    | _ => none

/-- A value in which arrays and inline tables nest less than `depth` deep. -/
def value : (depth : Nat) → Reader Item
  | 0, _ => none
  | depth + 1, cs =>
    match cs with
    | '"' :: _ | '\'' :: _ => do
      let (text, cs) ← Quoted.split? cs
      return (.string (String.ofList text), cs)
    | '[' :: cs => do
      guard (0 < depth)
      let (items, cs) ← arrayItems (value depth) (cs.length + 1) cs
      return (.array items, cs)
    | '\x7b' :: cs => do
      guard (0 < depth)
      match skipBlanks cs with
      | '\x7d' :: cs => return (.table .inline [], cs)
      | cs =>
        let (es, cs) ← inlineEntries (value depth) (cs.length + 1) [] cs
        return (.table .inline es, cs)
    | cs => do
      let (token, rest) := Scalar.split cs
      return (← Scalar.ofChars? token, rest)

/-! ## Lines -/

/-- The document so far: its entries, and the path of the header that was last. -/
structure State where
  entries : Entries
  header : List Key

/-- Reads a line that is not empty, and gives the text behind it. -/
def line (s : State) : Reader State
  | '[' :: '[' :: cs => do
    let (path, cs) ← key cs
    let cs ← expect? ']' (← expect? ']' cs)
    return (⟨← s.entries.openElement path, path⟩, ← lineEnd? cs)
  | '[' :: cs => do
    let (path, cs) ← key cs
    let cs ← expect? ']' cs
    return (⟨← s.entries.openTable path, path⟩, ← lineEnd? cs)
  | cs => do
    let ((path, item), cs) ← pair (value depthLimit) cs
    return ({ s with entries := ← s.entries.insertIn s.header path item }, ← lineEnd? cs)

/-- Reads lines to the end of the document. -/
def lines : (fuel : Nat) → State → List Char → Option Entries
  | 0, _, _ => none
  | fuel + 1, s, cs => do
    match ← skipLines cs.length cs with
    | [] => return s.entries
    | cs =>
      let (s, cs) ← line s cs
      lines fuel s cs

end Reader

/-- Reads a whole document, at whose front a byte order mark may stand. -/
def parse? (text : List Char) : Option Entries :=
  let cs := match text with
    | '\ufeff' :: rest => rest
    | cs => cs
  Reader.lines (cs.length + 1) ⟨[], []⟩ cs

end NamedData.Toml
