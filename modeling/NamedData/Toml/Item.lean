/-!
# Settings documents

The values of a TOML document, and how headers and dotted keys build its tables. A table knows how
it came to be, because that decides how it may be added to later.
-/

namespace NamedData.Toml

abbrev Key := List Char

/-- How a table came to be. -/
inductive TableOrigin where
  /-- By a header of its own. -/
  | header
  /-- By the header of a table inside it. -/
  | implied
  /-- By a dotted key. -/
  | dotted
  /-- Between braces. -/
  | inline
deriving DecidableEq, Repr

/-- A value. Fractional numbers and dates are checked, but only their text is kept. -/
inductive Item where
  | string (text : String)
  | integer (n : Int)
  | boolean (b : Bool)
  | float (text : String)
  | dateTime (text : String)
  | array (items : List Item)
  | table (origin : TableOrigin) (entries : List (Key × Item))
  /-- The tables of repeated double-bracket headers. -/
  | tables (all : List (List (Key × Item)))

/-- The entries of a table. -/
abbrev Entries := List (Key × Item)

namespace Entries

def get? (es : Entries) (key : Key) : Option Item :=
  es.lookup key

def set (es : Entries) (key : Key) (item : Item) : Entries :=
  es.map fun e => if e.1 = key then (key, item) else e

/-- Changes the entries of the table at the end of a path; missing tables on the way are made. A
dotted key may pass through a table only if no header was written for it. -/
def modifyAt (byDottedKey : Bool) :
    (path : List Key) → (dotted : Bool) → Entries → (Bool → Entries → Option Entries) →
      Option Entries
  | [], dotted, es, change => change dotted es
  | key :: path, _, es, change =>
    match es.get? key with
    | none => do
      let inner ← modifyAt byDottedKey path byDottedKey [] change
      return es ++ [(key, .table (if byDottedKey then .dotted else .implied) inner)]
    | some (.table origin inner) => do
      guard (origin ≠ .inline ∧ ¬ (byDottedKey ∧ origin = .header))
      return es.set key (.table origin (← modifyAt byDottedKey path (origin == .dotted) inner change))
    | some (.tables all) => do
      let last ← all.getLast?
      let last ← modifyAt byDottedKey path false last change
      return es.set key (.tables (all.dropLast ++ [last]))
    | some _ => none

/-- Adds a value under a key, whose last part must be new. A dotted key must end in a table that
dotted keys made. -/
def insert (es : Entries) (path : List Key) (item : Item) : Option Entries := do
  let key ← path.getLast?
  modifyAt true path.dropLast false es fun dotted es => do
    guard (dotted ≠ path.dropLast.isEmpty)
    guard (es.get? key).isNone
    return es ++ [(key, item)]

/-- Opens the table of a header, which may have been implied before but not written. -/
def openTable (es : Entries) (path : List Key) : Option Entries := do
  let key ← path.getLast?
  modifyAt false path.dropLast false es fun _ es =>
    match es.get? key with
    | none => some (es ++ [(key, .table .header [])])
    | some (.table .implied inner) => some (es.set key (.table .header inner))
    | some _ => none

/-- Opens one more table of a double-bracket header. -/
def openElement (es : Entries) (path : List Key) : Option Entries := do
  let key ← path.getLast?
  modifyAt false path.dropLast false es fun _ es =>
    match es.get? key with
    | none => some (es ++ [(key, .tables [[]])])
    | some (.tables all) => some (es.set key (.tables (all ++ [[]])))
    | some _ => none

/-- Adds a value to the table that a header opened. -/
def insertIn (es : Entries) (header path : List Key) (item : Item) : Option Entries :=
  modifyAt false header false es fun _ es => es.insert path item

end Entries

end NamedData.Toml
