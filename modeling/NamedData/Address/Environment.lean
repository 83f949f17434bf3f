import NamedData.Address.NumericHost
import NamedData.Bytes

/-!
# The machine around a face URI

Whether a URI can be brought to its canonical form depends on the network interfaces, the resolver
and the file system. They are a value that canonization is given.
-/

namespace NamedData

/-- What a path in the file system leads to. -/
inductive PathStatus where
  | directory
  | other
  | absent
  /-- The system refuses to look. -/
  | unreadable
deriving DecidableEq, Repr

/-- What canonization asks the machine. -/
structure Environment where
  interfaceIndex? : List Char → Option UInt32
  /-- The addresses of a host that is not an address literal. -/
  resolve : List Char → List Ip
  pathStatus : List Char → PathStatus

/-- A directory with its entries, or a file. -/
inductive FileTree where
  | directory (entries : List (List Char × FileTree))
  | file

namespace FileTree

/-- The most bytes in a part of a path. -/
def maxPart : Nat := 255

/-- The most bytes in a path. -/
def maxPath : Nat := 4095

/-- Follows the parts of a path from a node, with the directories above it nearest first. -/
def walk (above : List FileTree) : FileTree → List (List Char) → PathStatus
  | directory _, [] => .directory
  | file, [] => .other
  | file, _ :: _ => .unreadable
  | node@(directory entries), part :: rest =>
    if part = [] ∨ part = ['.'] then node.walk above rest
    else if part = ['.', '.'] then (above.headD node).walk above.tail rest
    else if maxPart < (Bytes.ofChars part).length then .unreadable
    else match entries.lookup part with
      | some child => child.walk (node :: above) rest
      | none => .absent
termination_by _ parts => parts.length

/-- What a path leads to from the root and the working directory. -/
def status (root working : FileTree) (path : List Char) : PathStatus :=
  if '\x00' ∈ path ∨ maxPath < (Bytes.ofChars path).length then .unreadable
  else match path with
    | [] => .absent
    | '/' :: rest => root.walk [] (rest.splitOn '/')
    | path => working.walk [] (path.splitOn '/')

end FileTree

namespace Environment

/-- A machine with the loopback interface, no name server and a bare file system. -/
def standalone : Environment where
  interfaceIndex? name := if name = "lo".toList then some 1 else none
  resolve host := (NumericHost.parse? host).toList.map .v4
  pathStatus :=
    FileTree.status
      (.directory [
        ("dev".toList, .directory [("null".toList, .file)]),
        ("run".toList, .directory []),
        ("tmp".toList, .directory [])])
      (.directory [])

end Environment

end NamedData
