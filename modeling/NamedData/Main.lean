import NamedData.CommandLine

/-!
# The program

Reads the configuration file that the arguments name and carries out what follows from them. The
library has no sockets, so a program that would serve has nothing more to do.
-/

open NamedData

/-- The bytes of the files that the arguments may name as the configuration. -/
def readConfigs (args : List String) : IO (List (String × ByteArray)) :=
  args.filterMapM fun (path : String) => do
    try
      let content ← IO.FS.readBinFile path
      return some (path, content)
    catch _ => return none

def main (args : List String) : IO UInt32 := do
  let path := match CommandLine.parse args with
    | .ok (.run options) => options.configPath.toList
    | _ => []
  let files ← readConfigs path
  match CommandLine.outcome args fun path => files.lookup path with
  | .exit code out err =>
    IO.print out
    IO.eprint err
    return code.toUInt32
  | .serve _ => return 0
