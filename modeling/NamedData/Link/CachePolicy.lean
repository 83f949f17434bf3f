/-!
# Cache policies

A hint that a neighbour gives about keeping a Data packet.
-/

namespace NamedData

/-- The hint. -/
inductive CachePolicy where
  | noCache
deriving DecidableEq, Repr

namespace CachePolicy

def code : CachePolicy → UInt64
  | noCache => 1

def ofCode? (code : UInt64) : Option CachePolicy :=
  if code = 1 then some noCache else none

end CachePolicy

end NamedData
