import NamedData.Duration

/-!
# Redial backoff

The wait before a lost connection is dialled again doubles up to a limit.
-/

namespace NamedData.Backoff

/-- The first wait. -/
def initial : Duration := Duration.ofSecs 1

/-- The wait after this one. -/
def next (limit current : Duration) : Duration :=
  current.double.atMost limit

end NamedData.Backoff
