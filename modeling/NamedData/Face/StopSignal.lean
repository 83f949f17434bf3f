/-!
# Stop signals

A face has one signal for all that runs on its behalf. Whoever subscribes sees, once, that it was
given since the last look, and a new subscriber has seen nothing yet.
-/

namespace NamedData

/-- How often the signal was given, and how many tasks are to be joined. -/
structure StopSignal where
  calls : Nat := 0
  tasks : Nat := 0
deriving DecidableEq, Repr

/-- A subscriber knows the calls that it has seen. -/
structure StopSubscription where
  seen : Nat := 0
deriving DecidableEq, Repr

namespace StopSignal

def isStopped (s : StopSignal) : Bool :=
  0 < s.calls

def stop (s : StopSignal) : StopSignal :=
  { s with calls := s.calls + 1 }

def addTask (s : StopSignal) : StopSignal :=
  { s with tasks := s.tasks + 1 }

/-- Waits for all tasks, which end once the signal was given; until then nothing is joined. -/
def join (s : StopSignal) : StopSignal :=
  if s.isStopped then { s with tasks := 0 } else s

end StopSignal

namespace StopSubscription

/-- Whether the signal was given since the last look, and the subscription after it. -/
def changed (r : StopSubscription) (s : StopSignal) : Bool × StopSubscription :=
  if r.seen < s.calls then (true, ⟨s.calls⟩) else (false, r)

end StopSubscription

end NamedData
