import AtomicSet.Benchmark.Measurement
import AtomicSet.Helping.Execute
import AtomicSet.Locking.LockingSet
import AtomicSet.Text.Listing

/-!
# The work of a benchmark run

A run draws numbers: for each operation one out of a hundred, which decides its kind, and a key.

## Main definitions

* `Settings.operation` — the operation that two draws stand for.
* `Target` — the set of either engine that a run works on.
* `Target.measurement` — what a run amounts to.
-/

namespace AtomicSet

/-- The operation that a draw from `0` to `99` and a key stand for. -/
def Settings.operation (s : Settings) (draw key : Nat) : Operation Int Nat :=
  if draw < s.findRate then .find key
  else if draw < s.findRate + s.insertRate then .insert key key
  else .delete key

/-- The set that a run works on. -/
inductive Target where
  | helping (set : Store Int Nat)
  | locking (set : LockingSet Int Nat)

namespace Target

/-- An empty set of the engine that the settings name. -/
def ofSettings (s : Settings) : Target :=
  match s.engine with
  | .helping => helping {}
  | .locking => locking { timeout := s.lockLimit }

/-- Runs a transaction. -/
def execute (ops : List (Operation Int Nat)) : Target → Target
  | helping set => helping (set.execute ops).1
  | locking set => locking (set.execute ops).1

/-- The counters of the set. -/
def tally : Target → Tally
  | helping set => set.tally
  | locking set => set.tally

/-- The listing of the set. -/
def lines : Target → List String
  | helping set => set.survey.map surveyLine
  | locking set => set.entries.map entryLine

/-- What a run of some transactions on the set amounts to, the counters having stood at `start`
before it. No memory was watched. -/
def measurement (t : Target) (s : Settings) (start : Tally) (transactions : Nat) : Measurement where
  throughput := transactions / s.interval
  commits := t.tally.commits - start.commits
  aborts := t.tally.aborts - start.aborts
  fakeAborts := t.tally.fakeAborts - start.fakeAborts
  peakMemory := 0
  averageMemory := 0

end Target

end AtomicSet
