import AtomicSet.Fault
import AtomicSet.Text.Duration

/-!
# Settings of a benchmark run

Which engine runs how many threads, on which keys, with which mix of operations and for how long.
Insertions and deletions have their rates in percent, and lookups get the rest; a deletion rate that
leaves less than nothing for the lookups is cut down.

## Main definitions

* `Engine`, `BatchSize`, `Settings` — the settings.
* `Settings.findRate`, `Settings.prefill`, … — what follows from them.
* `Settings.check` — refuses an empty range of keys.
* `Settings.text` — one line about a run.
-/

namespace AtomicSet

/-- The engines that can be run. -/
inductive Engine where
  /-- Transactions help each other along. -/
  | helping
  /-- Transactions lock their keys. -/
  | locking
deriving DecidableEq, Repr

/-- The name of an engine on the command line and in the results. -/
def Engine.name : Engine → String
  | helping => "trans-list"
  | locking => "boosting-list"

/-- How many transactions a thread runs in one critical section. -/
inductive BatchSize where
  | one
  | four
deriving DecidableEq, Repr

/-- The number behind a batch size, in digits. -/
def BatchSize.text : BatchSize → String
  | one => "1"
  | four => "4"

/-- The settings of a run. -/
structure Settings where
  engine : Engine
  threads : Nat
  /-- Operations in a transaction. -/
  txnSize : Nat
  /-- Keys are drawn from zero up to this number. -/
  keyRange : Nat
  /-- Percentage of insertions. -/
  insertRate : Nat
  /-- Percentage of deletions. -/
  deleteRate : Nat
  /-- Seconds to run. -/
  interval : Nat
  /-- Milliseconds between two looks at the memory in use; zero for none. -/
  samplingPeriod : Nat
  batchSize : BatchSize
  /-- Milliseconds to wait for a key lock. -/
  lockTimeout : Nat
  /-- Where to append the results. -/
  output : Option String
  /-- Whether to print the set after the run. -/
  print : Bool
  /-- Whether only to check the settings. -/
  dryRun : Bool
deriving DecidableEq, Repr

namespace Settings

/-- The percentage of lookups. -/
def findRate (s : Settings) : Nat :=
  100 - s.insertRate - s.deleteRate

/-- The shares of lookups, and of lookups and insertions, out of a hundred. -/
def cumulative (s : Settings) : List Nat :=
  [s.findRate, s.findRate + s.insertRate]

/-- The number of keys drawn to fill the set before a run. -/
def prefill (s : Settings) : Nat :=
  s.keyRange / 2

/-- The number of threads that watch the memory in use. -/
def auxThreads (s : Settings) : Nat :=
  if 0 < s.samplingPeriod then 1 else 0

/-- How often such a thread wakes up. -/
def auxPeriod (_ : Settings) : Duration :=
  .ofMilliseconds 1

/-- How long a transaction waits for a lock. -/
def lockLimit (s : Settings) : Duration :=
  .ofMilliseconds s.lockTimeout

/-- Refuses an empty range of keys: there is nothing to draw from. -/
def check (s : Settings) : Except Fault Unit :=
  if s.keyRange = 0 then .error .emptyKeyRange else .ok ()

/-- One line about a run. -/
def text (s : Settings) : String :=
  s!"{s.engine.name}: {s.threads} threads, {s.txnSize} ops/txn, {s.keyRange} keys, " ++
    s!"{s.insertRate}% insert, {s.deleteRate}% delete, c{s.batchSize.text}"

end Settings

end AtomicSet
