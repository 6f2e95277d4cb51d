import AtomicSet.Benchmark.Settings
import AtomicSet.Text.ByteSize

/-!
# Results of a benchmark run

## Main definitions

* `Measurement` — what a run measured, with `Measurement.text`.
* `Measurement.headerLine`, `Measurement.row` — the results of runs as a table with commas between
  the fields of a line.
-/

namespace AtomicSet

/-- What a run measured. -/
structure Measurement where
  /-- Transactions in a second. -/
  throughput : Nat
  commits : Nat
  aborts : Nat
  fakeAborts : Nat
  /-- The most memory in use, in bytes. -/
  peakMemory : Nat
  /-- The memory in use on average, in bytes. -/
  averageMemory : Nat
deriving DecidableEq, Repr

namespace Measurement

/-- One line about what a run measured. -/
def text (m : Measurement) : String :=
  s!"txns/s: {m.throughput}, commit: {m.commits}, abort (total/fake): " ++
    s!"{m.aborts}/{m.fakeAborts}, peak mem: {ByteSize.text m.peakMemory}, " ++
    s!"avg_mem: {ByteSize.text m.averageMemory}"

/-- The columns of the table: the name of each, and its field of a run. -/
def columns : List (String × (Settings → Measurement → String)) :=
  [("ds", fun s _ => s.engine.name),
    ("threads", fun s _ => toString s.threads),
    ("txn_size", fun s _ => toString s.txnSize),
    ("key_range", fun s _ => toString s.keyRange),
    ("insert_rate", fun s _ => toString s.insertRate),
    ("delete_rate", fun s _ => toString s.deleteRate),
    ("txns_per_cs", fun s _ => s.batchSize.text),
    ("throughput", fun _ m => toString m.throughput),
    ("commits", fun _ m => toString m.commits),
    ("aborts", fun _ m => toString m.aborts),
    ("fake_aborts", fun _ m => toString m.fakeAborts),
    ("peak_mem", fun _ m => toString m.peakMemory),
    ("avg_mem", fun _ m => toString m.averageMemory)]

/-- A line of the table. No field holds a comma, a quote or a line break. -/
def line (fields : List String) : String :=
  ",".intercalate fields ++ "\n"

/-- The first line of a table: the names of the columns. -/
def headerLine : String :=
  line (columns.map Prod.fst)

/-- The line of a run. -/
def row (s : Settings) (m : Measurement) : String :=
  line (columns.map fun c => c.2 s m)

end Measurement

end AtomicSet
