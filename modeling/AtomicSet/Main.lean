import AtomicSet.Benchmark.Arguments
import AtomicSet.Benchmark.Workload
import AtomicSet.Files.Path

/-!
# The benchmark program

Reads the command line, opens the file for the results, runs random transactions for the time asked
for, and shows and writes what it measured. All transactions run in one thread.
-/

open AtomicSet

/-- Opens the file for the results; a new one gets the header line first. -/
def openResults (output : String) : IO IO.FS.Handle := do
  if let some above := (Path.ofText output).parent? then
    unless above.names.isEmpty do
      IO.FS.createDirAll above.text
  let isNew ←
    try
      let _ ← IO.FS.Handle.mk output .read
      pure false
    catch _ => pure true
  let results ← IO.FS.Handle.mk output .append
  if isNew then results.putStr Measurement.headerLine
  return results

/-- Fills the set with keys drawn at random. -/
def prefillSet (s : Settings) (t : Target) : IO Target := do
  let mut t := t
  for _ in [0:s.prefill] do
    let key ← IO.rand 0 (s.keyRange - 1)
    t := t.execute [.insert key key]
  return t

/-- Runs random transactions until the clock shows `deadline`, and counts them. -/
partial def work (s : Settings) (deadline : Nat) (t : Target) (transactions : Nat) :
    IO (Target × Nat) := do
  if deadline ≤ (← IO.monoMsNow) then return (t, transactions)
  let mut ops := #[]
  for _ in [0:s.txnSize] do
    ops := ops.push (s.operation (← IO.rand 0 99) (← IO.rand 0 (s.keyRange - 1)))
  work s deadline (t.execute ops.toList) (transactions + 1)

/-- Runs the benchmark and shows what it measured. -/
def bench (s : Settings) (results : Option IO.FS.Handle) : IO Unit := do
  IO.println s.text
  let t ← prefillSet s (.ofSettings s)
  IO.println "prefilled... "
  let (done, transactions) ← work s ((← IO.monoMsNow) + 1000 * s.interval) t 0
  IO.println "end"
  if s.print then done.lines.forM IO.println
  let m := done.measurement s t.tally transactions
  if let some h := results then h.putStr (Measurement.row s m)
  IO.println m.text

/-- Runs the program: exit code 2 for a command line that is rejected, 1 for any other failure. -/
def main (arguments : List String) : IO UInt32 := do
  match Settings.ofArguments arguments with
  | .error .helpRequested =>
    IO.println "Benchmark for transactional sets: -d ENGINE and -t THREADS are required."
    return 0
  | .error _ =>
    IO.eprintln "error: the arguments are not understood; --help shows how to use them"
    return 2
  | .ok s =>
    match s.check with
    | .error f =>
      IO.eprintln f.message
      return 1
    | .ok () =>
      try
        let results ← s.output.mapM openResults
        unless s.dryRun do bench s results
        return 0
      catch e =>
        IO.eprintln s!"cannot open output: {e}"
        return 1
