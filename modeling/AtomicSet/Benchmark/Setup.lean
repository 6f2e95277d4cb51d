import AtomicSet.Benchmark.Arguments
import AtomicSet.Benchmark.Measurement
import AtomicSet.Files.FileTree

/-!
# Setting up a benchmark run

A run starts from its command line. The line is read, the range of keys is checked, and the file for
the results is opened; a new one gets the header line first. A dry run ends there.

## Main definitions

* `Setup` — how setting up ended.
* `setUp` — sets a run up in a file tree.
* `record` — writes the results of a run.
* `runBenchmark` — sets a run up and, if it is ready and was measured, writes its results.
-/

namespace AtomicSet

/-- How setting up a run ended. -/
inductive Setup where
  /-- The command line is rejected. -/
  | rejected (e : ArgumentError)
  /-- The settings make no run. -/
  | faulted (s : Settings) (f : Fault)
  /-- The file for the results cannot be had. -/
  | unopened (s : Settings) (e : FileError)
  /-- The run can start; its results go to the place, if there is one. -/
  | ready (s : Settings) (output : Option Place)
deriving DecidableEq, Repr

namespace Setup

/-- The wording of an output that cannot be had. -/
def unopenedMessage (e : FileError) : String :=
  s!"cannot open output: {e.text}"

/-- The exit code of a dry run, if it was one: it ends once the run is set up. -/
def exitCode? : Setup → Option Nat
  | rejected _ => none
  | faulted s _ => if s.dryRun then some 101 else none
  | unopened s _ => if s.dryRun then some 1 else none
  | ready s _ => if s.dryRun then some 0 else none

end Setup

/-- Opens the file for the results, and creates it and the directories above it if they are missing.
What was created before an error stays. -/
def openOutput (t : FileTree) (output : String) : FileTree × Except FileError Place :=
  let p := Path.ofText output
  let above : FileTree × Except FileError Unit :=
    match p.parent? with
    | none => (t, .ok ())
    | some above => t.makeDirectories above
  match above with
  | (t, .error e) => (t, .error e)
  | (t, .ok ()) =>
    match t.openForAppending p Measurement.headerLine with
    | .error e => (t, .error e)
    | .ok (t, place) => (t, .ok place)

/-- Sets a run up. -/
def setUp (t : FileTree) (arguments : List String) : FileTree × Setup :=
  match Settings.ofArguments arguments with
  | .error e => (t, .rejected e)
  | .ok s =>
    match s.check with
    | .error f => (t, .faulted s f)
    | .ok () =>
      match s.output with
      | none => (t, .ready s none)
      | some output =>
        match openOutput t output with
        | (t, .error e) => (t, .unopened s e)
        | (t, .ok place) => (t, .ready s (some place))

/-- Writes the results of a run to its output. -/
def record (t : FileTree) (s : Settings) (output : Option Place) (m : Measurement) : FileTree :=
  match output with
  | none => t
  | some place => t.append place (Measurement.row s m)

/-- Sets a run up and, unless it is a dry run, writes its results if it was measured. -/
def runBenchmark (t : FileTree) (arguments : List String) (m : Option Measurement) :
    FileTree × Setup :=
  match setUp t arguments, m with
  | (t, .ready s output), some m =>
    (if s.dryRun then t else record t s output m, .ready s output)
  | (t, setup), _ => (t, setup)

end AtomicSet
