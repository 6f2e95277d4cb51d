import AtomicSet.Proofs.Benchmark.Output
import AtomicSet.Proofs.Benchmark.Table

/-!
# Results accumulate

Runs that follow each other on one file tree may name all kinds of outputs, some of them the same
file by different paths. Whatever they name, each file holds in the end what it held at first, or
the header line if it is new, and behind that the rows of the runs that wrote to it, in the order of
the runs; the directories on the way to a file are there, and nothing else has changed.

## Main definitions

* `BenchmarkRun`, `runBenchmarks` — runs one after another.
* `RunLog` — the settings of runs and what they measured; `RunLog.rowsAt` — the rows they write to a
  place.
* `Accumulated` — what the runs of a log make of a tree.

## Main results

* `accumulated_runBenchmark` — one run.
* `Accumulated.cons` — one run, and then others.
* `results_accumulate` — any sequence of runs.
-/

namespace AtomicSet

/-- A run: the arguments of its command line, and what it measured, if it came to that. -/
structure BenchmarkRun where
  arguments : List String
  measured : Option Measurement
deriving DecidableEq, Repr

/-- Runs one after another, on one file tree. -/
def runBenchmarks (t : FileTree) : List BenchmarkRun → FileTree × List Setup
  | [] => (t, [])
  | r :: rs =>
    let (t', setup) := runBenchmark t r.arguments r.measured
    let (t'', setups) := runBenchmarks t' rs
    (t'', setup :: setups)

/-- The settings of runs, and what each of them measured if it did. -/
abbrev RunLog := List (Settings × Option Measurement)

namespace RunLog

/-- The row that a run writes to a place. -/
def rowAt? (place : Place) (e : Settings × Option Measurement) : Option String :=
  if e.1.place? = some place then e.2.map (Measurement.row e.1) else none

/-- The rows that runs write to a place, in order. -/
def rowsAt (place : Place) (log : RunLog) : String :=
  String.join (log.filterMap (rowAt? place))

/-- Some run has its output in this place. -/
def Opens (log : RunLog) (place : Place) : Prop :=
  ∃ e ∈ log, e.1.place? = some place

/-- The path of some run's output leads through this place. -/
def Passes (log : RunLog) (place : Place) : Prop :=
  ∃ e ∈ log, place ∈ e.1.parents

/-- The rows of a run stand in front of those of the runs after it. -/
theorem rowsAt_cons (place : Place) (e : Settings × Option Measurement) (log : RunLog) :
    rowsAt place (e :: log) = rowsAt place [e] ++ rowsAt place log := by
  rw [rowsAt, rowsAt, rowsAt, ← String.join_append, ← List.filterMap_append, List.singleton_append]

/-- An output is that of the first run or of a later one. -/
theorem opens_cons {place : Place} {e : Settings × Option Measurement} {log : RunLog} :
    Opens (e :: log) place ↔ Opens [e] place ∨ Opens log place := by
  simp [Opens]

/-- A place on the way to an output is so for the first run or for a later one. -/
theorem passes_cons {place : Place} {e : Settings × Option Measurement} {log : RunLog} :
    Passes (e :: log) place ↔ Passes [e] place ∨ Passes log place := by
  simp [Passes]

/-- Nothing is written to a place that is nobody's output. -/
theorem rowsAt_of_not_opens {place : Place} {log : RunLog} (h : ¬ Opens log place) :
    rowsAt place log = "" := by
  have hnone : log.filterMap (rowAt? place) = [] := by
    refine List.filterMap_eq_nil_iff.mpr fun e he => ?_
    exact if_neg fun hplace => h ⟨e, he, hplace⟩
  rw [rowsAt, hnone, String.join_nil]

end RunLog

open RunLog

/-- What the runs of a log make of the tree `t`, if it ends as `t'`. -/
structure Accumulated (t t' : FileTree) (log : RunLog) : Prop where
  /-- A file that was there has got the rows of the runs that wrote to it, and nothing else. -/
  extended : ∀ place text, t.node? place = some (.file text) →
    t'.node? place = some (.file (text ++ rowsAt place log))
  /-- A new output has got the header line once, and then rows. -/
  created : ∀ place, t.node? place = none → Opens log place →
    t'.node? place = some (.file (Measurement.headerLine ++ rowsAt place log))
  /-- The directories on the way to an output are there. -/
  passed : ∀ place, Passes log place → t'.node? place = some .directory
  /-- A directory stays one, and is no output. -/
  directory : ∀ place, t.node? place = some .directory →
    t'.node? place = some .directory ∧ ¬ Opens log place
  /-- Nothing else is new. -/
  untouched : ∀ place, t.node? place = none → ¬ Opens log place → ¬ Passes log place →
    t'.node? place = none

namespace Accumulated

variable {t t' t'' : FileTree}

/-- Without any run, the tree stays as it is. -/
theorem nil (t : FileTree) : Accumulated t t [] where
  extended place text h := by rw [h]; simp [rowsAt]
  created place _ h := by simp [Opens] at h
  passed place h := by simp [Passes] at h
  directory place h := ⟨h, by simp [Opens]⟩
  untouched place h _ _ := h

/-- **One run, and then others.** -/
theorem cons {e : Settings × Option Measurement} {log : RunLog} (h : Accumulated t t' [e])
    (h' : Accumulated t' t'' log) : Accumulated t t'' (e :: log) where
  extended place text htext := by
    rw [rowsAt_cons, ← String.append_assoc]
    exact h'.extended place _ (h.extended place text htext)
  created place hnone hopens := by
    rw [rowsAt_cons, ← String.append_assoc]
    by_cases hfirst : Opens [e] place
    · exact h'.extended place _ (h.created place hnone hfirst)
    · have hlater : Opens log place := (opens_cons.mp hopens).resolve_left hfirst
      have hnone' : t'.node? place = none :=
        h.untouched place hnone hfirst fun hpasses =>
          (h'.directory place (h.passed place hpasses)).2 hlater
      rw [rowsAt_of_not_opens hfirst, String.append_empty]
      exact h'.created place hnone' hlater
  passed place hpasses := by
    rcases passes_cons.mp hpasses with hfirst | hlater
    · exact (h'.directory place (h.passed place hfirst)).1
    · exact h'.passed place hlater
  directory place hdirectory := by
    obtain ⟨hstill, hfirst⟩ := h.directory place hdirectory
    obtain ⟨hstill', hlater⟩ := h'.directory place hstill
    exact ⟨hstill', fun hopens => (opens_cons.mp hopens).elim hfirst hlater⟩
  untouched place hnone hopens hpasses := by
    rw [opens_cons, not_or] at hopens
    rw [passes_cons, not_or] at hpasses
    exact h'.untouched place (h.untouched place hnone hopens.1 hpasses.1) hopens.2 hpasses.2

end Accumulated

/-! ### One run -/

/-- What a run writes to the tree `t` in which its output is open. -/
def recordAll (t : FileTree) (s : Settings) (output : Option Place) (m : Option Measurement) :
    FileTree :=
  match m with
  | none => t
  | some m => record t s output m

/-- What a run writes once its output is open. -/
theorem node?_recordAll {s : Settings} {place : Place} (hplace : s.place? = some place)
    (t : FileTree) (m : Option Measurement) (q : Place) :
    (recordAll t s (some place) m).node? q =
      (t.node? q).map fun n => n.append (rowsAt q [(s, m)]) := by
  cases m with
  | none =>
      have hrows : rowsAt q [(s, none)] = "" := by simp [rowsAt, rowAt?]
      simp [recordAll, hrows]
  | some m =>
      rw [recordAll, record, FileTree.node?_append]
      congr 1
      funext n
      by_cases hq : q = place
      · have hrows : rowsAt q [(s, some m)] = Measurement.row s m := by
          simp [rowsAt, rowAt?, hplace, hq]
        rw [if_pos hq, hrows]
      · have hrows : rowsAt q [(s, some m)] = "" :=
          rowsAt_of_not_opens fun hopens => hq (by simpa [Opens, hplace, eq_comm] using hopens)
        rw [if_neg hq, hrows, FileNode.append_empty]

/-- A run without an output changes nothing. -/
theorem Accumulated.of_unnamed {s : Settings} (unnamed : s.output = none) (t : FileTree)
    (m : Option Measurement) : Accumulated t (recordAll t s none m) [(s, m)] := by
  have hsame : recordAll t s none m = t := by cases m <;> rfl
  have hopens : ∀ place, ¬ Opens [(s, m)] place := by
    simp [Opens, Settings.place?, unnamed]
  have hpasses : ∀ place, ¬ Passes [(s, m)] place := by
    simp [Passes, Settings.parents, unnamed]
  rw [hsame]
  refine ⟨fun place text h => ?_, fun place _ h => absurd h (hopens place),
    fun place h => absurd h (hpasses place), fun place h => ⟨h, hopens place⟩, fun place h _ _ => h⟩
  rw [rowsAt_of_not_opens (hopens place), String.append_empty]
  exact h

/-- A run with an output that could be opened. -/
theorem Accumulated.of_opened {s : Settings} {output : String} (named : s.output = some output)
    {t t' : FileTree} {place : Place} (opened : Opened t (Path.ofText output) (t', .ok place))
    (m : Option Measurement) : Accumulated t (recordAll t' s (some place) m) [(s, m)] := by
  obtain ⟨rfl, ⟨text, hfile, hbefore⟩, hways, hothers⟩ := opened.node?
  have hplace : s.place? = some (Path.ofText output).place := by rw [Settings.place?, named]; rfl
  have hparents : s.parents = Path.ways (Path.ofText output).names.dropLast := by
    rw [Settings.parents, named]
  have hopens : ∀ q, Opens [(s, m)] q ↔ q = (Path.ofText output).place := by
    simp [Opens, hplace, eq_comm]
  have hpasses : ∀ q, Passes [(s, m)] q ↔ q ∈ s.parents := by simp [Passes]
  have hrecord := node?_recordAll hplace t' m
  constructor
  case extended =>
    intro q old hq
    rw [hrecord, opened.node?_eq_some hq]
    rfl
  case created =>
    intro q hq hopen
    obtain rfl := (hopens q).mp hopen
    rcases hbefore with hthere | ⟨-, rfl⟩
    · rw [hthere] at hq
      cases hq
    · rw [hrecord, hfile]
      rfl
  case passed =>
    intro q hpass
    rw [hpasses, hparents] at hpass
    rw [hrecord, hways q hpass]
    rfl
  case directory =>
    intro q hq
    have hdirectory := opened.node?_eq_some hq
    refine ⟨by rw [hrecord, hdirectory]; rfl, fun hopen => ?_⟩
    rw [(hopens q).mp hopen, hfile] at hdirectory
    cases hdirectory
  case untouched =>
    intro q hq hopen hpass
    rw [hopens] at hopen
    rw [hpasses, hparents] at hpass
    rcases hothers q hopen with heq | ⟨-, -, hway⟩
    · rw [hrecord, heq, hq]
      rfl
    · exact absurd hway hpass

/-- A run sets up, and then writes what it measured unless it is a dry run. -/
theorem runBenchmark_eq (t : FileTree) (arguments : List String) (m : Option Measurement) :
    runBenchmark t arguments m =
      (match (setUp t arguments).2 with
        | .ready s output =>
          if s.dryRun then (setUp t arguments).1 else recordAll (setUp t arguments).1 s output m
        | .rejected _ | .faulted _ _ | .unopened _ _ => (setUp t arguments).1,
        (setUp t arguments).2) := by
  unfold runBenchmark
  rcases setUp t arguments with ⟨t', e | ⟨s, f⟩ | ⟨s, e⟩ | ⟨s, output⟩⟩ <;> cases m <;>
    simp [recordAll]

/-- **One run.** -/
theorem accumulated_runBenchmark {t : FileTree} {arguments : List String} {m : Option Measurement}
    (h : (runBenchmark t arguments m).2.starts) :
    ∃ s, Settings.ofArguments arguments = .ok s ∧
      (runBenchmark t arguments m).2 = .ready s s.place? ∧
      Accumulated t (runBenchmark t arguments m).1 [(s, m)] := by
  rw [runBenchmark_eq] at h ⊢
  have hcases := setUp_cases t arguments
  generalize setUp t arguments = result at *
  cases hcases with
  | rejected line => cases h
  | faulted line unfit => cases h
  | unopened line fit paved => cases h
  | @closed s line fit unnamed =>
      have hplace : s.place? = none := by rw [Settings.place?, unnamed]; rfl
      have hdry : s.dryRun = false := by simpa [Setup.starts] using h
      refine ⟨s, line, by rw [hplace], ?_⟩
      simpa only [hdry, Bool.false_eq_true, if_false] using .of_unnamed unnamed t m
  | @opened s output t' place line fit named opened =>
      have hplace : s.place? = some place := by
        rw [opened.node?.1, Settings.place?, named]
        rfl
      have hdry : s.dryRun = false := by simpa [Setup.starts] using h
      refine ⟨s, line, by rw [hplace], ?_⟩
      simpa only [hdry, Bool.false_eq_true, if_false] using .of_opened named opened m

/-! ### Runs one after another -/

/-- These are the values and flags that a command line gives. -/
def Draft.Given (arguments : List String) (d : Draft) : Prop :=
  ∃ r r', arguments.foldlM Reader.read {} = .ok r ∧ r.settle = .ok r' ∧ r'.draft = d

/-- The settings of a command line are those of the values it gives. -/
theorem Draft.exists_given {arguments : List String} {s : Settings}
    (h : Settings.ofArguments arguments = .ok s) :
    ∃ d, Draft.Given arguments d ∧ d.settings = .ok s := by
  rw [Settings.ofArguments] at h
  cases hread : arguments.foldlM Reader.read {} with
  | error e =>
      rw [hread] at h
      cases h
  | ok r =>
      rw [hread] at h
      change (do let r' ← r.settle; r'.draft.settings) = Except.ok s at h
      cases hsettle : r.settle with
      | error e =>
          rw [hsettle] at h
          cases h
      | ok r' =>
          rw [hsettle] at h
          exact ⟨r'.draft, ⟨r, r', hread, hsettle, rfl⟩, h⟩

/-- The settings have the deletion rate asked for, cut down to what the insertions leave. -/
theorem Draft.deleteRate_settings {d : Draft} {s : Settings} (h : d.settings = .ok s) :
    s.deleteRate = min (d.deleteRate.getD 50) (100 - s.insertRate) := by
  rw [settings] at h
  split at h
  · obtain rfl := Except.ok.inj h
    rfl
  · cases h

/-- The entry of a run: what it measured, the settings its command line gives, and a row that can be
split again. -/
structure Logged (r : BenchmarkRun) (e : Settings × Option Measurement) : Prop where
  measured : e.2 = r.measured
  settings : ∃ d, Draft.Given r.arguments d ∧ d.settings = .ok e.1 ∧
    e.1.deleteRate = min (d.deleteRate.getD 50) (100 - e.1.insertRate)
  tabulated : ∀ m, e.2 = some m → ∃ names fields, Measurement.Tabulated e.1 m names fields

/-- A run whose command line is read is logged with the settings that it gives. -/
theorem logged_of_ofArguments {r : BenchmarkRun} {s : Settings}
    (h : Settings.ofArguments r.arguments = .ok s) : Logged r (s, r.measured) where
  measured := rfl
  settings := by
    obtain ⟨d, hgiven, hsettings⟩ := Draft.exists_given h
    exact ⟨d, hgiven, hsettings, Draft.deleteRate_settings hsettings⟩
  tabulated m _ := Measurement.exists_tabulated s m

/-- **Results accumulate without loss.** If all runs of a sequence start, each output holds in the
end what it held before, or the header line if it is new, and one row for each run that wrote to it,
in order; nothing else has changed but that the directories on the way to the outputs are there. -/
theorem results_accumulate (t : FileTree) (runs : List BenchmarkRun)
    (h : ∀ setup ∈ (runBenchmarks t runs).2, setup.starts) :
    ∃ log : RunLog, List.Forall₂ Logged runs log ∧
      (runBenchmarks t runs).2 = log.map (fun e => .ready e.1 e.1.place?) ∧
      Accumulated t (runBenchmarks t runs).1 log := by
  induction runs generalizing t with
  | nil => exact ⟨[], .nil, rfl, .nil t⟩
  | cons r rs ih =>
      rw [runBenchmarks] at h ⊢
      obtain ⟨hfirst, hrest⟩ := List.forall_mem_cons.mp h
      obtain ⟨s, hline, hready, hone⟩ := accumulated_runBenchmark hfirst
      obtain ⟨log, hlogged, hsetups, hall⟩ := ih (runBenchmark t r.arguments r.measured).1 hrest
      refine ⟨(s, r.measured) :: log, .cons (logged_of_ofArguments hline) hlogged, ?_,
        hone.cons hall⟩
      rw [List.map_cons, ← hsetups, ← hready]

/-- A tree with a file of somebody else's. -/
def notedTree : FileTree :=
  ⟨[(["notes.csv"], .file "by hand\n")]⟩

/-- Runs that write to a new file by two paths, to one that is there, and to none. -/
def mixedRuns : List BenchmarkRun :=
  [⟨["-d", "trans-list", "-t", "4", "-o", "out/a.csv"], some ⟨100, 90, 10, 1, 0, 0⟩⟩,
    ⟨["-d", "Boosting-List", "-t1", "-p80", "-x", "50", "-o", "out/../out/a.csv"],
      some ⟨200, 180, 20, 2, 7, 5⟩⟩,
    ⟨["-d", "trans-list", "-t", "2", "-o", "notes.csv"], some ⟨300, 270, 30, 3, 0, 0⟩⟩,
    ⟨["-d", "trans-list", "-t", "8", "-o", "out/b.csv"], none⟩]

/-- Four runs that start, on two new files and one that was there. -/
theorem results_accumulate_mixed :
    (∀ setup ∈ (runBenchmarks notedTree mixedRuns).2, setup.starts) ∧
    ∃ log : RunLog, List.Forall₂ Logged mixedRuns log ∧
      (runBenchmarks notedTree mixedRuns).2 = log.map (fun e => .ready e.1 e.1.place?) ∧
      Accumulated notedTree (runBenchmarks notedTree mixedRuns).1 log := by
  have hfirst : Settings.ofArguments ["-d", "trans-list", "-t", "4", "-o", "out/a.csv"] =
      .ok (.standard .helping 4 (some "out/a.csv")) := by decide +kernel
  have hsecond : Settings.ofArguments
      ["-d", "Boosting-List", "-t1", "-p80", "-x", "50", "-o", "out/../out/a.csv"] =
      .ok { Settings.standard .locking 1 (some "out/../out/a.csv") with
        insertRate := 80, deleteRate := 20 } := by decide +kernel
  have hthird : Settings.ofArguments ["-d", "trans-list", "-t", "2", "-o", "notes.csv"] =
      .ok (.standard .helping 2 (some "notes.csv")) := by decide +kernel
  have hfourth : Settings.ofArguments ["-d", "trans-list", "-t", "8", "-o", "out/b.csv"] =
      .ok (.standard .helping 8 (some "out/b.csv")) := by decide +kernel
  have hstarts : ∀ setup ∈ (runBenchmarks notedTree mixedRuns).2, setup.starts := by
    simp only [mixedRuns, runBenchmarks, runBenchmark, setUp, hfirst, hsecond, hthird, hfourth,
      Settings.standard, openOutput, Path.ofText_eq]
    decide
  exact ⟨hstarts, results_accumulate notedTree mixedRuns hstarts⟩

end AtomicSet
