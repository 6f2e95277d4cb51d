import AtomicSet.Proofs.Benchmark.Output

/-!
# What setting up leaves behind

A run that ends before its benchmark should be as if it had not been. A command line that is
rejected, or that gives an empty range of keys, leaves everything as it was. So does an output that
cannot be had as long as only files are looked at: no file changes and none is new. But the
directories on the way to it are created before it is opened, and nobody takes them back. A dry run
ends after the output has been opened, and changes nothing elsewhere.

## Main definitions

* `Left` — what setting up a run may leave, by how it ended.

## Main results

* `left_setUp` — it leaves no more.
* `setUp_leaves_traces` — such things do stay.
-/

namespace AtomicSet

/-- What setting up a run in the tree `t` may leave, by how it ended. The last case is stated for
every run that is ready for its benchmark, but the one that is meant is the dry run, which ends
there. -/
def Left (t : FileTree) : FileTree × Setup → Prop
  | (t', .rejected _) => t' = t
  | (t', .faulted _ _) => t' = t
  | (t', .unopened s _) => ∀ q, t'.node? q = t.node? q ∨
      t.node? q = none ∧ t'.node? q = some .directory ∧ q ∈ s.parents
  | (t', .ready s _) => ∀ q, t'.node? q = t.node? q ∨
      t.node? q = none ∧ (s.place? = some q ∨ q ∈ s.parents)

/-- **Setting up leaves no more than that**, whatever the command line is and whatever is there. -/
theorem left_setUp (t : FileTree) (arguments : List String) : Left t (setUp t arguments) := by
  have hcases := setUp_cases t arguments
  generalize setUp t arguments = result at hcases
  cases hcases with
  | rejected _ => exact rfl
  | faulted _ _ => exact rfl
  | closed _ _ _ => exact fun q => .inl rfl
  | unopened _ _ paved => exact paved
  | @opened s output t' place _ _ named opened =>
      intro q
      cases hq : t.node? q with
      | some n => exact .inl (opened.node?_eq_some hq)
      | none =>
          obtain ⟨hplace, -, -, hothers⟩ := opened.node?
          by_cases hqp : q = place
          · refine .inr ⟨rfl, .inl ?_⟩
            rw [Settings.place?, named, hqp, hplace]
            rfl
          · rcases hothers q hqp with heq | ⟨-, -, hway⟩
            · exact .inl (heq.trans hq)
            · refine .inr ⟨rfl, .inr ?_⟩
              rw [Settings.parents, named]
              exact hway

/-- The command line names a directory as its output: the output cannot be opened, and the directory
above it stays. In the other one the run is a dry one: its output stays, with the header line. -/
theorem setUp_leaves_traces :
    (setUp {} ["-d", "trans-list", "-t", "1", "-o", "results/today/"] =
        (⟨[(["results"], .directory)]⟩,
          .unopened (.standard .helping 1 (some "results/today/")) .isDirectory) ∧
      (setUp {} ["-d", "trans-list", "-t", "1", "-o", "results/today/"]).2.starts = false ∧
      (setUp {} ["-d", "trans-list", "-t", "1", "-o", "results/today/"]).1 ≠ {}) ∧
    (setUp {} ["-d", "trans-list", "-t", "1", "-o", "out.csv", "--dry-run"] =
        (⟨[(["out.csv"], .file Measurement.headerLine)]⟩,
          .ready { Settings.standard .helping 1 (some "out.csv") with dryRun := true }
            (some ["out.csv"])) ∧
      (setUp {} ["-d", "trans-list", "-t", "1", "-o", "out.csv", "--dry-run"]).2.starts = false ∧
      (setUp {} ["-d", "trans-list", "-t", "1", "-o", "out.csv", "--dry-run"]).1 ≠ {}) := by
  have hline : Settings.ofArguments ["-d", "trans-list", "-t", "1", "-o", "results/today/"] =
      .ok (.standard .helping 1 (some "results/today/")) := by decide +kernel
  have hdryLine : Settings.ofArguments
      ["-d", "trans-list", "-t", "1", "-o", "out.csv", "--dry-run"] =
      .ok { Settings.standard .helping 1 (some "out.csv") with dryRun := true } := by decide +kernel
  have hleft : setUp {} ["-d", "trans-list", "-t", "1", "-o", "results/today/"] =
      (⟨[(["results"], .directory)]⟩,
        .unopened (.standard .helping 1 (some "results/today/")) .isDirectory) := by
    simp only [setUp, hline, Settings.standard, openOutput, Path.ofText_eq]
    decide
  have hdryLeft : setUp {} ["-d", "trans-list", "-t", "1", "-o", "out.csv", "--dry-run"] =
      (⟨[(["out.csv"], .file Measurement.headerLine)]⟩,
        .ready { Settings.standard .helping 1 (some "out.csv") with dryRun := true }
          (some ["out.csv"])) := by
    simp only [setUp, hdryLine, Settings.standard, openOutput, Path.ofText_eq]
    decide
  rw [hleft, hdryLeft]
  exact ⟨⟨rfl, rfl, by decide⟩, rfl, rfl, by decide⟩

end AtomicSet
