import AtomicSet.Benchmark.Setup
import AtomicSet.Proofs.FileTree

/-!
# The file for the results

Opening an output creates the directories that its path leads through, as far as they are missing,
and then the file. Setting up a run does nothing else to a file tree.

## Main definitions

* `Settings.place?`, `Settings.parents` — where the results of a run go, and the directories on the
  way there.
* `Setup.starts` — whether a run goes on.
* `Opened`, `SettingUp` — the endings of opening an output, and of setting up a run.

## Main results

* `opened_openOutput`, `setUp_cases` — these are all endings.
* `Opened.node?`, `Opened.node?_eq_some` — what is there once an output is open, and that nothing
  that was there is lost.
-/

namespace AtomicSet

/-- Where the results of a run go. -/
def Settings.place? (s : Settings) : Option Place :=
  s.output.map fun output => (Path.ofText output).place

/-- The directories that the path of the output leads through. -/
def Settings.parents (s : Settings) : List Place :=
  match s.output with
  | none => []
  | some output => Path.ways (Path.ofText output).names.dropLast

/-- The settings of a command line that gives no more than these. -/
def Settings.standard (engine : Engine) (threads : Nat) (output : Option String) : Settings where
  engine := engine
  threads := threads
  txnSize := 1
  keyRange := 100
  insertRate := 50
  deleteRate := 50
  interval := 10
  samplingPeriod := 1
  batchSize := .one
  lockTimeout := 100
  output := output
  print := false
  dryRun := false

/-- Whether a run goes on from setting up. -/
def Setup.starts : Setup → Bool
  | .ready s _ => !s.dryRun
  | .rejected _ | .faulted _ _ | .unopened _ _ => false

/-- The endings of opening the output that the path `p` names in the tree `t`. -/
inductive Opened (t : FileTree) (p : Path) : FileTree × Except FileError Place → Prop where
  /-- A directory cannot be created, or the file cannot be opened. -/
  | failed {t' : FileTree} (e : FileError) (paved : t.Paved t' (Path.ways p.names.dropLast)) :
      Opened t p (t', .error e)
  /-- The file is there. -/
  | found {t' : FileTree} {text : String} (paved : t.Paved t' (Path.ways p.names.dropLast))
      (walked : t'.Walked p.names.dropLast) (file : t'.node? p.place = some (.file text)) :
      Opened t p (t', .ok p.place)
  /-- The file is new. -/
  | created {t' : FileTree} (paved : t.Paved t' (Path.ways p.names.dropLast))
      (walked : t'.Walked p.names.dropLast) (absent : t'.node? p.place = none) :
      Opened t p (t'.add p.place (.file Measurement.headerLine), .ok p.place)

/-- What opening an output leaves if it succeeds. -/
theorem Opened.node? {t t' : FileTree} {p : Path} {place : Place}
    (h : Opened t p (t', .ok place)) :
    place = p.place ∧
    (∃ text, t'.node? place = some (.file text) ∧
      (t.node? place = some (.file text) ∨
        t.node? place = none ∧ text = Measurement.headerLine)) ∧
    (∀ q ∈ Path.ways p.names.dropLast, t'.node? q = some .directory) ∧
    ∀ q, q ≠ place → t'.node? q = t.node? q ∨
      t.node? q = none ∧ t'.node? q = some .directory ∧ q ∈ Path.ways p.names.dropLast := by
  cases h with
  | @found _ text paved walked file =>
      refine ⟨rfl, ⟨text, file, .inl ?_⟩, fun q hq => walked q hq q List.prefix_rfl,
        fun q _ => paved q⟩
      rcases paved p.place with heq | ⟨-, hdirectory, -⟩
      · rw [← heq, file]
      · rw [hdirectory] at file
        cases file
  | @created t₁ paved walked absent =>
      have hways : ∀ q ∈ Path.ways p.names.dropLast, t₁.node? q = some .directory :=
        fun q hq => walked q hq q List.prefix_rfl
      refine ⟨rfl, ⟨_, by rw [FileTree.node?_add absent, if_pos rfl], .inr ⟨?_, rfl⟩⟩,
        fun q hq => ?_, fun q hne => ?_⟩
      · rcases paved p.place with heq | ⟨hnone, -, -⟩
        · rw [← heq, absent]
        · exact hnone
      · rw [FileTree.node?_add absent, if_neg]
        · exact hways q hq
        · rintro rfl
          rw [hways _ hq] at absent
          cases absent
      · rw [FileTree.node?_add absent, if_neg hne]
        exact paved q

/-- What is there stays when an output is opened. -/
theorem Opened.node?_eq_some {t t' : FileTree} {p : Path} {place q : Place} {n : FileNode}
    (h : Opened t p (t', .ok place)) (hq : t.node? q = some n) : t'.node? q = some n := by
  obtain ⟨-, ⟨text, hfile, hbefore⟩, -, hothers⟩ := h.node?
  by_cases hplace : q = place
  · subst hplace
    rcases hbefore with hthere | ⟨hnone, -⟩
    · rw [hfile, ← hthere, hq]
    · rw [hnone] at hq
      cases hq
  · rcases hothers q hplace with heq | ⟨hnone, -, -⟩
    · rw [heq, hq]
    · rw [hnone] at hq
      cases hq

/-- Opening the file once the directories above it are there. -/
theorem opened_openForAppending {t t' : FileTree} {p : Path}
    (hpaved : t.Paved t' (Path.ways p.names.dropLast)) (hwalked : t'.Walked p.names.dropLast) :
    Opened t p (match t'.openForAppending p Measurement.headerLine with
      | .error e => (t', .error e)
      | .ok (t', place) => (t', .ok place)) := by
  cases hopen : t'.openForAppending p Measurement.headerLine with
  | error e => exact .failed e hpaved
  | ok opened =>
      obtain ⟨t'', place⟩ := opened
      rcases FileTree.openForAppending_eq_ok hopen with ⟨rfl, ⟨⟨text, hfile⟩, rfl⟩ | ⟨hnone, rfl⟩⟩
      · exact .found hpaved hwalked hfile
      · exact .created hpaved hwalked hnone

/-- **Opening an output has these endings.** -/
theorem opened_openOutput (t : FileTree) (output : String) :
    Opened t (Path.ofText output) (openOutput t output) := by
  rw [openOutput]
  generalize Path.ofText output = p
  cases habove : p.parent? with
  | none =>
      have hnames : p.names = [] := by
        by_contra hne
        rw [Path.parent?, if_neg hne] at habove
        cases habove
      refine opened_openForAppending (.refl t _) ?_
      rw [hnames]
      exact t.walked_nil
  | some above =>
      obtain ⟨-, hnames⟩ := Path.names_of_parent? habove
      have hpaved := t.paved_makeDirectories above
      have hwalked := t.walked_makeDirectories (p := above)
      rw [hnames] at hpaved hwalked
      dsimp only
      generalize t.makeDirectories above = made at hpaved hwalked
      obtain ⟨t', e | _⟩ := made
      · exact .failed e hpaved
      · exact opened_openForAppending hpaved (hwalked rfl)

/-- The endings of setting up a run in the tree `t`. -/
inductive SettingUp (t : FileTree) (arguments : List String) : FileTree × Setup → Prop where
  | rejected {e : ArgumentError} (line : Settings.ofArguments arguments = .error e) :
      SettingUp t arguments (t, .rejected e)
  | faulted {s : Settings} {f : Fault} (line : Settings.ofArguments arguments = .ok s)
      (unfit : s.check = .error f) : SettingUp t arguments (t, .faulted s f)
  | closed {s : Settings} (line : Settings.ofArguments arguments = .ok s)
      (fit : s.check = .ok ()) (unnamed : s.output = none) :
      SettingUp t arguments (t, .ready s none)
  | unopened {s : Settings} {t' : FileTree} {e : FileError}
      (line : Settings.ofArguments arguments = .ok s) (fit : s.check = .ok ())
      (paved : t.Paved t' s.parents) : SettingUp t arguments (t', .unopened s e)
  | opened {s : Settings} {output : String} {t' : FileTree} {place : Place}
      (line : Settings.ofArguments arguments = .ok s) (fit : s.check = .ok ())
      (named : s.output = some output) (opened : Opened t (Path.ofText output) (t', .ok place)) :
      SettingUp t arguments (t', .ready s (some place))

/-- **Setting up a run has these endings.** -/
theorem setUp_cases (t : FileTree) (arguments : List String) :
    SettingUp t arguments (setUp t arguments) := by
  rw [setUp]
  cases hline : Settings.ofArguments arguments with
  | error e => exact .rejected hline
  | ok s =>
      cases hcheck : s.check with
      | error f => simpa only [hcheck] using .faulted hline hcheck
      | ok _ =>
          cases houtput : s.output with
          | none => simpa only [hcheck, houtput] using .closed hline hcheck houtput
          | some output =>
              have hopened := opened_openOutput t output
              simp only [hcheck, houtput]
              generalize openOutput t output = result at hopened
              obtain ⟨t', e | place⟩ := result
              · cases hopened with
                | failed e hpaved =>
                    refine .unopened hline hcheck ?_
                    rw [Settings.parents, houtput]
                    exact hpaved
              · exact .opened hline hcheck houtput hopened

end AtomicSet
