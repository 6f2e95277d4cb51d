import AtomicSet.Benchmark.Measurement

/-!
# Reading the table of results

A line of the table ends in a line break, the only one it holds, and its fields stand between
commas. No field holds either, so splitting a line at its commas gives the fields back: for the
first line of a table the names of the columns, for the line of a run the engine and then numbers,
in the order of the columns.

## Main definitions

* `Measurement.cells` — the texts between the commas of a line.
* `Measurement.numbers` — the numbers of a run, each with the name of its column.
* `Measurement.Tabulated` — what the lines of a table hold.

## Main results

* `Measurement.exists_tabulated` — the lines of a table can be split again.
-/

namespace AtomicSet

/-- How many transactions a thread runs in one critical section. -/
def BatchSize.number : BatchSize → Nat
  | one => 1
  | four => 4

/-- The text of a batch size is its number. -/
theorem BatchSize.text_eq (b : BatchSize) : b.text = toString b.number := by
  cases b <;> decide

namespace Measurement

/-- The texts between the commas of a line. -/
def cells (line : String) : List String :=
  (line.split ',').toList.map String.Slice.copy

/-- The numbers of a run, each with the name of its column. -/
def numbers (s : Settings) (m : Measurement) : List (String × Nat) :=
  [("threads", s.threads),
    ("txn_size", s.txnSize),
    ("key_range", s.keyRange),
    ("insert_rate", s.insertRate),
    ("delete_rate", s.deleteRate),
    ("txns_per_cs", s.batchSize.number),
    ("throughput", m.throughput),
    ("commits", m.commits),
    ("aborts", m.aborts),
    ("fake_aborts", m.fakeAborts),
    ("peak_mem", m.peakMemory),
    ("avg_mem", m.averageMemory)]

/-- The text may stand in a field as it is: it holds no comma, quote or line break. -/
def Plain (text : String) : Prop :=
  ∀ c ∈ text.toList, c ≠ ',' ∧ c ≠ '"' ∧ c ≠ '\n' ∧ c ≠ '\r'

instance (text : String) : Decidable (Plain text) :=
  List.decidableBAll _ text.toList

/-- A number may stand in a field as it is. -/
theorem plain_toString (n : Nat) : Plain (toString n) := by
  intro c hc
  rw [Nat.toString_eq_repr, Nat.toList_repr] at hc
  have hdigit : c.isDigit := Nat.isDigit_of_mem_toDigits (by decide) (by decide) hc
  refine ⟨?_, ?_, ?_, ?_⟩ <;> rintro rfl <;> cases hdigit

/-- The name of an engine may stand in a field as it is. -/
theorem plain_name (e : Engine) : Plain e.name := by
  cases e <;> decide

/-- Splitting at the commas gives the fields back. -/
theorem cells_intercalate {fields : List String} (hne : fields ≠ [])
    (hplain : ∀ f ∈ fields, Plain f) : cells (",".intercalate fields) = fields := by
  have hsplit := String.toList_split_intercalate fun f hf hc => (hplain f hf ',' hc).1 rfl
  rw [if_neg hne] at hsplit
  exact hsplit

/-- A line of plain fields holds no line break. -/
theorem not_mem_intercalate {fields : List String} (hplain : ∀ f ∈ fields, Plain f) :
    '\n' ∉ (",".intercalate fields).toList := by
  induction fields with
  | nil => simp
  | cons f fields ih =>
      have hf : '\n' ∉ f.toList := fun hc => (hplain f List.mem_cons_self '\n' hc).2.2.1 rfl
      cases fields with
      | nil => simpa using hf
      | cons g fields =>
          have hrest := ih fun x hx => hplain x (List.mem_cons_of_mem f hx)
          rw [String.intercalate_cons_cons, String.toList_append, String.toList_append,
            List.mem_append, List.mem_append, not_or, not_or]
          exact ⟨⟨hf, by decide⟩, hrest⟩

/-- The fields of a run. -/
theorem columns_fields (s : Settings) (m : Measurement) :
    (columns.map fun c => c.2 s m) =
      s.engine.name :: (numbers s m).map fun c => toString c.2 := by
  simp only [columns, numbers, List.map_cons, List.map_nil, BatchSize.text_eq]

/-- The first line of a table holds the texts `names`, the line of a run the texts `fields`, and
both can be had back. -/
structure Tabulated (s : Settings) (m : Measurement) (names fields : String) : Prop where
  header_eq : headerLine = names ++ "\n"
  row_eq : row s m = fields ++ "\n"
  /-- The line break at the end of a line is the only one. -/
  oneLine : '\n' ∉ names.toList ∧ '\n' ∉ fields.toList
  /-- The first line splits into the names of the columns. -/
  cells_names : cells names = "ds" :: (numbers s m).map Prod.fst
  /-- The line of a run splits into the name of its engine and its numbers. -/
  cells_fields : cells fields = s.engine.name :: (numbers s m).map fun c => toString c.2
  length_cells : (cells fields).length = 13
  /-- No field has to be quoted. -/
  plain : ∀ f ∈ cells fields, Plain f
  /-- The numbers can be read back. -/
  readBack : (cells fields).tail.map (fun c => Nat.ofDigitChars 10 c.toList 0) =
    (numbers s m).map Prod.snd

/-- **The lines of a table can be split again**, whatever the run. -/
theorem exists_tabulated (s : Settings) (m : Measurement) :
    ∃ names fields, Tabulated s m names fields := by
  have hnames : ∀ f ∈ columns.map Prod.fst, Plain f := by decide
  have hfields : ∀ f ∈ s.engine.name :: (numbers s m).map fun c => toString c.2, Plain f := by
    intro f hf
    rcases List.mem_cons.mp hf with rfl | hf
    · exact plain_name s.engine
    · obtain ⟨c, -, rfl⟩ := List.mem_map.mp hf
      exact plain_toString c.2
  have hcells := cells_intercalate (List.cons_ne_nil _ _) hfields
  refine ⟨_, _, {
    header_eq := rfl
    row_eq := by rw [row, line, columns_fields]
    oneLine := ⟨not_mem_intercalate hnames, not_mem_intercalate hfields⟩
    cells_names := cells_intercalate (by decide) hnames
    cells_fields := hcells
    length_cells := by rw [hcells]; rfl
    plain := by rw [hcells]; exact hfields
    readBack := ?_ }⟩
  rw [hcells, List.tail_cons, List.map_map]
  refine List.map_congr_left fun c _ => ?_
  rw [Function.comp_apply, Nat.toString_eq_repr, Nat.toList_repr, Nat.ofDigitChars_ten_toDigits]

end Measurement

end AtomicSet
