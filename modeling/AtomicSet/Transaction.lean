import AtomicSet.Fault
import AtomicSet.Operation

/-!
# Transactions in flight

A transaction of the non-blocking engine is a record that every thread may read and help along: its
operations, its status, and for each operation two write-once slots in which whoever performs it
publishes what it did. A lookup publishes the value it read, an insertion the node it took effect
on. The status leaves `active` once and for all.

## Main definitions

* `Status` — active, committed or aborted.
* `Step` — an operation with its two slots.
* `Transaction` — an identifier, a status and the steps.
* `Transaction.finalize`, `Transaction.recordRead`, `Transaction.recordEffect` — the only writes;
  in each the first one wins.
-/

namespace AtomicSet

/-- The name of a node: nodes are numbered in the order in which they are made, and no number is
used twice. -/
abbrev NodeId := Nat

/-- How far a transaction got. -/
inductive Status where
  | active
  | committed
  | aborted
deriving DecidableEq, Repr

/-- An operation of a transaction with the slots in which its outcome is published. -/
structure Step (κ υ : Type) where
  op : Operation κ υ
  /-- What a lookup read. -/
  read : Option υ := none
  /-- The node that an insertion took effect on. -/
  effect : Option NodeId := none
deriving DecidableEq, Repr

/-- A transaction: an identifier that tells old from young, a status, and the steps in order. -/
structure Transaction (κ υ : Type) where
  /-- Identifiers are given out in ascending order. They stand for numbers of 64 bits, which are
  taken not to wrap: there are fewer than `2 ^ 64` transactions. -/
  id : Nat
  status : Status := .active
  steps : List (Step κ υ)
deriving DecidableEq, Repr

namespace Transaction

variable {κ υ : Type}

/-- A new transaction with these operations. -/
def ofOperations (id : Nat) (ops : List (Operation κ υ)) : Transaction κ υ :=
  { id, steps := ops.map fun op => { op } }

/-- The number of operations. -/
def size (t : Transaction κ υ) : Nat :=
  t.steps.length

/-- The operations in order. -/
def ops (t : Transaction κ υ) : List (Operation κ υ) :=
  t.steps.map Step.op

/-- Whether the transaction may still commit or abort. -/
def isActive (t : Transaction κ υ) : Bool :=
  t.status = .active

/-- The operation at position `i`. -/
def op? (t : Transaction κ υ) (i : Nat) : Option (Operation κ υ) :=
  t.steps[i]?.map Step.op

/-- The kind of the operation at position `i`. -/
def kind? (t : Transaction κ υ) (i : Nat) : Option Kind :=
  (t.op? i).map Operation.kind

/-- What the lookup at position `i` has read so far. -/
def read? (t : Transaction κ υ) (i : Nat) : Option υ :=
  t.steps[i]?.bind Step.read

/-- The node on record for the insertion at position `i`. -/
def effect? (t : Transaction κ υ) (i : Nat) : Option NodeId :=
  t.steps[i]?.bind Step.effect

/-- The reads in order. -/
def reads (t : Transaction κ υ) : List (Option υ) :=
  t.steps.map Step.read

/-- The step at position `i`, or the fault of a position past the end. -/
def stepAt (t : Transaction κ υ) (i : Nat) : Except Fault (Step κ υ) :=
  match t.steps[i]? with
  | some s => .ok s
  | none => .error (.indexOutOfBounds t.size i)

/-- Gives an active transaction the status `final`; a decided one stays as it is. -/
def finalize (t : Transaction κ υ) (final : Status) : Transaction κ υ :=
  if t.isActive then { t with status := final } else t

/-- Publishes `v` as the read at position `i`, unless a read is on record there. -/
def recordRead (t : Transaction κ υ) (i : Nat) (v : υ) : Transaction κ υ :=
  { t with steps := t.steps.modify i fun s => { s with read := s.read.or (some v) } }

/-- Puts `node` on record as the node that position `i` took effect on, unless one is on record
there. -/
def recordEffect (t : Transaction κ υ) (i : Nat) (node : NodeId) : Transaction κ υ :=
  { t with steps := t.steps.modify i fun s => { s with effect := s.effect.or (some node) } }

/-! ### What a write leaves alone -/

/-- There are as many operations as steps. -/
@[simp] theorem ops_length (t : Transaction κ υ) : t.ops.length = t.size := by
  simp [ops, size]

/-- The operation at a position, by the list of all operations. -/
theorem op?_eq (t : Transaction κ υ) (i : Nat) : t.op? i = t.ops[i]? := by
  simp [op?, ops]

/-- There is no operation at a position exactly if the position is past the end. -/
theorem op?_eq_none_iff (t : Transaction κ υ) (i : Nat) : t.op? i = none ↔ t.size ≤ i := by
  simp [op?, size]

/-- A new transaction has the operations that it is made of. -/
@[simp] theorem ops_ofOperations (id : Nat) (ops : List (Operation κ υ)) :
    (ofOperations id ops).ops = ops := by
  simp [ofOperations, Transaction.ops, Function.comp_def]

/-- Deciding a transaction leaves its operations. -/
@[simp] theorem ops_finalize (t : Transaction κ υ) (final : Status) :
    (t.finalize final).ops = t.ops := by
  unfold finalize
  split <;> rfl

/-- Finalizing ends the activity of a transaction. -/
theorem isActive_finalize (t : Transaction κ υ) {final : Status} (decided : final ≠ .active) :
    (t.finalize final).isActive = false := by
  unfold finalize
  split
  · simp [isActive, decided]
  · simp_all

/-- A decided transaction is not decided again. -/
theorem finalize_of_not_active {t : Transaction κ υ} (h : t.isActive = false) (final : Status) :
    t.finalize final = t := by
  simp [finalize, h]

/-- An update of a step that leaves its operation leaves all operations. -/
private theorem map_op_modify (steps : List (Step κ υ)) (i : Nat) (f : Step κ υ → Step κ υ)
    (hf : ∀ s, (f s).op = s.op) : (steps.modify i f).map Step.op = steps.map Step.op := by
  apply List.ext_getElem?
  intro j
  simp only [List.getElem?_map, List.getElem?_modify]
  by_cases h : i = j
  · cases steps[j]? <;> simp [h, hf]
  · simp [h]

/-- A record of a value leaves the operations. -/
@[simp] theorem ops_recordRead (t : Transaction κ υ) (i : Nat) (v : υ) :
    (t.recordRead i v).ops = t.ops :=
  map_op_modify _ _ _ fun _ => rfl

/-- A record of an effect leaves the operations. -/
@[simp] theorem ops_recordEffect (t : Transaction κ υ) (i : Nat) (node : NodeId) :
    (t.recordEffect i node).ops = t.ops :=
  map_op_modify _ _ _ fun _ => rfl

/-- A record of a value leaves the status. -/
@[simp] theorem status_recordRead (t : Transaction κ υ) (i : Nat) (v : υ) :
    (t.recordRead i v).status = t.status := rfl

/-- A record of an effect leaves the status. -/
@[simp] theorem status_recordEffect (t : Transaction κ υ) (i : Nat) (node : NodeId) :
    (t.recordEffect i node).status = t.status := rfl

end Transaction

end AtomicSet
