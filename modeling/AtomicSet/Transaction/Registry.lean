import AtomicSet.Transaction

/-!
# Transactions by reference

Nodes and threads refer to a transaction, and all of them see what any of them writes to it. The
registry holds every transaction made so far; a reference is its position. Two transactions are the
same exactly if their references are equal, whatever their identifiers are.

## Main definitions

* `TxnRef` — a reference.
* `Registry` — the transactions made so far.
* `Registry.get`, `Registry.add`, `Registry.modify` — read, append, write.
-/

namespace AtomicSet

/-- A reference to a transaction. -/
abbrev TxnRef := Nat

/-- The transactions made so far, in order. -/
structure Registry (κ υ : Type) where
  txns : Array (Transaction κ υ) := #[]
deriving DecidableEq, Repr

namespace Registry

variable {κ υ : Type}

/-- The number of transactions made so far, which is also the next reference. -/
def size (r : Registry κ υ) : Nat :=
  r.txns.size

/-- What a reference that nobody was given refers to: a transaction without operations that is
over. -/
def absent : Transaction κ υ :=
  { id := 0, status := .aborted, steps := [] }

/-- The transaction behind a reference. -/
def get (r : Registry κ υ) (t : TxnRef) : Transaction κ υ :=
  r.txns.getD t absent

/-- Appends a transaction; its reference is the size before. -/
def add (r : Registry κ υ) (txn : Transaction κ υ) : Registry κ υ :=
  ⟨r.txns.push txn⟩

/-- Writes to the transaction behind a reference. -/
def modify (r : Registry κ υ) (t : TxnRef) (f : Transaction κ υ → Transaction κ υ) :
    Registry κ υ :=
  ⟨r.txns.modify t f⟩

/-- The status behind a reference. -/
def status (r : Registry κ υ) (t : TxnRef) : Status :=
  (r.get t).status

/-- Whether the transaction behind a reference may still commit or abort. -/
def isActive (r : Registry κ υ) (t : TxnRef) : Bool :=
  (r.get t).isActive

/-! ### Reading after writing -/

/-- A registered transaction is one more. -/
@[simp] theorem size_add (r : Registry κ υ) (txn : Transaction κ υ) :
    (r.add txn).size = r.size + 1 := by
  simp [add, size]

/-- Changing a transaction registers nothing. -/
@[simp] theorem size_modify (r : Registry κ υ) (t : TxnRef)
    (f : Transaction κ υ → Transaction κ υ) : (r.modify t f).size = r.size := by
  simp [modify, size]

/-- A reference past the end leads nowhere. -/
theorem get_of_size_le {r : Registry κ υ} {t : TxnRef} (h : r.size ≤ t) :
    r.get t = absent := by
  simp only [get, size] at *
  simp [Array.getD, Nat.not_lt.mpr h]

/-- Appending changes what the next reference leads to, and nothing else. -/
theorem get_add (r : Registry κ υ) (txn : Transaction κ υ) (t : TxnRef) :
    (r.add txn).get t = if t = r.size then txn else r.get t := by
  simp only [get, add, size, Array.getD_eq_getD_getElem?, Array.getElem?_push]
  split <;> rfl

/-- Writing changes what its own reference leads to, and nothing else. -/
theorem get_modify (r : Registry κ υ) (t u : TxnRef) (f : Transaction κ υ → Transaction κ υ) :
    (r.modify t f).get u = if t = u ∧ u < r.size then f (r.get u) else r.get u := by
  simp only [get, modify, size, Array.getD_eq_getD_getElem?, Array.getElem?_modify]
  by_cases h : t = u
  · by_cases hu : u < r.txns.size
    · simp [h, hu]
    · simp [h, hu]
  · simp [h]

/-- Active transactions are in the registry. -/
theorem lt_size_of_isActive {r : Registry κ υ} {t : TxnRef} (h : r.isActive t) :
    t < r.size := by
  rcases Nat.lt_or_ge t r.size with hlt | hge
  · exact hlt
  · simp [isActive, get_of_size_le hge, absent, Transaction.isActive] at h

/-! ### Writing to slots only -/

/-- `r'` has the transactions of `r`, with the same operations and statuses; only what is published
in their slots may differ. -/
structure SlotsOnly (r r' : Registry κ υ) : Prop where
  size_eq : r'.size = r.size
  ops_eq : ∀ t, (r'.get t).ops = (r.get t).ops
  status_eq : ∀ t, (r'.get t).status = (r.get t).status

namespace SlotsOnly

/-- To write nothing is to write slots only. -/
theorem refl (r : Registry κ υ) : SlotsOnly r r :=
  ⟨rfl, fun _ => rfl, fun _ => rfl⟩

/-- A write that keeps operations and status writes to slots only. -/
theorem modify (r : Registry κ υ) (t : TxnRef) (f : Transaction κ υ → Transaction κ υ)
    (ops : ∀ x, (f x).ops = x.ops) (status : ∀ x, (f x).status = x.status) :
    SlotsOnly r (r.modify t f) := by
  refine ⟨size_modify r t f, fun u => ?_, fun u => ?_⟩ <;> rw [get_modify] <;> split
  · exact ops _
  · rfl
  · exact status _
  · rfl

/-- Where only slots are written, the same transactions are active. -/
theorem isActive_eq {r r' : Registry κ υ} (h : SlotsOnly r r') (t : TxnRef) :
    r'.isActive t = r.isActive t := by
  simp [isActive, Transaction.isActive, h.status_eq t]

/-- Where only slots are written, transactions have as many operations as before. -/
theorem txn_size_eq {r r' : Registry κ υ} (h : SlotsOnly r r') (t : TxnRef) :
    (r'.get t).size = (r.get t).size := by
  rw [← Transaction.ops_length, ← Transaction.ops_length, h.ops_eq t]

end SlotsOnly

end Registry

end AtomicSet
