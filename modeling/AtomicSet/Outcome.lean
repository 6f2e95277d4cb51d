import AtomicSet.Operation

/-!
# Outcomes of whole transactions

A transaction either commits as a unit or leaves no effect. Its return code says which, and why
not; its reads say what its lookups saw.

## Main definitions

* `Code` — the return code, with `Code.isCommitted` and `Code.isRetryable`.
* `Outcome` — a return code together with one read per operation.
-/

namespace AtomicSet

/-- How a transaction ended. -/
inductive Code where
  /-- Committed, and some operation was an insertion or a deletion. -/
  | ok
  /-- Committed, and every operation was a lookup. -/
  | skip
  /-- Aborted by a failed precondition or to break a cycle of waiting transactions. -/
  | fail
  /-- Aborted because a key lock was not free in time. -/
  | lockFail
  /-- Aborted because a precondition failed; what was done before is taken back. -/
  | opFail
deriving DecidableEq, Repr

namespace Code

/-- Whether the code stands for a commit. -/
def isCommitted : Code → Bool
  | ok | skip => true
  | fail | lockFail | opFail => false

/-- Whether the same transaction may succeed when it is simply run again. -/
def isRetryable : Code → Bool
  | lockFail => true
  | ok | skip | fail | opFail => false

/-- The code of a committed transaction with these operations. -/
def ofCommitted {κ υ : Type} (ops : List (Operation κ υ)) : Code :=
  if ops.all Operation.isFind then skip else ok

/-- That code stands for a commit. -/
theorem isCommitted_ofCommitted {κ υ : Type} (ops : List (Operation κ υ)) :
    (ofCommitted ops).isCommitted := by
  rw [ofCommitted]
  split <;> rfl

end Code

/-- A return code and, for each operation, what it read; only lookups of a committed transaction
read anything. -/
structure Outcome (υ : Type) where
  code : Code
  reads : List (Option υ)
deriving DecidableEq, Repr

namespace Outcome

variable {υ : Type}

/-- The outcome of an aborted transaction of `size` operations: nothing was read. -/
def aborted (code : Code) (size : Nat) : Outcome υ :=
  ⟨code, List.replicate size none⟩

/-- Whether the transaction committed. -/
def isCommitted (o : Outcome υ) : Bool :=
  o.code.isCommitted

/-- What a transaction of a single lookup found. -/
def found (o : Outcome υ) : Option υ :=
  o.reads.head?.join

end Outcome

end AtomicSet
