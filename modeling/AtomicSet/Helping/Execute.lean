import AtomicSet.Helping.Drive

/-!
# Whole transactions on the non-blocking engine

## Main definitions

* `Store.allocate` — registers a new transaction.
* `Store.execute` — registers a transaction, drives it to its end and reports its outcome.
* `Store.find`, `Store.insert`, `Store.delete` — transactions of a single operation.
-/

namespace AtomicSet

namespace Store

variable {κ υ : Type}

/-- Registers a transaction; its reference, which is also its identifier, is the number of
transactions before it. -/
def allocate (s : Store κ υ) (ops : List (Operation κ υ)) : Store κ υ × TxnRef :=
  let t := s.registry.size
  ({ s with registry := s.registry.add (.ofOperations t ops) }, t)

/-- The outcome of a transaction that is over. -/
def outcome (s : Store κ υ) (t : TxnRef) : Outcome υ :=
  let txn := s.registry.get t
  if txn.status = .committed then ⟨.ofCommitted txn.ops, txn.reads⟩
  else .aborted .fail txn.size

variable [LT κ] [DecidableLT κ] [DecidableEq κ]

/-- Runs the operations as one transaction. -/
def execute (s : Store κ υ) (ops : List (Operation κ υ)) : Store κ υ × Outcome υ :=
  let (s, t) := s.allocate ops
  let s := s.drive t
  (s, s.outcome t)

/-- Looks a key up. -/
def find (s : Store κ υ) (k : κ) : Store κ υ × Option υ :=
  let (s, o) := s.execute [.find k]
  (s, o.found)

/-- Adds an entry, and tells whether the transaction committed. -/
def insert (s : Store κ υ) (k : κ) (v : υ) : Store κ υ × Bool :=
  let (s, o) := s.execute [.insert k v]
  (s, o.isCommitted)

/-- Removes an entry, and tells whether the transaction committed. -/
def delete (s : Store κ υ) (k : κ) : Store κ υ × Bool :=
  let (s, o) := s.execute [.delete k]
  (s, o.isCommitted)

end Store

end AtomicSet
