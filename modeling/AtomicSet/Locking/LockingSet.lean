import AtomicSet.Locking.LockTable
import AtomicSet.Locking.Refusal
import AtomicSet.OrderedList
import AtomicSet.Tally

/-!
# The lock-based engine

A transaction takes the locks of all its keys in ascending order, applies its operations to the list
at once, and keeps a log of how to take each change back. A commit drops the log; an abort takes the
changes back, the newest first. Either way the locks are freed.

## Main definitions

* `Undo` — how to take one change back.
* `LockingSet` — the list, the locks and the counters.
* `LockingSet.lock`, `LockingSet.apply`, `LockingSet.commit`, `LockingSet.abort` — the parts of a
  transaction.
* `LockingSet.tryExecute`, `LockingSet.execute` — whole transactions.
-/

namespace AtomicSet

/-- How to take a change back. -/
inductive Undo (κ υ : Type) where
  | remove (key : κ)
  | reinsert (key : κ) (value : υ)
deriving DecidableEq, Repr

/-- Who may hold key locks. -/
inductive Holder where
  /-- Somebody outside of all transactions. -/
  | outsider
  /-- A whole transaction that is executed in one call. -/
  | call
  /-- The private transaction of this name. -/
  | owner (name : String)
deriving DecidableEq, Repr

/-- The state of the lock-based engine. -/
structure LockingSet (κ υ : Type) where
  items : OrderedList κ υ := {}
  locks : LockTable κ Holder := {}
  /-- How long a transaction waits for a lock. -/
  timeout : Duration := .ofMilliseconds 100
  tally : Tally := {}
deriving DecidableEq, Repr

namespace LockingSet

variable {κ υ : Type}

/-- The entries in key order. -/
def entries (s : LockingSet κ υ) : List (κ × υ) :=
  s.items.entries

variable [LT κ] [DecidableLT κ] [DecidableEq κ]

/-! ### The parts of a transaction -/

/-- Takes the locks of the keys of `ops` for `h`. On a lock that is not free it stops, and keeps
those it took before. -/
def lock (s : LockingSet κ υ) (h : Holder) (ops : List (Operation κ υ)) :
    LockingSet κ υ × Except Refusal Unit :=
  let (locks, all) := s.locks.acquireAll h (ascending (ops.map Operation.key))
  ({ s with locks }, if all then .ok () else .error (.lockTimeout s.timeout))

/-- Applies the operation at position `i` of a transaction with the log `undo`, the newest entry
first: the set, the log and the read after it. -/
def apply (s : LockingSet κ υ) (undo : List (Undo κ υ)) (i : Nat) (op : Operation κ υ) :
    LockingSet κ υ × List (Undo κ υ) × Except Refusal (Option υ) :=
  match op with
  | .insert k v =>
    match s.items.insert k v with
    | (items, true) => ({ s with items }, .remove k :: undo, .ok none)
    | (items, false) => ({ s with items }, undo, .error (.precondition i))
  | .delete k =>
    match s.items.remove k with
    | (items, some old) => ({ s with items }, .reinsert k old :: undo, .ok none)
    | (items, none) => ({ s with items }, undo, .error (.precondition i))
  | .find k =>
    match s.items.get k with
    | (items, some v) => ({ s with items }, undo, .ok (some v))
    | (items, none) => ({ s with items }, undo, .error (.precondition i))

/-- Frees the locks of `h`; the changes stay. -/
def commit (s : LockingSet κ υ) (h : Holder) : LockingSet κ υ :=
  { s with locks := s.locks.releaseAll h }

/-- Takes one change back, and tells whether the key was as the change had left it. -/
def takeBack (items : OrderedList κ υ) : Undo κ υ → OrderedList κ υ × Bool
  | .remove k =>
    let (items, old) := items.remove k
    (items, old.isSome)
  | .reinsert k v => items.insert k v

/-- Takes changes back in order, up to the first one that fails, and tells whether all were. -/
def rollback (items : OrderedList κ υ) : List (Undo κ υ) → OrderedList κ υ × Bool
  | [] => (items, true)
  | u :: undo =>
    match takeBack items u with
    | (items, true) => rollback items undo
    | (items, false) => (items, false)

/-- Takes back the changes of a transaction with the log `undo`, and frees the locks of `h`. -/
def abort (s : LockingSet κ υ) (h : Holder) (undo : List (Undo κ υ)) :
    LockingSet κ υ × Except Fault Unit :=
  let (items, all) := rollback s.items undo
  ({ s with items, locks := s.locks.releaseAll h }, if all then .ok () else .error .undoFailed)

/-! ### Whole transactions -/

/-- Applies operations in order, the first one at position `i`, up to the first refusal. -/
def applyAll (s : LockingSet κ υ) (undo : List (Undo κ υ)) (i : Nat) :
    List (Operation κ υ) → LockingSet κ υ × List (Undo κ υ) × Except Refusal (List (Option υ))
  | [] => (s, undo, .ok [])
  | op :: ops =>
    match s.apply undo i op with
    | (s, undo, .error r) => (s, undo, .error r)
    | (s, undo, .ok read) =>
      match s.applyAll undo (i + 1) ops with
      | (s, undo, .error r) => (s, undo, .error r)
      | (s, undo, .ok reads) => (s, undo, .ok (read :: reads))

/-- Ends a refused transaction of one call. -/
def giveUp (s : LockingSet κ υ) (undo : List (Undo κ υ)) (r : Refusal) :
    LockingSet κ υ × Except Stop (List (Option υ)) :=
  match s.abort .call undo with
  | (s, .ok ()) => (s, .error (.refusal r))
  | (s, .error fault) => (s, .error (.fault fault))

/-- Runs the operations as one transaction and answers what they read. -/
def tryExecute (s : LockingSet κ υ) (ops : List (Operation κ υ)) :
    LockingSet κ υ × Except Stop (List (Option υ)) :=
  match s.lock .call ops with
  | (s, .error r) => s.giveUp [] r
  | (s, .ok ()) =>
    match s.applyAll [] 0 ops with
    | (s, undo, .error r) => s.giveUp undo r
    | (s, _, .ok reads) => (s.commit .call, .ok reads)

/-- Runs the operations as one transaction, counts it and reports its outcome. -/
def execute (s : LockingSet κ υ) (ops : List (Operation κ υ)) :
    LockingSet κ υ × Except Fault (Outcome υ) :=
  match s.tryExecute ops with
  | (s, .ok reads) => ({ s with tally := s.tally.commit }, .ok ⟨.ofCommitted ops, reads⟩)
  | (s, .error (.refusal r)) =>
    ({ s with tally := s.tally.abort r.isFake }, .ok (.aborted r.code ops.length))
  | (s, .error (.fault fault)) => (s, .error fault)

end LockingSet

end AtomicSet
