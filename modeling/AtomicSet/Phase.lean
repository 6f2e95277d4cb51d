import AtomicSet.Helping.Execute
import AtomicSet.Locking.LockingSet

/-!
# Phases of programs

A program is a list of transactions that one thread runs in order. A phase runs several programs;
here, where there is one thread, one after another.

## Main definitions

* `runPhase` — runs the programs of a phase on any engine and counts commits and aborts.
* `Store.runPhase`, `LockingSet.runPhase` — on the two engines.
-/

namespace AtomicSet

/-- Runs all transactions of the programs in order with `execute`, which tells whether one
committed: the state after them, and the numbers of those that committed and aborted. -/
def runPhase {σ τ : Type} (execute : σ → τ → σ × Bool) (s : σ) (programs : List (List τ)) :
    σ × Nat × Nat :=
  programs.flatten.foldl
    (fun (s, committed, aborted) txn =>
      match execute s txn with
      | (s, true) => (s, committed + 1, aborted)
      | (s, false) => (s, committed, aborted + 1))
    (s, 0, 0)

variable {κ υ : Type} [LT κ] [DecidableLT κ] [DecidableEq κ]

/-- Runs a phase on the non-blocking engine. -/
def Store.runPhase (s : Store κ υ) (programs : List (List (List (Operation κ υ)))) :
    Store κ υ × Nat × Nat :=
  AtomicSet.runPhase
    (fun s ops =>
      let (s, o) := s.execute ops
      (s, o.isCommitted))
    s programs

/-- Runs a phase on the lock-based engine. -/
def LockingSet.runPhase (s : LockingSet κ υ) (programs : List (List (List (Operation κ υ)))) :
    LockingSet κ υ × Nat × Nat :=
  AtomicSet.runPhase
    (fun s ops =>
      match s.execute ops with
      | (s, .ok o) => (s, o.isCommitted)
      | (s, .error _) => (s, false))
    s programs

end AtomicSet
