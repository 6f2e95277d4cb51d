import AtomicSet.Locking.LockingSet
import AtomicSet.Session

/-!
# Sessions with private transactions

A session is a set together with private transactions, which take locks and apply operations one by
one until they commit or abort, and with an outsider, who takes and frees single locks.

## Main definitions

* `LockingSession` — a set and the logs of the open private transactions.
* `LockingSession.Command`, `LockingSession.Reply` — what can be asked, and the answers.
* `LockingSession.perform` — one command.
-/

namespace AtomicSet

/-- A set and the private transactions on it. -/
structure LockingSession (κ υ : Type) where
  set : LockingSet κ υ := {}
  /-- The open private transactions, each with its log, the newest entry first. -/
  opened : List (String × List (Undo κ υ)) := []
deriving DecidableEq, Repr

namespace LockingSession

/-- What can be asked of a session. -/
inductive Command (κ υ : Type) where
  | execute (ops : List (Operation κ υ))
  | find (key : κ)
  | insert (key : κ) (value : υ)
  | delete (key : κ)
  | entries
  | tally
  /-- Sets the counters to zero. -/
  | resetTally
  /-- Executes without counting. -/
  | tryExecute (ops : List (Operation κ υ))
  /-- The outsider takes the lock of a key. -/
  | hold (key : κ)
  /-- The outsider frees the lock of a key. -/
  | unhold (key : κ)
  /-- Opens a private transaction, instead of an open one of the same name. -/
  | begin (name : String)
  /-- Takes the locks for some operations. -/
  | lock (name : String) (ops : List (Operation κ υ))
  /-- Applies an operation, locked or not. -/
  | apply (name : String) (index : Nat) (op : Operation κ υ)
  | commit (name : String)
  | abort (name : String)
deriving DecidableEq, Repr

/-- The answers. -/
inductive Reply (κ υ : Type) where
  | outcome (o : Outcome υ)
  | value (v : Option υ)
  | flag (b : Bool)
  | entries (es : List (κ × υ))
  | tally (counters : Tally)
  | reads (result : Except Refusal (List (Option υ)))
  /-- The result of locking, and the number of locks held after it. -/
  | locked (result : Except Refusal Unit) (locks : Nat)
  /-- The result of an operation, and the length of the log after it. -/
  | applied (result : Except Refusal (Option υ)) (undo : Nat)
  | done
  /-- No private transaction of the name is open. -/
  | notOpen
  | fault (f : Fault)

variable {κ υ : Type}

/-- The log of an open private transaction. -/
def log? (s : LockingSession κ υ) (name : String) : Option (List (Undo κ υ)) :=
  (s.opened.find? fun e => e.1 = name).map Prod.snd

/-- The other open private transactions. -/
def others (s : LockingSession κ υ) (name : String) : List (String × List (Undo κ υ)) :=
  s.opened.filter fun e => e.1 ≠ name

variable [LT κ] [DecidableLT κ] [DecidableEq κ]

/-- Runs the operations as one transaction and shapes the reply from its outcome. -/
def transact (s : LockingSession κ υ) (ops : List (Operation κ υ)) (reply : Outcome υ → Reply κ υ) :
    LockingSession κ υ × Reply κ υ :=
  match s.set.execute ops with
  | (set, .ok o) => ({ s with set }, reply o)
  | (set, .error fault) => ({ s with set }, .fault fault)

/-- Performs one command. -/
def perform (s : LockingSession κ υ) : Command κ υ → LockingSession κ υ × Reply κ υ
  | .execute ops => s.transact ops .outcome
  | .find k => s.transact [.find k] fun o => .value o.found
  | .insert k v => s.transact [.insert k v] fun o => .flag o.isCommitted
  | .delete k => s.transact [.delete k] fun o => .flag o.isCommitted
  | .entries => (s, .entries s.set.entries)
  | .tally => (s, .tally s.set.tally)
  | .resetTally => ({ s with set := { s.set with tally := {} } }, .tally {})
  | .tryExecute ops =>
    match s.set.tryExecute ops with
    | (set, .ok reads) => ({ s with set }, .reads (.ok reads))
    | (set, .error (.refusal r)) => ({ s with set }, .reads (.error r))
    | (set, .error (.fault fault)) => ({ s with set }, .fault fault)
  | .hold k =>
    match s.set.locks.acquire k .outsider with
    | some locks => ({ s with set := { s.set with locks } }, .flag true)
    | none => (s, .flag false)
  | .unhold k =>
    let (locks, held) := s.set.locks.releaseOwn k .outsider
    ({ s with set := { s.set with locks } }, .flag held)
  | .begin name =>
    ({ set := s.set.commit (.owner name), opened := (name, []) :: s.others name }, .done)
  | .lock name ops =>
    match s.log? name with
    | none => (s, .notOpen)
    | some _ =>
      let (set, result) := s.set.lock (.owner name) ops
      ({ s with set }, .locked result (set.locks.keysOf (.owner name)).length)
  | .apply name i op =>
    match s.log? name with
    | none => (s, .notOpen)
    | some undo =>
      let (set, undo, result) := s.set.apply undo i op
      ({ set, opened := (name, undo) :: s.others name }, .applied result undo.length)
  | .commit name =>
    match s.log? name with
    | none => (s, .notOpen)
    | some _ => ({ set := s.set.commit (.owner name), opened := s.others name }, .done)
  | .abort name =>
    match s.log? name with
    | none => (s, .notOpen)
    | some undo =>
      let (set, result) := s.set.abort (.owner name) undo
      ({ set, opened := s.others name },
        match result with
        | .ok () => .done
        | .error fault => .fault fault)

end LockingSession

end AtomicSet
