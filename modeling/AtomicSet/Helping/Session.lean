import AtomicSet.Helping.Execute
import AtomicSet.Session

/-!
# Sessions with stalled threads

A session is a store together with threads that may stall anywhere. A transaction can be registered,
attempted operation by operation and left alone; other commands then find its stamps and help it. A
thread remembers the nodes it touched until it finishes. A late thread links a node for an insertion
without putting it on record.

## Main definitions

* `HelpingSession` — a store and what the threads remember.
* `HelpingSession.Command`, `HelpingSession.Reply` — what can be asked, and the answers.
* `HelpingSession.perform` — one command.
-/

namespace AtomicSet

/-- A store and the threads that work on it. -/
structure HelpingSession (κ υ : Type) where
  store : Store κ υ := {}
  /-- Which node was touched for which transaction, in order. -/
  touches : List (TxnRef × NodeId) := []
deriving DecidableEq, Repr

namespace HelpingSession

/-- What can be asked of a session. -/
inductive Command (κ υ : Type) where
  | execute (ops : List (Operation κ υ))
  | find (key : κ)
  | insert (key : κ) (value : υ)
  | delete (key : κ)
  | entries
  | survey
  | tally
  /-- Sets the counters to zero. -/
  | resetTally
  /-- Registers a transaction and performs nothing. -/
  | allocate (ops : List (Operation κ υ))
  /-- Attempts one operation. -/
  | step (txn : TxnRef) (index : Nat)
  /-- Drives a transaction from its first operation to its end. -/
  | run (txn : TxnRef)
  /-- The stalled thread of a transaction finishes, having arrived at `next`. -/
  | finish (txn : TxnRef) (next : Nat) (failed : Bool)
  /-- A thread that fell behind links a node for an insertion, without a record. -/
  | late (txn : TxnRef) (index : Nat)
  /-- Shows a transaction. -/
  | inspect (txn : TxnRef)
deriving DecidableEq, Repr

/-- The answers. -/
inductive Reply (κ υ : Type) where
  | outcome (o : Outcome υ)
  | value (v : Option υ)
  | flag (b : Bool)
  | entries (es : List (κ × υ))
  | survey (nodes : List (κ × Bool))
  | tally (counters : Tally)
  | allocated (txn : TxnRef) (size : Nat)
  /-- The return code of an attempt, and whether it came upon a node. -/
  | attempted (code : Code) (node : Bool)
  /-- Another transaction has to be driven on from a position first. -/
  | blocked (owner : TxnRef) (resume : Nat)
  | status (st : Status)
  /-- The status of a transaction, its reads, and for each operation whether it has an effect on
  record. -/
  | txn (status : Status) (reads : List (Option υ)) (effects : List Bool)
  | fault (f : Fault)
deriving DecidableEq, Repr

variable {κ υ : Type}

/-- The nodes touched for `t` so far. -/
def touched (s : HelpingSession κ υ) (t : TxnRef) : List NodeId :=
  (s.touches.filter fun e => e.1 = t).map Prod.snd

/-- The answer to an attempt. Nodes have no names outside of the store. -/
def Reply.ofProgress : Progress → Reply κ υ
  | .applied _ => .attempted .ok true
  | .repeated _ => .attempted .skip true
  | .refused => .attempted .fail false
  | .blocked owner resume => .blocked owner resume

/-- The answer that shows a transaction. -/
def Reply.ofTransaction (t : Transaction κ υ) : Reply κ υ :=
  .txn t.status t.reads (t.steps.map fun s => s.effect.isSome)

/-- Notes the node that an attempt came upon. -/
def touch (s : HelpingSession κ υ) (t : TxnRef) (p : Progress) : List (TxnRef × NodeId) :=
  match p.node? with
  | some n => s.touches ++ [(t, n)]
  | none => s.touches

variable [LT κ] [DecidableLT κ] [DecidableEq κ]

/-- Links a node for the insertion of `t` at position `i` unless the key has one, without putting it
on record. Tells whether it did; there is nothing to do for other operations. -/
def linkLate (s : Store κ υ) (t : TxnRef) (i : Nat) : Except Fault (Store κ υ × Bool) :=
  match (s.registry.get t).stepAt i with
  | .error fault => .error fault
  | .ok step =>
    match step.op with
    | .find _ | .delete _ => .ok (s, false)
    | .insert k v =>
      let c := locate Node.key Node.linkMarked k s.chain
      let s := s.afterSearch c
      match c.hit? Node.key k with
      | some _ => .ok (s, false)
      | none => .ok (s.linkNode t i k (some v) c, true)

/-- Performs one command. -/
def perform (s : HelpingSession κ υ) : Command κ υ → HelpingSession κ υ × Reply κ υ
  | .execute ops =>
    let (store, o) := s.store.execute ops
    ({ s with store }, .outcome o)
  | .find k =>
    let (store, v) := s.store.find k
    ({ s with store }, .value v)
  | .insert k v =>
    let (store, b) := s.store.insert k v
    ({ s with store }, .flag b)
  | .delete k =>
    let (store, b) := s.store.delete k
    ({ s with store }, .flag b)
  | .entries => (s, .entries s.store.entries)
  | .survey => (s, .survey s.store.survey)
  | .tally => (s, .tally s.store.tally)
  | .resetTally => ({ s with store := { s.store with tally := {} } }, .tally {})
  | .allocate ops =>
    let (store, t) := s.store.allocate ops
    ({ s with store }, .allocated t ops.length)
  | .step t i =>
    match s.store.attemptStep t i with
    | .error fault => (s, .fault fault)
    | .ok (store, p) => ({ store, touches := s.touch t p }, .ofProgress p)
  | .run t =>
    let store := s.store.drive t
    ({ s with store }, .flag (store.registry.status t = .committed))
  | .finish t next failed =>
    let store := s.store.finish { txn := t, next, failed, touched := s.touched t }
    ({ store, touches := s.touches.filter fun e => e.1 ≠ t }, .status (store.registry.status t))
  | .late t i =>
    match linkLate s.store t i with
    | .error fault => (s, .fault fault)
    | .ok (store, b) => ({ s with store }, .flag b)
  | .inspect t => (s, .ofTransaction (s.store.registry.get t))

end HelpingSession

end AtomicSet
