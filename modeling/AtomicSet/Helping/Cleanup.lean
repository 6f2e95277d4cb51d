import AtomicSet.Helping.Stack
import AtomicSet.Helping.Store

/-!
# Deciding a transaction and cleaning up after it

A thread that has nothing left to perform for a transaction tries to decide it, and then unlinks
those nodes it touched for it that hold nothing now: deletions of a committed transaction,
insertions of an aborted one, and nodes that were linked too late.

## Main definitions

* `Store.sweepNode`, `Store.sweep` — unlink the touched nodes that hold nothing.
* `Store.finish` — decide the transaction of a frame, then sweep.
* `Store.giveUp` — abort the transaction of a frame to break a cycle, then sweep.
-/

namespace AtomicSet

namespace Store

variable {κ υ : Type} [LT κ] [DecidableLT κ]

/-- Retires the node `id` and unlinks it, if it still carries a stamp of `t` and holds nothing. -/
def sweepNode (t : TxnRef) (s : Store κ υ) (id : NodeId) : Store κ υ :=
  match s.node? id with
  | none => s
  | some n =>
    if n.stampMarked || !n.stamp.isOwnedBy t || (s.resolve none n).isSome then s
    else (s.modifyNode id Node.retire).unlink n.key

/-- Unlinks the nodes touched for the transaction of a frame that hold nothing, once it is
decided. -/
def sweep (s : Store κ υ) (f : Frame) : Store κ υ :=
  if s.registry.isActive f.txn then s else f.touched.foldl (sweepNode f.txn) s

/-- Aborts the transaction of a failed frame, commits one that has performed everything, and
sweeps. -/
def finish (s : Store κ υ) (f : Frame) : Store κ υ :=
  let s :=
    if f.failed then s.settle f.txn .aborted false
    else if (s.registry.get f.txn).size ≤ f.next then s.settle f.txn .committed false
    else s
  s.sweep f

/-- Aborts the transaction of a frame that was chosen to break a cycle, and sweeps. -/
def giveUp (s : Store κ υ) (f : Frame) : Store κ υ :=
  (s.settle f.txn .aborted true).sweep f

/-! ### What cleaning up leaves alone -/

/-- Cleaning a node writes nothing to the registry. -/
theorem registry_sweepNode (t : TxnRef) (s : Store κ υ) (id : NodeId) :
    (sweepNode t s id).registry = s.registry := by
  unfold sweepNode
  split
  · rfl
  · split <;> rfl

/-- Sweeping touches nodes only. -/
@[simp] theorem registry_sweep (s : Store κ υ) (f : Frame) :
    (s.sweep f).registry = s.registry := by
  have foldl_eq (ids : List NodeId) (s : Store κ υ) :
      (ids.foldl (sweepNode f.txn) s).registry = s.registry := by
    induction ids generalizing s with
    | nil => rfl
    | cons id ids ih => rw [List.foldl_cons, ih, registry_sweepNode]
  unfold sweep
  split
  · rfl
  · exact foldl_eq _ _

end Store

end AtomicSet
