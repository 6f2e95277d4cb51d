import AtomicSet.Transaction.Registry

/-!
# Stamps

The last transaction that touched a key leaves a stamp on the key's node: which of its operations
it was, what the key held before the transaction, and what it holds if the transaction commits. The
status of the owner decides, at any later time, which of the two counts.

## Main definitions

* `Stamp` — owner, operation, content before and after.
* `Stamp.content` — what the key holds as seen by some transaction, or by nobody in particular.
* `Stamp.baseline` — what the next stamp of a transaction has to keep as the content before it.
* `Stamp.inspect` — all that a transaction at one of its operations can tell from a stamp.
-/

namespace AtomicSet

/-- The mark that an operation leaves on a node. -/
structure Stamp (κ υ : Type) where
  /-- The transaction that left it. -/
  owner : TxnRef
  /-- The position of the operation in the owner. -/
  index : Nat
  /-- What the key holds if the owner aborts. -/
  before : Option υ
  /-- What the key holds once the owner commits. -/
  after : Option υ
deriving DecidableEq, Repr

namespace Stamp

variable {κ υ : Type}

/-- Whether the stamp belongs to the transaction `t`. -/
def isOwnedBy (s : Stamp κ υ) (t : TxnRef) : Bool :=
  s.owner = t

/-- Whether the stamp is that of the operation of `t` at position `i`. -/
def isOf (s : Stamp κ υ) (t : TxnRef) (i : Nat) : Bool :=
  s.owner = t && s.index = i

/-- Whether the operation of `t` at position `i` has been applied to the node already: the stamp is
its own, or one of a later operation of `t`, which cannot run before it. -/
def covers (s : Stamp κ υ) (t : TxnRef) (i : Nat) : Bool :=
  s.owner = t && i ≤ s.index

/-- What the key holds as seen by `viewer`. A transaction sees what it did itself; everybody else
sees the content before it until it commits. -/
def content (s : Stamp κ υ) (r : Registry κ υ) (viewer : Option TxnRef) : Option υ :=
  match r.status s.owner with
  | .committed => s.after
  | .aborted => s.before
  | .active => if viewer = some s.owner then s.after else s.before

/-- What the key would hold again if `t` aborted after putting its stamp over this one. It is meant
for a stamp of `t` or of a transaction that is over. -/
def baseline (s : Stamp κ υ) (r : Registry κ υ) (t : TxnRef) : Option υ :=
  if s.owner = t then s.before else s.content r none

/-- Whether the owner is an active transaction other than `t`, which has to finish first. -/
def blocks (s : Stamp κ υ) (r : Registry κ υ) (t : TxnRef) : Bool :=
  s.owner ≠ t && r.isActive s.owner

/-- All that a transaction can tell from a stamp. -/
structure Inspection (υ : Type) where
  owned : Bool
  ownerCommitted : Bool
  same : Bool
  done : Bool
  content : Option υ
  contentForAll : Option υ
  after : Option υ
  kind : Kind
  /-- Left out while another active transaction owns the stamp. -/
  baseline : Option (Option υ)
deriving DecidableEq, Repr

/-- What the operation of `t` at position `i` can tell from the stamp. -/
def inspect (s : Stamp κ υ) (r : Registry κ υ) (t : TxnRef) (i : Nat) :
    Except Fault (Inspection υ) := do
  let step ← (r.get s.owner).stepAt s.index
  return {
    owned := s.isOwnedBy t
    ownerCommitted := r.status s.owner = .committed
    same := s.isOf t i
    done := s.covers t i
    content := s.content r (some t)
    contentForAll := s.content r none
    after := s.after
    kind := step.op.kind
    baseline := if s.blocks r t then none else some (s.baseline r t) }

end Stamp

end AtomicSet
