/-!
# Operations

A transaction is a list of operations on a set of keys that carry values. Each operation has a
precondition on its key alone: an insertion needs the key absent, a deletion and a lookup need it
present. `Operation.after?` states both the precondition and the effect at once.

## Main definitions

* `Operation κ υ` — a lookup, an insertion or a deletion of one key.
* `Operation.after?` — what the key holds after the operation, or `none` if it must fail.
-/

namespace AtomicSet

/-- The three kinds of operation. -/
inductive Kind where
  | find
  | insert
  | delete
deriving DecidableEq, Repr

/-- One step of a transaction, on the keys `κ` and the values `υ`. -/
inductive Operation (κ υ : Type) where
  | find (key : κ)
  | insert (key : κ) (value : υ)
  | delete (key : κ)
deriving DecidableEq, Repr

namespace Operation

variable {κ υ : Type}

/-- The key the operation is about. -/
def key : Operation κ υ → κ
  | find k => k
  | insert k _ => k
  | delete k => k

/-- The kind of the operation. -/
def kind : Operation κ υ → Kind
  | find _ => .find
  | insert _ _ => .insert
  | delete _ => .delete

/-- What the key holds after the operation if it holds `held` before it, and `none` if the
operation's precondition does not hold of `held`. -/
def after? : Operation κ υ → Option υ → Option (Option υ)
  | insert _ v, none => some (some v)
  | insert _ _, some _ => none
  | delete _, some _ => some none
  | delete _, none => none
  | find _, some v => some (some v)
  | find _, none => none

/-- Whether the operation only looks. -/
def isFind (op : Operation κ υ) : Bool :=
  op.kind = .find

end Operation

end AtomicSet
