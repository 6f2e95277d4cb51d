import AtomicSet.Fault
import AtomicSet.Outcome
import AtomicSet.Text.Duration

/-!
# Why the lock-based engine refuses a transaction

## Main definitions

* `Refusal` — a key lock was not free in time, or an operation's precondition failed.
* `Refusal.message`, `Refusal.code`, `Refusal.debugText`.
* `Stop` — a refusal, or the fault of a rollback that failed.
-/

namespace AtomicSet

/-- Why a transaction is refused. -/
inductive Refusal where
  /-- A key lock was not free within the given time. -/
  | lockTimeout (limit : Duration)
  /-- The precondition of the operation at a position failed. -/
  | precondition (index : Nat)
deriving DecidableEq, Repr

namespace Refusal

/-- The wording of a refusal. -/
def message : Refusal → String
  | lockTimeout limit => s!"key lock not acquired within {limit.text}"
  | precondition index => s!"operation {index} failed its precondition"

/-- The return code of a transaction that is refused. -/
def code : Refusal → Code
  | lockTimeout _ => .lockFail
  | precondition _ => .opFail

/-- The name of the cause. -/
def name : Refusal → String
  | lockTimeout _ => "LockTimeout"
  | precondition _ => "Precondition"

/-- The refusal as a term: the cause and its argument. -/
def debugText : Refusal → String
  | r@(lockTimeout limit) => s!"{r.name}({limit.text})"
  | r@(precondition index) => s!"{r.name}({index})"

/-- Whether the refusal says nothing about the operations themselves. -/
def isFake : Refusal → Bool
  | lockTimeout _ => true
  | precondition _ => false

end Refusal

/-- Why a transaction ended early. -/
inductive Stop where
  | refusal (r : Refusal)
  | fault (f : Fault)
deriving DecidableEq, Repr

end AtomicSet
