/-!
# Broken promises of a caller

Some requests have no answer: a position past the end, a rollback of a key that somebody else
changed, an empty range of keys to draw from. Such a request is refused with a `Fault`, whose
`message` names the promise that was broken.

## Main definitions

* `Fault` — the causes.
* `Fault.message` — the wording.
-/

namespace AtomicSet

/-- Why a request has no answer. -/
inductive Fault where
  /-- The element at `index` of a sequence of `length` elements was asked for. -/
  | indexOutOfBounds (length index : Nat)
  /-- The part from `start` on of a sequence of `length` elements was asked for. -/
  | rangeStart (start length : Nat)
  /-- A sequence of `length` elements was to be split at `index`, past its end. -/
  | splitIndex (index length : Nat)
  /-- The first element of an empty sequence was to be removed. -/
  | removeFromEmpty
  /-- Taking back a change found the key not as that change had left it. -/
  | undoFailed
  /-- A key was to be drawn from an empty range. -/
  | emptyKeyRange
deriving DecidableEq, Repr

/-- The wording of a fault. -/
def Fault.message : Fault → String
  | indexOutOfBounds length index =>
    s!"index out of bounds: the len is {length} but the index is {index}"
  | rangeStart start length =>
    s!"range start index {start} out of range for slice of length {length}"
  | splitIndex index length =>
    s!"`at` split index (is {index}) should be <= len (is {length})"
  | removeFromEmpty => "swap_remove index (is 0) should be < len (is 0)"
  | undoFailed => "undo of a locked key failed"
  | emptyKeyRange => "Uniform::new called with `low >= high`"

end AtomicSet
