/-!
# Sorted chains with deletion marks

Both engines keep their keys in a linked chain in ascending order. A link is removed in two moves:
first it is marked, then some search that passes it unlinks it. A search for a key walks the chain
from its head, unlinks every marked link it meets, and stops at the first unmarked link whose key is
not smaller.

## Main definitions

* `Cursor` — where a search stopped: what it passed, what it unlinked, what lies ahead.
* `Cursor.prev?`, `Cursor.curr?` — the two ends of the bracket that it leaves.
* `locate` — the search, on any elements that have a key and a mark.
* `Link` — a key, a value and a mark; `markFirst` marks the first link of a key.
-/

namespace AtomicSet

/-- Where a search stopped. -/
structure Cursor (α : Type) where
  /-- The elements passed, in order; the last one links to the answer. -/
  before : List α
  /-- The elements met that were marked, in order; they are out of the chain now. -/
  unlinked : List α
  /-- The answer, and everything behind it, which the search did not reach. -/
  rest : List α
deriving DecidableEq, Repr

namespace Cursor

variable {α κ : Type}

/-- The element that links to the answer; none stands for the head of the chain. -/
def prev? (c : Cursor α) : Option α :=
  c.before.getLast?

/-- The answer of the search: the element at which it stopped, none at the tail. -/
def curr? (c : Cursor α) : Option α :=
  c.rest.head?

/-- The chain after the search. -/
def chain (c : Cursor α) : List α :=
  c.before ++ c.rest

/-- The answer if it has the key `k`. -/
def hit? [DecidableEq κ] (key : α → κ) (k : κ) (c : Cursor α) : Option α :=
  match c.rest with
  | [] => none
  | a :: _ => if key a = k then some a else none

end Cursor

variable {α κ υ : Type}

/-- Searches for the first unmarked element whose key is not smaller than `k`, and unlinks the
marked elements it meets on the way. -/
def locate [LT κ] [DecidableLT κ] (key : α → κ) (marked : α → Bool) (k : κ) :
    List α → Cursor α
  | [] => ⟨[], [], []⟩
  | a :: as =>
    if marked a then
      let c := locate key marked k as
      { c with unlinked := a :: c.unlinked }
    else if key a < k then
      let c := locate key marked k as
      { c with before := a :: c.before }
    else
      ⟨[], [], a :: as⟩

/-- An element of a chain: a key, what is stored for it, and its deletion mark. -/
structure Link (κ υ : Type) where
  key : κ
  value : υ
  marked : Bool := false
deriving DecidableEq, Repr

/-- The search on a chain of links. -/
def Link.locate [LT κ] [DecidableLT κ] (k : κ) (chain : List (Link κ υ)) : Cursor (Link κ υ) :=
  AtomicSet.locate Link.key Link.marked k chain

/-- Marks the first link with the key `k`, marked or not, and tells whether there is one. -/
def Link.markFirst [DecidableEq κ] (k : κ) : List (Link κ υ) → List (Link κ υ) × Bool
  | [] => ([], false)
  | l :: ls =>
    if l.key = k then
      ({ l with marked := true } :: ls, true)
    else
      let (ls', hit) := markFirst k ls
      (l :: ls', hit)

end AtomicSet
