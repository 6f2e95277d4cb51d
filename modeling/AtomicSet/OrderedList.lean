import AtomicSet.Chain

/-!
# Ordered lists

A set of keys with values, kept as a sorted chain. Every call starts with a search, which unlinks
whatever was marked on its way. A removal marks the link first, so that nobody can hang a new link
behind it, and then unlinks it.

## Main definitions

* `OrderedList κ υ` — the chain.
* `OrderedList.get`, `OrderedList.insert`, `OrderedList.remove` — the calls, each with its answer
  and the list after it.
* `OrderedList.entries` — the entries in chain order.
-/

namespace AtomicSet

/-- A set of keys with values, as a chain of links. -/
structure OrderedList (κ υ : Type) where
  links : List (Link κ υ) := []
deriving DecidableEq, Repr

namespace OrderedList

variable {κ υ : Type}

/-- The entries whose link is not marked, in chain order. -/
def entries (l : OrderedList κ υ) : List (κ × υ) :=
  (l.links.filter fun a => !a.marked).map fun a => (a.key, a.value)

variable [LT κ] [DecidableLT κ] [DecidableEq κ]

/-- The value of `k`, if there is one. -/
def get (l : OrderedList κ υ) (k : κ) : OrderedList κ υ × Option υ :=
  let c := Link.locate k l.links
  (⟨c.chain⟩, (c.hit? Link.key k).map Link.value)

/-- Adds an entry for `k` unless there is one, and tells whether it did. -/
def insert (l : OrderedList κ υ) (k : κ) (v : υ) : OrderedList κ υ × Bool :=
  let c := Link.locate k l.links
  match c.hit? Link.key k with
  | some _ => (⟨c.chain⟩, false)
  | none => (⟨c.before ++ { key := k, value := v } :: c.rest⟩, true)

/-- Takes the entry of `k` out, and answers its value. -/
def remove (l : OrderedList κ υ) (k : κ) : OrderedList κ υ × Option υ :=
  let c := Link.locate k l.links
  match c.hit? Link.key k with
  | none => (⟨c.chain⟩, none)
  | some a => (⟨c.before ++ c.rest.tail⟩, some a.value)

end OrderedList

end AtomicSet
