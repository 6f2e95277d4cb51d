import AtomicSet.Chain
import AtomicSet.Outcome
import AtomicSet.Tally
import AtomicSet.Transaction.Stamp

/-!
# The store of the non-blocking engine

A sorted chain of nodes, one per key that some transaction touched, each with the stamp of the last
transaction that did. Nothing is ever waited for: what a node holds is computed from the stamp and
its owner's status.

A node leaves the chain in three moves. Its stamp is marked, after which nobody may stamp it again;
its link is marked; and some search unlinks it. A node is *stale* if it carries a committed
insertion that took effect on another node: some thread fell behind and linked it after the
insertion was over. A stale node never held its key, and a search for that key retires it.

## Main definitions

* `Node`, `Store` — the state.
* `Store.isStale`, `Store.resolve` — what a node holds.
* `Store.entries`, `Store.survey` — the live entries, and every node of the chain.
* `Store.seek` — the search that every operation starts with.
-/

namespace AtomicSet

/-- A node of the chain. -/
structure Node (κ υ : Type) where
  id : NodeId
  key : κ
  stamp : Stamp κ υ
  stampMarked : Bool := false
  linkMarked : Bool := false
deriving DecidableEq, Repr

/-- The node with both marks set: it is out of use. -/
def Node.retire {κ υ : Type} (n : Node κ υ) : Node κ υ :=
  { n with stampMarked := true, linkMarked := true }

/-- The state of the non-blocking engine. -/
structure Store (κ υ : Type) where
  registry : Registry κ υ := {}
  /-- The nodes that can be reached, in chain order. -/
  chain : List (Node κ υ) := []
  /-- The nodes that were unlinked, the last ones first; a thread may still hold them. -/
  unlinked : List (Node κ υ) := []
  /-- The name of the next node. -/
  nextNode : NodeId := 0
  tally : Tally := {}
deriving DecidableEq, Repr

namespace Store

variable {κ υ : Type}

/-! ### What a node holds -/

/-- Whether the node carries a committed insertion that is on record for another node. -/
def isStale (s : Store κ υ) (n : Node κ υ) : Bool :=
  let owner := s.registry.get n.stamp.owner
  owner.kind? n.stamp.index = some .insert && owner.status = .committed &&
    owner.effect? n.stamp.index ≠ some n.id

/-- What the node holds as seen by `viewer`. -/
def resolve (s : Store κ υ) (viewer : Option TxnRef) (n : Node κ υ) : Option υ :=
  if s.isStale n then none else n.stamp.content s.registry viewer

/-- What the node holds for everybody: nothing once it is marked. -/
def liveValue (s : Store κ υ) (n : Node κ υ) : Option υ :=
  if n.linkMarked || n.stampMarked then none else s.resolve none n

/-- The live entries in chain order. -/
def entries (s : Store κ υ) : List (κ × υ) :=
  s.chain.filterMap fun n => (s.liveValue n).map fun v => (n.key, v)

/-- Every node of the chain: its key, and whether it holds anything. -/
def survey (s : Store κ υ) : List (κ × Bool) :=
  s.chain.map fun n => (n.key, (s.liveValue n).isSome)

/-- The node with the name `id`, linked or not. -/
def node? (s : Store κ υ) (id : NodeId) : Option (Node κ υ) :=
  (s.chain ++ s.unlinked).find? fun n => n.id = id

/-! ### Writing to nodes and transactions -/

/-- Writes to the node of the chain with the name `id`. -/
def modifyNode (s : Store κ υ) (id : NodeId) (f : Node κ υ → Node κ υ) : Store κ υ :=
  { s with chain := s.chain.map fun n => if n.id = id then f n else n }

/-- Writes to the transaction `t`. -/
def modifyTxn (s : Store κ υ) (t : TxnRef) (f : Transaction κ υ → Transaction κ υ) : Store κ υ :=
  { s with registry := s.registry.modify t f }

/-- Puts the node on record for the operation of `t` at position `i`, if that is an insertion and
nothing is on record for it. -/
def noteEffect (s : Store κ υ) (t : TxnRef) (i : Nat) (id : NodeId) : Store κ υ :=
  if (s.registry.get t).kind? i = some .insert then
    s.modifyTxn t fun txn => txn.recordEffect i id
  else s

/-- Gives an active transaction the status `final` and counts it; the first one to do so wins. -/
def settle (s : Store κ υ) (t : TxnRef) (final : Status) (fake : Bool) : Store κ υ :=
  if s.registry.isActive t then
    { s with
      registry := s.registry.modify t fun txn => txn.finalize final
      tally := if final = .committed then s.tally.commit else s.tally.abort fake }
  else s

/-- Settling adds no transaction. -/
theorem size_settle (s : Store κ υ) (t : TxnRef) (final : Status) (fake : Bool) :
    (s.settle t final fake).registry.size = s.registry.size := by
  unfold settle
  split <;> simp

/-- Settling finalizes the one transaction and changes no other. -/
theorem get_settle (s : Store κ υ) (t : TxnRef) (final : Status) (fake : Bool) (u : TxnRef) :
    (s.settle t final fake).registry.get u =
      if t = u then (s.registry.get u).finalize final else s.registry.get u := by
  by_cases active : s.registry.isActive t
  · have lt := Registry.lt_size_of_isActive active
    rw [settle, if_pos active, Registry.get_modify]
    by_cases h : t = u
    · simp [h, h ▸ lt]
    · simp [h]
  · rw [settle, if_neg active]
    by_cases h : t = u
    · rw [if_pos h, Transaction.finalize_of_not_active]
      simpa [Registry.isActive, h] using active
    · rw [if_neg h]

/-- Settling a decided transaction changes nothing. -/
theorem settle_of_not_active {s : Store κ υ} {t : TxnRef} (decided : s.registry.isActive t = false)
    (final : Status) (fake : Bool) : s.settle t final fake = s := by
  simp [settle, decided]

/-! ### Searching -/

variable [LT κ] [DecidableLT κ]

/-- The store after a search: what the search unlinked is out of the chain. -/
def afterSearch (s : Store κ υ) (c : Cursor (Node κ υ)) : Store κ υ :=
  { s with chain := c.chain, unlinked := c.unlinked ++ s.unlinked }

/-- Searches for `k` and unlinks the nodes with a marked link on the way. -/
def unlink (s : Store κ υ) (k : κ) : Store κ υ :=
  s.afterSearch (locate Node.key Node.linkMarked k s.chain)

variable [DecidableEq κ]

/-- Whether a search for `k` takes the node out: its link is marked, or it has the key `k` and is on
its way out, by a marked stamp or because it is stale. -/
def isLeaving (s : Store κ υ) (k : κ) (n : Node κ υ) : Bool :=
  n.linkMarked || (n.key = k && (n.stampMarked || s.isStale n))

/-- Searches for `k` until the node it finds, if it has the key `k`, is there to stay. A node of
this key that is on its way out is retired first. -/
def seek (s : Store κ υ) (k : κ) : Cursor (Node κ υ) :=
  let c := locate Node.key (s.isLeaving k) k s.chain
  { c with unlinked := c.unlinked.map fun n => if n.linkMarked then n else n.retire }

end Store

end AtomicSet
