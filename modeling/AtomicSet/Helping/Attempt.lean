import AtomicSet.Helping.Store

/-!
# One attempt at one operation

Any thread may attempt any operation of any transaction. The attempt searches for the key and then
does one of four things. If another active transaction owns the node, it says so and does nothing
but put that owner's insertion on record. If the operation was performed before, by this thread or
another, it repeats what has to be published. If the operation's precondition fails, it refuses.
Otherwise it stamps the node, or links a new one, and publishes what the operation did.

## Main definitions

* `Progress` — the four results.
* `Store.attempt` — the attempt.
* `Store.stampNode`, `Store.linkNode`, `Store.publish` — the two halves of a success: what makes the
  operation happen, and what puts it on record.
-/

namespace AtomicSet

/-- What an attempt at an operation came to. -/
inductive Progress where
  /-- The operation was performed on the node. -/
  | applied (node : NodeId)
  /-- The operation had been performed on the node before. -/
  | repeated (node : NodeId)
  /-- The precondition fails, or the transaction is over. -/
  | refused
  /-- The transaction `owner` has to be driven on from the position `resume` first. -/
  | blocked (owner : TxnRef) (resume : Nat)
deriving DecidableEq, Repr

namespace Progress

/-- The node an operation was or had been performed on. -/
def node? : Progress → Option NodeId
  | applied n => some n
  | repeated n => some n
  | refused => none
  | blocked _ _ => none

end Progress

namespace Store

variable {κ υ : Type}

/-- Puts a stamp of the operation of `t` at position `i` on a node of the chain. -/
def stampNode (s : Store κ υ) (t : TxnRef) (i : Nat) (n : Node κ υ) (after : Option υ) :
    Store κ υ :=
  let stamp : Stamp κ υ :=
    { owner := t, index := i, before := n.stamp.baseline s.registry t, after }
  s.modifyNode n.id fun m => { m with stamp }

/-- Links a new node for `k` where the search stopped; it stood for nothing before. -/
def linkNode (s : Store κ υ) (t : TxnRef) (i : Nat) (k : κ) (after : Option υ)
    (c : Cursor (Node κ υ)) : Store κ υ :=
  let n : Node κ υ :=
    { id := s.nextNode, key := k, stamp := { owner := t, index := i, before := none, after } }
  { s with chain := c.before ++ n :: c.rest, nextNode := s.nextNode + 1 }

/-- Publishes the operation of `t` at position `i`: the node of an insertion, the value of a
lookup. -/
def publish (s : Store κ υ) (t : TxnRef) (i : Nat) (op : Operation κ υ) (id : NodeId)
    (after : Option υ) : Store κ υ :=
  match op, after with
  | .insert _ _, _ => s.noteEffect t i id
  | .find _, some v => s.modifyTxn t fun txn => txn.recordRead i v
  | .find _, none => s
  | .delete _, _ => s

/-- Publishes once more an operation that the stamp of `n` covers. A lookup that a later operation
of `t` has passed was published by whoever passed it. -/
def republish (s : Store κ υ) (t : TxnRef) (i : Nat) (op : Operation κ υ) (n : Node κ υ) :
    Store κ υ :=
  if op.isFind && n.stamp.index ≠ i then s else s.publish t i op n.id n.stamp.after

/-- The attempt if the key has a node. -/
def attemptOn (s : Store κ υ) (t : TxnRef) (i : Nat) (op : Operation κ υ) (n : Node κ υ) :
    Store κ υ × Progress :=
  if n.stamp.blocks s.registry t then
    (s.noteEffect n.stamp.owner n.stamp.index n.id, .blocked n.stamp.owner (n.stamp.index + 1))
  else if n.stamp.covers t i then
    (s.republish t i op n, .repeated n.id)
  else if s.registry.isActive t then
    match op.after? (n.stamp.content s.registry (some t)) with
    | none => (s, .refused)
    | some after => ((s.stampNode t i n after).publish t i op n.id after, .applied n.id)
  else
    (s, .refused)

/-- The attempt if the key has no node. -/
def attemptAt (s : Store κ υ) (t : TxnRef) (i : Nat) (op : Operation κ υ)
    (c : Cursor (Node κ υ)) : Store κ υ × Progress :=
  if s.registry.isActive t then
    match op.after? none with
    | none => (s, .refused)
    | some after =>
      ((s.linkNode t i op.key after c).publish t i op s.nextNode after, .applied s.nextNode)
  else
    (s, .refused)

/-! ### What the parts leave alone -/

/-- Putting a node on record writes to a slot. -/
theorem slotsOnly_noteEffect (s : Store κ υ) (t : TxnRef) (i : Nat) (id : NodeId) :
    Registry.SlotsOnly s.registry (s.noteEffect t i id).registry := by
  unfold noteEffect
  split
  · exact .modify _ _ _ (fun x => x.ops_recordEffect i id) fun x => x.status_recordEffect i id
  · exact .refl _

/-- Publishing writes to slots only. -/
theorem slotsOnly_publish (s : Store κ υ) (t : TxnRef) (i : Nat) (op : Operation κ υ)
    (id : NodeId) (after : Option υ) :
    Registry.SlotsOnly s.registry (s.publish t i op id after).registry := by
  cases op with
  | insert k v => exact slotsOnly_noteEffect s t i id
  | find k =>
    cases after with
    | none => exact .refl _
    | some v =>
      exact .modify _ _ _ (fun x => x.ops_recordRead i v) fun x => x.status_recordRead i v
  | delete k => exact .refl _

/-- An attempt on a node writes to slots of transactions only. -/
theorem slotsOnly_attemptOn (s : Store κ υ) (t : TxnRef) (i : Nat) (op : Operation κ υ)
    (n : Node κ υ) : Registry.SlotsOnly s.registry (s.attemptOn t i op n).1.registry := by
  unfold attemptOn
  split
  · exact slotsOnly_noteEffect ..
  split
  · unfold republish
    split
    · exact .refl _
    · exact slotsOnly_publish ..
  split
  · split
    · exact .refl _
    · exact slotsOnly_publish (s.stampNode ..) ..
  · exact .refl _

/-- So does an attempt for a key without a node. -/
theorem slotsOnly_attemptAt (s : Store κ υ) (t : TxnRef) (i : Nat) (op : Operation κ υ)
    (c : Cursor (Node κ υ)) : Registry.SlotsOnly s.registry (s.attemptAt t i op c).1.registry := by
  unfold attemptAt
  split
  · split
    · exact .refl _
    · exact slotsOnly_publish (s.linkNode ..) ..
  · exact .refl _

/-! ### Which attempts are blocked -/

/-- Only an active transaction blocks an attempt on a node. -/
theorem isActive_of_attemptOn_blocked {s : Store κ υ} {t : TxnRef} {i : Nat} {op : Operation κ υ}
    {n : Node κ υ} {owner : TxnRef} {resume : Nat}
    (h : (s.attemptOn t i op n).2 = .blocked owner resume) : s.registry.isActive owner := by
  rw [attemptOn] at h
  by_cases blocks : n.stamp.blocks s.registry t
  · rw [if_pos blocks] at h
    cases h
    exact (Bool.and_eq_true_iff.mp blocks).2
  · -- The other endings are of another kind.
    rw [if_neg blocks] at h
    by_cases covers : n.stamp.covers t i
    · rw [if_pos covers] at h
      cases h
    · rw [if_neg covers] at h
      by_cases active : s.registry.isActive t
      · rw [if_pos active] at h
        cases after : op.after? (n.stamp.content s.registry (some t)) with
        | none =>
          rw [after] at h
          cases h
        | some v =>
          rw [after] at h
          cases h
      · rw [if_neg active] at h
        cases h

/-- An attempt for a key without a node is not blocked. -/
theorem attemptAt_ne_blocked (s : Store κ υ) (t : TxnRef) (i : Nat) (op : Operation κ υ)
    (c : Cursor (Node κ υ)) (owner : TxnRef) (resume : Nat) :
    (s.attemptAt t i op c).2 ≠ .blocked owner resume := by
  rw [attemptAt]
  cases s.registry.isActive t with
  | false => nofun
  | true => cases op.after? none <;> nofun

/-! ### The attempt -/

variable [LT κ] [DecidableLT κ] [DecidableEq κ]

/-- Attempts the operation `op` of `t` at position `i`. -/
def attempt (s : Store κ υ) (t : TxnRef) (i : Nat) (op : Operation κ υ) : Store κ υ × Progress :=
  let c := s.seek op.key
  let s := s.afterSearch c
  match c.hit? Node.key op.key with
  | some n => s.attemptOn t i op n
  | none => s.attemptAt t i op c

/-- Attempts the operation of `t` at position `i`, which has to exist. -/
def attemptStep (s : Store κ υ) (t : TxnRef) (i : Nat) : Except Fault (Store κ υ × Progress) :=
  match (s.registry.get t).stepAt i with
  | .ok step => .ok (s.attempt t i step.op)
  | .error fault => .error fault

/-- An attempt adds no transaction and decides none; it only publishes. -/
theorem slotsOnly_attempt (s : Store κ υ) (t : TxnRef) (i : Nat) (op : Operation κ υ) :
    Registry.SlotsOnly s.registry (s.attempt t i op).1.registry := by
  unfold attempt
  dsimp only
  split
  · exact slotsOnly_attemptOn (s.afterSearch _) ..
  · exact slotsOnly_attemptAt (s.afterSearch _) ..

/-- Only an active transaction blocks an attempt. -/
theorem isActive_of_attempt_blocked {s : Store κ υ} {t : TxnRef} {i : Nat} {op : Operation κ υ}
    {owner : TxnRef} {resume : Nat} (h : (s.attempt t i op).2 = .blocked owner resume) :
    s.registry.isActive owner := by
  rw [attempt] at h
  cases hit : (s.seek op.key).hit? Node.key op.key with
  | some n =>
    rw [hit] at h
    exact isActive_of_attemptOn_blocked (s := s.afterSearch (s.seek op.key)) h
  | none =>
    rw [hit] at h
    cases attemptAt_ne_blocked (s.afterSearch (s.seek op.key)) t i op _ owner resume h

end Store

end AtomicSet
