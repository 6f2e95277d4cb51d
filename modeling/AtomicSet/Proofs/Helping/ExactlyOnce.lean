import AtomicSet.Proofs.Helping.Orderly

/-!
# Every operation is performed once

Any number of threads may attempt the same operation, and they may start at different operations of
its transaction. The first attempt that succeeds decides on a node. From then on, until the
transaction is decided, the node belongs to it: the node stays in the chain as the only one of its
key, its stamp only moves on to later operations of the same transaction, and whoever attempts the
operation again is told of this node and changes nothing at all. None of this depends on the order
in which operations are attempted.

## Main definitions

* `Store.Done` — an attempt at the operation has succeeded on the node.
* `Store.Keeper` — what is known of the node from then on.

## Main results

* `Store.WellFormed.done_of_attempt`, `Store.Done.actAll` — a success, and what events leave of it.
* `Store.Done.attempt_eq` — to attempt the operation again changes nothing.
* `HelpingSession.Run.performed_once` — at every later moment of a run.
-/

namespace AtomicSet

open Operation

variable {κ υ : Type} [LinearOrder κ]

namespace Store

/-- The operation `op` of `t` at position `i` was performed on the node `id`, which carries its
stamp or that of a later operation of `t`; if it is an insertion, it is on record. -/
structure Done (s : Store κ υ) (t : TxnRef) (i : Nat) (op : Operation κ υ) (id : NodeId) :
    Prop where
  op_eq : (s.registry.get t).op? i = some op
  node : ∃ n ∈ s.chain, n.id = id ∧ n.key = op.key ∧ n.stamp.owner = t ∧ i ≤ n.stamp.index
  recorded : op.kind = .insert → ∃ id', (s.registry.get t).effect? i = some id'

/-- The node `id` is kept for the operation `op` of `t` at position `i`. -/
structure Keeper (s : Store κ υ) (t : TxnRef) (i : Nat) (op : Operation κ υ) (id : NodeId) :
    Prop where
  /-- It is linked, unmarked, the only node of its key, and carries the operation's stamp or that of
  a later one of `t`. Whatever happens next, it will, as long as `t` is active, and its stamp will
  not be one of an earlier operation. -/
  node : ∃ n ∈ s.chain, n.id = id ∧ n.key = op.key ∧ n.linkMarked = false ∧
    n.stampMarked = false ∧ (∀ m ∈ s.chain, m.key = op.key → m = n) ∧
    n.stamp.owner = t ∧ i ≤ n.stamp.index ∧
    ∀ e, (s.act e).registry.isActive t → ∃ n' ∈ (s.act e).chain, n'.id = id ∧
      n'.stamp.owner = t ∧ n.stamp.index ≤ n'.stamp.index
  /-- No attempt for another transaction succeeds on it. -/
  foreign : ∀ u j op', u ≠ t → (s.attempt u j op').2.node? ≠ some id
  /-- To attempt the operation again changes nothing, and leads to the same node. -/
  again : s.attempt t i op = (s, .repeated id)

namespace WellFormed

variable {s : Store κ υ}

/-- A search for the key of a node of an active transaction changes nothing. -/
theorem searched_of_isActive (h : s.WellFormed) {n : Node κ υ} (hn : n ∈ s.chain)
    (hactive : s.registry.isActive n.stamp.owner) : s.searched n.key = s := by
  refine drop_eq_self fun m hm => ?_
  by_cases hkey : m.key = n.key
  · obtain rfl := h.eq_of_key hm hn hkey
    rw [isStale_of_isActive hactive, Bool.and_false]
  · rw [decide_eq_false hkey, Bool.false_and]

omit [LinearOrder κ] in
/-- A node of an active transaction may not be stamped by others. -/
theorem not_free_of_isActive {n : Node κ υ} (hactive : s.registry.isActive n.stamp.owner)
    {u : TxnRef} (hne : u ≠ n.stamp.owner) (j : Nat) : ¬s.Free u j n := by
  rintro (⟨hown, -⟩ | ⟨-, hdecided⟩)
  · exact hne hown.symm
  · rw [hactive] at hdecided
    cases hdecided

/-- No attempt for another transaction succeeds on a node of an active one. -/
theorem node?_attempt_ne (h : s.WellFormed) {n : Node κ υ} (hn : n ∈ s.chain)
    (hactive : s.registry.isActive n.stamp.owner) {u : TxnRef} (hne : u ≠ n.stamp.owner) (j : Nat)
    (op : Operation κ υ) : (s.attempt u j op).2.node? ≠ some n.id := by
  have honly : ∀ {m}, m ∈ (s.searched op.key).chain → m.id = n.id → m = n :=
    fun hm hid => h.eq_of_id (mem_chain_drop.mp hm).1 hn hid
  have hcases := h.attempted u j op
  generalize s.attempt u j op = result at hcases
  intro hnode
  cases hcases with
  | blocked _ _ _ _ => cases hnode
  | repeated hm _ hown _ =>
      obtain rfl := honly hm (Option.some.inj hnode)
      exact hne hown.symm
  | stamped hm _ hfree _ _ =>
      obtain rfl := honly hm (Option.some.inj hnode)
      exact not_free_of_isActive hactive hne j hfree
  | linked _ _ _ =>
      have hlt := h.id_lt n (List.mem_append_left _ hn)
      have heq : n.id = s.nextNode := (Option.some.inj hnode).symm
      exact absurd heq (Nat.ne_of_lt hlt)
  | refused _ _ _ _ => cases hnode
  | missing _ _ => cases hnode

/-- **An attempt that succeeds** performs the operation on the node that it names. -/
theorem done_of_attempt (h : s.WellFormed) {t : TxnRef} {i : Nat} {op : Operation κ υ}
    (hop : (s.registry.get t).op? i = some op) {id : NodeId}
    (hnode : (s.attempt t i op).2.node? = some id) : (s.attempt t i op).1.Done t i op id := by
  have hattempt : s.attempt t i op = ((s.attempt t i op).1, (s.attempt t i op).2) := rfl
  have hslots := s.slotsOnly_attempt t i op
  exact ⟨(Transaction.op?_congr (hslots.ops_eq t) i).trans hop,
    h.node_of_attempt hattempt hnode, h.effect_of_attempt hop hattempt hnode⟩

end WellFormed

namespace Done

variable {s : Store κ υ} {t : TxnRef} {i : Nat} {op : Operation κ υ} {id : NodeId}

/-- **What was done stays done**, whatever happens while the transaction is active. -/
theorem actAll (h : s.Done t i op id) (hwf : s.WellFormed) (es : List (Event κ υ))
    (hactive : (s.actAll es).registry.isActive t) : (s.actAll es).Done t i op id := by
  have hext := hwf.extends_actAll es
  refine ⟨hext.op?_eq h.op_eq, ?_, fun hinsert => ?_⟩
  · obtain ⟨n, hn, hid, hkey, hown, hle⟩ := h.node
    obtain ⟨n', hn', hfollows⟩ := hwf.owned_actAll hn es (hown ▸ hactive)
    exact ⟨n', hn', hfollows.id_eq.trans hid, hfollows.key_eq.trans hkey,
      hfollows.owner_eq.trans hown, Nat.le_trans hle hfollows.index_le⟩
  · obtain ⟨id', hid'⟩ := h.recorded hinsert
    exact ⟨id', hext.effect_eq t (Registry.lt_size_of_op? h.op_eq) i id' hid'⟩

/-- **To attempt the operation again changes nothing.** -/
theorem attempt_eq (h : s.Done t i op id) (hwf : s.WellFormed) (hr : s.Recorded)
    (hactive : s.registry.isActive t) : s.attempt t i op = (s, .repeated id) := by
  obtain ⟨n, hn, rfl, hkey, rfl, hle⟩ := h.node
  have hsearched : s.searched op.key = s := hkey ▸ hwf.searched_of_isActive hn hactive
  have hcases := hwf.attempted n.stamp.owner i op
  rw [hsearched] at hcases
  have honly : ∀ {m}, m ∈ s.chain → m.key = op.key → m = n :=
    fun hm hmkey => hwf.eq_of_key hm hn (hmkey.trans hkey.symm)
  -- The stamp is too late for the operation to be applied once more.
  have hnotfree : ∀ {m}, m = n → ¬s.Free n.stamp.owner i m := by
    rintro m rfl (⟨-, hlt⟩ | ⟨hne, -⟩)
    · omega
    · exact hne rfl
  generalize s.attempt n.stamp.owner i op = result at hcases
  cases hcases with
  | blocked hm hmkey hforeign _ =>
      obtain rfl := honly hm hmkey
      exact absurd rfl hforeign
  | @repeated m hm hmkey _ _ =>
      obtain rfl := honly hm hmkey
      rw [republish]
      by_cases hpassed : op.isFind && m.stamp.index ≠ i
      · rw [if_pos hpassed]
      · rw [if_neg hpassed, publish_of_recorded h.recorded]
        intro hfind
        simp only [hfind, Bool.true_and, decide_eq_true_eq, not_not] at hpassed
        subst hpassed
        exact hr _ hm hactive op h.op_eq hfind
  | stamped hm hmkey hfree _ _ => exact absurd hfree (hnotfree (honly hm hmkey))
  | linked hplace _ _ => exact absurd hkey (hplace.absent n hn)
  | refused hm hmkey hfree _ => exact absurd hfree (hnotfree (honly hm hmkey))
  | missing habsent _ => exact absurd hkey (habsent n hn)

/-- The node of an operation that was performed is kept for it. -/
theorem keeper (h : s.Done t i op id) (hwf : s.WellFormed) (hr : s.Recorded)
    (hactive : s.registry.isActive t) : s.Keeper t i op id := by
  have hagain := h.attempt_eq hwf hr hactive
  obtain ⟨n, hn, rfl, hkey, rfl, hle⟩ := h.node
  refine ⟨⟨n, hn, rfl, hkey, (hwf.unmarked n hn).1, (hwf.unmarked n hn).2, ?_, rfl, hle, ?_⟩, ?_,
    hagain⟩
  · intro m hm hmkey
    exact hwf.eq_of_key hm hn (hmkey.trans hkey.symm)
  · intro e hnext
    obtain ⟨n', hn', hfollows⟩ := hwf.owned_act hn e hnext
    exact ⟨n', hn', hfollows.id_eq, hfollows.owner_eq, hfollows.index_le⟩
  · intro u j op' hne
    exact hwf.node?_attempt_ne hn hactive hne j op'

end Done

end Store

namespace HelpingSession

/-- **Every operation is performed once.** In a run of any commands, once an attempt at an operation
has succeeded on a node, be it in the loop of a thread that helps, at every later moment at which
the transaction is active the node is kept for the operation. -/
theorem Run.performed_once {s : HelpingSession κ υ} {es : List (Event κ υ)} (h : Run s es) :
    Store.actAll {} es = s.store ∧
      ∀ pre t i mid post, es = pre ++ .attempt t i :: (mid ++ post) → ∀ op id,
        ((Store.actAll {} pre).registry.get t).op? i = some op →
        ((Store.actAll {} pre).attempt t i op).2.node? = some id →
        (Store.actAll {} (pre ++ .attempt t i :: mid)).registry.isActive t →
        (Store.actAll {} (pre ++ .attempt t i :: mid)).Keeper t i op id := by
  refine ⟨h.store_eq, fun pre t i mid post _ op id hop hnode hactive => ?_⟩
  have hwf : (Store.actAll {} pre : Store κ υ).WellFormed := Store.WellFormed.fresh.actAll pre
  have hdone := hwf.done_of_attempt hop hnode
  rw [Store.actAll_append, Store.actAll_cons, Drive.act_attempt hop] at hactive ⊢
  have hwf' := hwf.attempt hop
  have hrecorded : (Store.actAll {} pre : Store κ υ).Recorded :=
    Store.Recorded.actAll (fun n hn => by cases hn) Store.WellFormed.fresh pre
  have hrecorded' := (hrecorded.attempt hwf hop).actAll hwf' mid
  exact (hdone.actAll hwf' mid hactive).keeper (hwf'.actAll mid) hrecorded' hactive

/-- While a transaction that inserted a key looks it up, the node is kept for the insertion. -/
theorem performed_once_while_reading : ∃ s : HelpingSession Nat Nat,
    Run s [.allocate [.insert 1 10, .find 1], .attempt 0 0, .attempt 0 1] ∧
    (Store.actAll {} [.allocate [.insert 1 10, .find 1], .attempt 0 0, .attempt 0 1] :
      Store Nat Nat).Keeper 0 0 (.insert 1 10) 0 := by
  have h₁ := Run.fresh.perform (.allocate [.insert 1 (10 : Nat), .find (1 : Nat)])
  have h₂ := h₁.perform (.step 0 0)
  have h₃ := h₂.perform (.step 0 1)
  refine ⟨_, h₃, ?_⟩
  exact (Run.performed_once h₃).2 [.allocate [.insert 1 10, .find 1]] 0 0 [.attempt 0 1] [] rfl
    (.insert 1 10) 0 rfl (by decide) (by decide)

end HelpingSession

end AtomicSet
