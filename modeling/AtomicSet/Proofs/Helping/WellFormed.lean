import AtomicSet.Proofs.Helping.History
import AtomicSet.Proofs.Helping.Slots
import AtomicSet.Proofs.Search
import Mathlib.Data.List.Nodup

/-!
# Well-formed stores

Whatever is asked of a store, in whatever order, its chain ascends strictly, no node of the chain is
marked, every node outside of it is out of use, and every stamp is that of an operation on its
node's key. In such a store only one thing ever takes nodes out: they are *dropped*, marked and
unlinked in one go. A search drops the stale nodes of its key, and sweeping drops the touched nodes
that hold nothing.

## Main definitions

* `Store.WellFormed` — the invariant.
* `Store.drop` — nodes are marked and unlinked.
* `Store.searched` — the store after a search.
* `Store.sweepable` — the nodes that a sweep drops.
* `Store.Placed` — a node is put in the place of whatever node had its key.

## Main results

* `Store.WellFormed.afterSearch_seek`, `Store.WellFormed.sweepNode_eq` — searching and sweeping
  drop nodes.
* `Store.WellFormed.drop` and its companions — each kind of change keeps the invariant.
-/

namespace AtomicSet

namespace Store

variable {κ υ : Type}

/-- Marks and unlinks the nodes of the chain that satisfy `p`. -/
def drop (s : Store κ υ) (p : Node κ υ → Bool) : Store κ υ :=
  { s with
    chain := s.chain.filter fun n => !p n
    unlinked := (s.chain.filter p).map Node.retire ++ s.unlinked }

/-- What holds of a store whatever was asked of it. -/
structure WellFormed [LT κ] (s : Store κ υ) : Prop where
  /-- Keys ascend strictly along the chain. -/
  ascending : s.chain.Pairwise fun a b => a.key < b.key
  /-- No node of the chain is on its way out. -/
  unmarked : ∀ n ∈ s.chain, n.linkMarked = false ∧ n.stampMarked = false
  /-- A node that was unlinked is out of use. -/
  retired : ∀ n ∈ s.unlinked, n.linkMarked = true ∧ n.stampMarked = true
  /-- No two nodes have the same name. -/
  named : ((s.chain ++ s.unlinked).map Node.id).Nodup
  /-- Names are given in order. -/
  id_lt : ∀ n ∈ s.chain ++ s.unlinked, n.id < s.nextNode
  /-- A stamp is that of an operation on the key of its node. -/
  stamped : ∀ n ∈ s.chain, ∃ op,
    (s.registry.get n.stamp.owner).op? n.stamp.index = some op ∧ op.key = n.key
  /-- The identifier of a transaction is its reference. -/
  numbered : ∀ t < s.registry.size, (s.registry.get t).id = t
  /-- Only nodes that were made are on record. -/
  effect_lt : ∀ t i id, (s.registry.get t).effect? i = some id → id < s.nextNode
  /-- Only lookups read. -/
  read_find : ∀ t i v, (s.registry.get t).read? i = some v →
    ∃ op, (s.registry.get t).op? i = some op ∧ op.isFind

/-- The store `s₁` is `s` with the node `a` in the place of whatever node had its key. -/
structure Placed [LT κ] (s : Store κ υ) (a : Node κ υ) (s₁ : Store κ υ) : Prop where
  wellFormed : s₁.WellFormed
  registry_eq : s₁.registry = s.registry
  tally_eq : s₁.tally = s.tally
  nextNode_le : s.nextNode ≤ s₁.nextNode
  mem_iff : ∀ m, m ∈ s₁.chain ↔ m ∈ s.chain ∧ m.key ≠ a.key ∨ m = a

/-- Dropping keeps the nodes that are not dropped. -/
theorem mem_chain_drop {s : Store κ υ} {p : Node κ υ → Bool} {n : Node κ υ} :
    n ∈ (s.drop p).chain ↔ n ∈ s.chain ∧ p n = false := by
  simp [drop]

/-- Dropping nothing changes nothing. -/
theorem drop_eq_self {s : Store κ υ} {p : Node κ υ → Bool} (h : ∀ n ∈ s.chain, p n = false) :
    s.drop p = s := by
  have hkept : s.chain.filter (fun n => !p n) = s.chain :=
    List.filter_eq_self.mpr fun n hn => by rw [h n hn]; rfl
  have hgone : s.chain.filter p = [] :=
    List.filter_eq_nil_iff.mpr fun n hn => by simp [h n hn]
  simp [drop, hkept, hgone]

/-- What is dropped depends only on the nodes of the chain. -/
theorem drop_congr {s : Store κ υ} {p q : Node κ υ → Bool} (h : ∀ n ∈ s.chain, p n = q n) :
    s.drop p = s.drop q := by
  have hkept : s.chain.filter (fun n => !p n) = s.chain.filter fun n => !q n :=
    List.filter_congr fun n hn => by rw [h n hn]
  simp only [drop, hkept, List.filter_congr h]

namespace WellFormed

section Nodes

variable [LT κ] {s : Store κ υ}

/-- The empty store is well-formed. -/
theorem fresh : ({} : Store κ υ).WellFormed where
  ascending := .nil
  unmarked := by simp
  retired := by simp
  named := .nil
  id_lt := by simp
  stamped := by simp
  numbered t ht := by simp [Registry.size] at ht
  effect_lt t i id h := by
    rw [Registry.get_of_size_le (Nat.zero_le t)] at h
    cases h
  read_find t i v h := by
    rw [Registry.get_of_size_le (Nat.zero_le t)] at h
    cases h

/-- No node is in the chain twice. -/
theorem nodup_chain (h : s.WellFormed) : (s.chain.map Node.id).Nodup := by
  have := h.named
  rw [List.map_append, List.nodup_append] at this
  exact this.1

/-- Nodes of the chain are told apart by their names. -/
theorem eq_of_id (h : s.WellFormed) {n m : Node κ υ} (hn : n ∈ s.chain) (hm : m ∈ s.chain)
    (hid : n.id = m.id) : n = m :=
  List.inj_on_of_nodup_map h.nodup_chain hn hm hid

/-- The owner of a stamp is in the registry. -/
theorem owner_lt (h : s.WellFormed) {n : Node κ υ} (hn : n ∈ s.chain) :
    n.stamp.owner < s.registry.size := by
  obtain ⟨op, hop, -⟩ := h.stamped n hn
  exact Registry.lt_size_of_op? hop

/-- The operation of a stamp is on the key of its node. -/
theorem key_eq (h : s.WellFormed) {n : Node κ υ} (hn : n ∈ s.chain) {op : Operation κ υ}
    (hop : (s.registry.get n.stamp.owner).op? n.stamp.index = some op) : op.key = n.key := by
  obtain ⟨op', hop', hkey⟩ := h.stamped n hn
  rw [hop] at hop'
  exact Option.some.inj hop' ▸ hkey

/-- Dropping nodes keeps a store well-formed. -/
theorem drop (h : s.WellFormed) (p : Node κ υ → Bool) : (s.drop p).WellFormed where
  ascending := h.ascending.sublist List.filter_sublist
  unmarked n hn := h.unmarked n (mem_chain_drop.mp hn).1
  retired n hn := by
    rcases List.mem_append.mp hn with hmem | hmem
    · obtain ⟨m, -, rfl⟩ := List.mem_map.mp hmem
      exact ⟨rfl, rfl⟩
    · exact h.retired n hmem
  named := by
    have hids : ((s.drop p).chain ++ (s.drop p).unlinked).map Node.id =
        ((s.chain.filter (fun n => !p n) ++ s.chain.filter p) ++ s.unlinked).map Node.id := by
      simp [Store.drop, Node.retire, Function.comp_def]
    have hperm : (s.chain.filter (fun n => !p n) ++ s.chain.filter p).Perm s.chain :=
      List.perm_append_comm.trans (List.filter_append_perm p s.chain)
    rw [hids]
    exact ((hperm.append_right s.unlinked).map Node.id).nodup_iff.mpr h.named
  id_lt n hn := by
    rcases List.mem_append.mp hn with hmem | hmem
    · exact h.id_lt n (List.mem_append_left _ (mem_chain_drop.mp hmem).1)
    rcases List.mem_append.mp hmem with hmem | hmem
    · obtain ⟨m, hm, rfl⟩ := List.mem_map.mp hmem
      exact h.id_lt m (List.mem_append_left _ (List.mem_filter.mp hm).1)
    · exact h.id_lt n (List.mem_append_right _ hmem)
  stamped n hn := h.stamped n (mem_chain_drop.mp hn).1
  numbered := h.numbered
  effect_lt := h.effect_lt
  read_find := h.read_find

/-- Writing to slots, or deciding a transaction, keeps a store well-formed. -/
theorem withRegistry (h : s.WellFormed) {r : Registry κ υ} (tally : Tally)
    (hsize : r.size = s.registry.size)
    (hops : ∀ t, (r.get t).ops = (s.registry.get t).ops)
    (hid : ∀ t, (r.get t).id = (s.registry.get t).id)
    (heffect : ∀ t i id, (r.get t).effect? i = some id → id < s.nextNode)
    (hread : ∀ t i v, (r.get t).read? i = some v → ∃ op, (r.get t).op? i = some op ∧ op.isFind) :
    WellFormed { s with registry := r, tally } where
  ascending := h.ascending
  unmarked := h.unmarked
  retired := h.retired
  named := h.named
  id_lt := h.id_lt
  stamped n hn := by
    rw [Transaction.op?_congr (hops _)]
    exact h.stamped n hn
  numbered t ht := by
    rw [hid]
    exact h.numbered t (hsize ▸ ht)
  effect_lt := heffect
  read_find := hread

/-- Counting keeps a store well-formed. -/
theorem withTally (h : s.WellFormed) (tally : Tally) : WellFormed { s with tally } :=
  h.withRegistry tally rfl (fun _ => rfl) (fun _ => rfl) h.effect_lt h.read_find

/-- A well-formed store stays so when a transaction is decided. -/
theorem settle (h : s.WellFormed) (t : TxnRef) (final : Status) (fake : Bool) :
    (s.settle t final fake).WellFormed := by
  have heq : s.settle t final fake =
      { s with
        registry := (s.settle t final fake).registry
        tally := (s.settle t final fake).tally } := by
    rw [Store.settle]
    split <;> rfl
  rw [heq]
  refine h.withRegistry _ (size_settle ..) (fun u => ops_settle ..) (fun u => id_settle ..)
    (fun u i id hid => ?_) (fun u i v hv => ?_)
  · rw [effect?_settle] at hid
    exact h.effect_lt u i id hid
  · rw [read?_settle] at hv
    rw [Transaction.op?_congr (ops_settle ..)]
    exact h.read_find u i v hv

/-- What a slot holds after it may have been filled is below a bound if both nodes are. -/
private theorem lt_of_filled {c : Prop} [Decidable c] {old : Option NodeId} {id id' bound : NodeId}
    (h : (if c then old.or (some id) else old) = some id') (hold : old = some id' → id' < bound)
    (hlt : id < bound) : id' < bound := by
  by_cases hc : c
  · rw [if_pos hc] at h
    rcases Option.or_eq_some_iff.mp h with hsome | ⟨-, hnew⟩
    · exact hold hsome
    · exact Option.some.inj hnew ▸ hlt
  · rw [if_neg hc] at h
    exact hold h

/-- A well-formed store stays so when a node that was made is noted. -/
theorem noteEffect (h : s.WellFormed) (t : TxnRef) (i : Nat) {id : NodeId}
    (hlt : id < s.nextNode) : (s.noteEffect t i id).WellFormed := by
  have hslots := slotsOnly_noteEffect s t i id
  rw [noteEffect_eq]
  refine h.withRegistry s.tally hslots.size_eq hslots.ops_eq (fun u => id_noteEffect ..)
    (fun u j id' hid' => ?_) (fun u j v hv => ?_)
  · rw [effect?_noteEffect] at hid'
    exact lt_of_filled hid' (h.effect_lt u j id') hlt
  · rw [read?_noteEffect] at hv
    rw [Transaction.op?_congr (hslots.ops_eq u)]
    exact h.read_find u j v hv

/-- A well-formed store stays so when a node that was made is published. -/
theorem publish (h : s.WellFormed) {t : TxnRef} {i : Nat} {op : Operation κ υ}
    (hop : (s.registry.get t).op? i = some op) {id : NodeId} (hlt : id < s.nextNode)
    (after : Option υ) : (s.publish t i op id after).WellFormed := by
  have hslots := slotsOnly_publish s t i op id after
  rw [publish_eq]
  refine h.withRegistry s.tally hslots.size_eq hslots.ops_eq (fun u => id_publish ..)
    (fun u j id' hid' => ?_) (fun u j v hv => ?_)
  · rw [effect?_publish hop] at hid'
    exact lt_of_filled hid' (h.effect_lt u j id') hlt
  · rw [Transaction.op?_congr (hslots.ops_eq u)]
    rw [read?_publish hop] at hv
    by_cases hcase : u = t ∧ j = i ∧ op.isFind
    · obtain ⟨rfl, rfl, hfind⟩ := hcase
      exact ⟨op, hop, hfind⟩
    · rw [if_neg hcase] at hv
      exact h.read_find u j v hv

/-- A well-formed store stays so when a node of the chain is published again. -/
theorem republish (h : s.WellFormed) {t : TxnRef} {i : Nat} {op : Operation κ υ}
    (hop : (s.registry.get t).op? i = some op) {n : Node κ υ} (hn : n ∈ s.chain) :
    (s.republish t i op n).WellFormed := by
  rw [Store.republish]
  split
  · exact h
  · exact h.publish hop (h.id_lt n (List.mem_append_left _ hn)) _

/-- Registering a transaction keeps a store well-formed. -/
theorem allocate (h : s.WellFormed) (ops : List (Operation κ υ)) :
    (s.allocate ops).1.WellFormed where
  ascending := h.ascending
  unmarked := h.unmarked
  retired := h.retired
  named := h.named
  id_lt := h.id_lt
  stamped n hn := by
    obtain ⟨op, hop, hkey⟩ := h.stamped n hn
    refine ⟨op, ?_, hkey⟩
    dsimp only [Store.allocate]
    rw [Registry.get_add, if_neg (Nat.ne_of_lt (h.owner_lt hn))]
    exact hop
  numbered t ht := by
    dsimp only [Store.allocate] at ht ⊢
    rw [Registry.size_add] at ht
    rw [Registry.get_add]
    by_cases hnew : t = s.registry.size
    · rw [if_pos hnew]
      exact hnew ▸ rfl
    · rw [if_neg hnew]
      exact h.numbered t (Nat.lt_of_le_of_ne (Nat.le_of_lt_succ ht) hnew)
  effect_lt t i id hid := by
    dsimp only [Store.allocate] at hid ⊢
    rw [Registry.get_add] at hid
    split at hid
    · rw [Transaction.effect?_ofOperations] at hid
      cases hid
    · exact h.effect_lt t i id hid
  read_find t i v hv := by
    dsimp only [Store.allocate] at hv ⊢
    rw [Registry.get_add] at hv ⊢
    by_cases hnew : t = s.registry.size
    · rw [if_pos hnew, Transaction.read?_ofOperations] at hv
      cases hv
    · rw [if_neg hnew] at hv ⊢
      exact h.read_find t i v hv

/-- The nodes after a node is stamped: the others, and this one with its new stamp. -/
theorem mem_chain_stampNode (h : s.WellFormed) {t : TxnRef} {i : Nat} {n m : Node κ υ}
    (hn : n ∈ s.chain) {after : Option υ} :
    m ∈ (s.stampNode t i n after).chain ↔ (m ∈ s.chain ∧ m.id ≠ n.id) ∨
      m = { n with stamp := ⟨t, i, n.stamp.baseline s.registry t, after⟩ } := by
  simp only [stampNode, modifyNode, List.mem_map]
  constructor
  · rintro ⟨a, ha, rfl⟩
    by_cases hid : a.id = n.id
    · obtain rfl := h.eq_of_id ha hn hid
      exact Or.inr (by simp)
    · rw [if_neg hid]
      exact Or.inl ⟨ha, hid⟩
  · rintro (⟨hm, hne⟩ | rfl)
    · exact ⟨m, hm, if_neg hne⟩
    · exact ⟨n, hn, by simp⟩

/-- The node that was stamped. -/
theorem mem_stampNode (h : s.WellFormed) {n : Node κ υ} (hn : n ∈ s.chain) (t : TxnRef) (i : Nat)
    (after : Option υ) : { n with stamp := ⟨t, i, n.stamp.baseline s.registry t, after⟩ } ∈
      (s.stampNode t i n after).chain :=
  (h.mem_chain_stampNode hn).mpr (Or.inr rfl)

/-- Stamping a node of the chain keeps a store well-formed. -/
theorem stampNode (h : s.WellFormed) {t : TxnRef} {i : Nat} {op : Operation κ υ}
    (hop : (s.registry.get t).op? i = some op) {n : Node κ υ} (hn : n ∈ s.chain)
    (hkey : n.key = op.key) (after : Option υ) : (s.stampNode t i n after).WellFormed where
  ascending := by
    rw [Store.stampNode, modifyNode, List.pairwise_map]
    refine h.ascending.imp fun {a b} hab => ?_
    split <;> split <;> exact hab
  unmarked m hm := by
    rcases (h.mem_chain_stampNode hn).mp hm with ⟨hm, -⟩ | rfl
    · exact h.unmarked m hm
    · exact h.unmarked n hn
  retired := h.retired
  named := by
    have hids : (s.stampNode t i n after).chain.map Node.id = s.chain.map Node.id := by
      rw [Store.stampNode, modifyNode, List.map_map]
      refine List.map_congr_left fun m hm => ?_
      dsimp only [Function.comp_apply]
      split <;> rfl
    rw [List.map_append, hids, ← List.map_append]
    exact h.named
  id_lt m hm := by
    rcases List.mem_append.mp hm with hm | hm
    · rcases (h.mem_chain_stampNode hn).mp hm with ⟨hm, -⟩ | rfl
      · exact h.id_lt m (List.mem_append_left _ hm)
      · exact h.id_lt n (List.mem_append_left _ hn)
    · exact h.id_lt m (List.mem_append_right _ hm)
  stamped m hm := by
    rcases (h.mem_chain_stampNode hn).mp hm with ⟨hm, -⟩ | rfl
    · exact h.stamped m hm
    · exact ⟨op, hop, hkey.symm⟩
  numbered := h.numbered
  effect_lt := h.effect_lt
  read_find := h.read_find

omit [LT κ] in
/-- The nodes after a new one is linked: those before, and the new one. -/
theorem mem_chain_linkNode {c : Cursor (Node κ υ)} (hc : c.chain = s.chain) {t : TxnRef}
    {i : Nat} {k : κ} {after : Option υ} {m : Node κ υ} :
    m ∈ (s.linkNode t i k after c).chain ↔
      m ∈ s.chain ∨ m = { id := s.nextNode, key := k, stamp := ⟨t, i, none, after⟩ } := by
  rw [← hc]
  simp only [linkNode, Cursor.chain, List.mem_append, List.mem_cons]
  tauto

omit [LT κ] in
/-- The node that was linked. -/
theorem mem_linkNode {c : Cursor (Node κ υ)} (hc : c.chain = s.chain) (t : TxnRef) (i : Nat) (k : κ)
    (after : Option υ) : { id := s.nextNode, key := k, stamp := ⟨t, i, none, after⟩ } ∈
      (s.linkNode t i k after c).chain :=
  (mem_chain_linkNode hc).mpr (Or.inr rfl)

/-- Linking a node where there is room for its key keeps a store well-formed. -/
theorem linkNode (h : s.WellFormed) {c : Cursor (Node κ υ)} (hc : c.chain = s.chain)
    {t : TxnRef} {i : Nat} {op : Operation κ υ} (hop : (s.registry.get t).op? i = some op)
    (hroom : ∀ n : Node κ υ, n.key = op.key →
      (c.before ++ n :: c.rest).Pairwise fun a b => a.key < b.key) (after : Option υ) :
    (s.linkNode t i op.key after c).WellFormed where
  ascending := hroom _ rfl
  unmarked m hm := by
    rcases (mem_chain_linkNode hc).mp hm with hm | rfl
    · exact h.unmarked m hm
    · exact ⟨rfl, rfl⟩
  retired := h.retired
  named := by
    let new : Node κ υ := { id := s.nextNode, key := op.key, stamp := ⟨t, i, none, after⟩ }
    have hperm : ((c.before ++ new :: c.rest) ++ s.unlinked).Perm
        (new :: (s.chain ++ s.unlinked)) := by
      rw [← hc, Cursor.chain]
      exact (List.perm_middle).append_right s.unlinked
    refine (hperm.map Node.id).nodup_iff.mpr (List.nodup_cons.mpr ⟨?_, h.named⟩)
    intro hmem
    obtain ⟨m, hm, hid⟩ := List.mem_map.mp hmem
    exact absurd (h.id_lt m hm) (by rw [hid]; exact Nat.lt_irrefl _)
  id_lt m hm := by
    rcases List.mem_append.mp hm with hm | hm
    · rcases (mem_chain_linkNode hc).mp hm with hm | rfl
      · exact Nat.lt_succ_of_lt (h.id_lt m (List.mem_append_left _ hm))
      · exact Nat.lt_succ_self _
    · exact Nat.lt_succ_of_lt (h.id_lt m (List.mem_append_right _ hm))
  stamped m hm := by
    rcases (mem_chain_linkNode hc).mp hm with hm | rfl
    · exact h.stamped m hm
    · exact ⟨op, hop, rfl⟩
  numbered := h.numbered
  effect_lt t i id hid := Nat.lt_succ_of_lt (h.effect_lt t i id hid)
  read_find := h.read_find

end Nodes

/-! ### Searching and sweeping -/

section Order

variable [LinearOrder κ] {s : Store κ υ}

/-- Nodes of the chain are told apart by their keys. -/
theorem eq_of_key (h : s.WellFormed) {n m : Node κ υ} (hn : n ∈ s.chain) (hm : m ∈ s.chain)
    (hkey : n.key = m.key) : n = m := by
  have hids : (s.chain.map Node.key).Nodup :=
    List.pairwise_map.mpr (h.ascending.imp fun hab => ne_of_lt hab)
  exact List.inj_on_of_nodup_map hids hn hm hkey

end Order

end WellFormed

variable [LinearOrder κ]

/-- The store after a search for `k`: the stale nodes of this key are dropped. -/
def searched (s : Store κ υ) (k : κ) : Store κ υ :=
  s.drop fun n => decide (n.key = k) && s.isStale n

/-- The node that a search finds is not stale. -/
theorem not_isStale_of_mem_searched {s : Store κ υ} {k : κ} {n : Node κ υ}
    (hn : n ∈ (s.searched k).chain) (hkey : n.key = k) : (s.searched k).isStale n = false := by
  have hnot := (mem_chain_drop.mp hn).2
  simp only [hkey, decide_true, Bool.true_and] at hnot
  exact hnot

/-- Whether a sweep for `t` over the nodes named in `ids` takes the node out. -/
def sweepable (s : Store κ υ) (t : TxnRef) (ids : List NodeId) (n : Node κ υ) : Bool :=
  decide (n.id ∈ ids) && (n.stamp.isOwnedBy t && (s.resolve none n).isNone)

namespace WellFormed

variable {s : Store κ υ}

/-- On the chain of a well-formed store, a search takes out the stale nodes of its key. -/
theorem isLeaving_eq (h : s.WellFormed) {n : Node κ υ} (hn : n ∈ s.chain) (k : κ) :
    s.isLeaving k n = (decide (n.key = k) && s.isStale n) := by
  simp [isLeaving, h.unmarked n hn]

/-- A search for a key unlinks only nodes of that key. -/
theorem key_of_isLeaving (h : s.WellFormed) (k : κ) :
    ∀ n ∈ s.chain, s.isLeaving k n → n.key = k := by
  intro n hn hleaving
  rw [h.isLeaving_eq hn, Bool.and_eq_true, decide_eq_true_eq] at hleaving
  exact hleaving.1

/-- The chain that a search walks is the one it leaves. -/
theorem chain_seek (h : s.WellFormed) (k : κ) :
    (s.seek k).chain = (s.searched k).chain := by
  show (locate Node.key (s.isLeaving k) k s.chain).chain = _
  rw [chain_locate h.ascending (h.key_of_isLeaving k)]
  exact List.filter_congr fun n hn => by rw [h.isLeaving_eq hn]

/-- **A search drops the stale nodes of its key**, and nothing else. -/
theorem afterSearch_seek (h : s.WellFormed) (k : κ) :
    s.afterSearch (s.seek k) = s.searched k := by
  have hunlinked : (s.seek k).unlinked =
      (s.chain.filter fun n => decide (n.key = k) && s.isStale n).map Node.retire := by
    show (locate Node.key (s.isLeaving k) k s.chain).unlinked.map _ = _
    rw [unlinked_locate h.ascending (h.key_of_isLeaving k),
      List.filter_congr fun n hn => h.isLeaving_eq hn k]
    refine List.map_congr_left fun n hn => ?_
    rw [(h.unmarked n (List.mem_filter.mp hn).1).1]
    rfl
  rw [afterSearch, h.chain_seek, hunlinked]
  rfl

/-- A search hits exactly the node of its key that stays. -/
theorem hit?_seek_eq_some_iff (h : s.WellFormed) {k : κ} {n : Node κ υ} :
    (s.seek k).hit? Node.key k = some n ↔ n ∈ (s.searched k).chain ∧ n.key = k := by
  rw [← h.chain_seek]
  exact hit?_locate_eq_some_iff h.ascending

/-- A search finds no node exactly if none of its key is left. -/
theorem hit?_seek_eq_none_iff (h : s.WellFormed) {k : κ} :
    (s.seek k).hit? Node.key k = none ↔ ∀ n ∈ (s.searched k).chain, n.key ≠ k := by
  rw [← h.chain_seek]
  exact hit?_locate_eq_none_iff h.ascending

/-- A search that only minds marked links changes nothing. -/
theorem afterSearch_locate (h : s.WellFormed) (k : κ) :
    s.afterSearch (locate Node.key Node.linkMarked k s.chain) = s ∧
      (locate Node.key Node.linkMarked k s.chain).chain = s.chain := by
  have hlocate : (locate Node.key Node.linkMarked k s.chain).chain = s.chain ∧
      (locate Node.key Node.linkMarked k s.chain).unlinked = [] :=
    locate_of_not_marked h.ascending fun n hn => (h.unmarked n hn).1
  obtain ⟨hchain, hunlinked⟩ := hlocate
  refine ⟨?_, hchain⟩
  rw [afterSearch, hchain, hunlinked, List.nil_append]

/-- Retiring one node and searching for its key drops it. -/
theorem unlink_retire (h : s.WellFormed) {n : Node κ υ} (hn : n ∈ s.chain) :
    (s.modifyNode n.id Node.retire).unlink n.key = s.drop fun m => decide (m.id = n.id) := by
  let g : Node κ υ → Node κ υ := fun m => if m.id = n.id then m.retire else m
  have hg : ∀ m, (g m).key = m.key ∧ (g m).linkMarked = (decide (m.id = n.id) || m.linkMarked) := by
    intro m
    by_cases hid : m.id = n.id <;> simp [g, hid, Node.retire]
  have hmark : ∀ m ∈ s.chain, (g m).linkMarked = decide (m.id = n.id) := fun m hm => by
    rw [(hg m).2, (h.unmarked m hm).1, Bool.or_false]
  have hasc : Ascending Node.key (s.chain.map g) :=
    List.pairwise_map.mpr (h.ascending.imp fun {a b} hab => by rw [(hg a).1, (hg b).1]; exact hab)
  have hkey : ∀ m ∈ s.chain.map g, m.linkMarked → m.key = n.key := by
    intro m hm hmarked
    obtain ⟨a, ha, rfl⟩ := List.mem_map.mp hm
    rw [hmark a ha, decide_eq_true_eq] at hmarked
    rw [(hg a).1, h.eq_of_id ha hn hmarked]
  have hkept : (s.chain.map g).filter (fun m => !m.linkMarked) =
      s.chain.filter fun m => !decide (m.id = n.id) := by
    rw [List.filter_map, List.filter_congr (q := fun m => !decide (m.id = n.id))
      fun m hm => by rw [Function.comp_apply, hmark m hm]]
    refine (List.map_congr_left fun m hm => ?_).trans (List.map_id _)
    have hne : m.id ≠ n.id := by simpa using (List.mem_filter.mp hm).2
    simp [g, hne]
  have hgone : (s.chain.map g).filter Node.linkMarked =
      (s.chain.filter fun m => decide (m.id = n.id)).map Node.retire := by
    rw [List.filter_map, List.filter_congr (q := fun m => decide (m.id = n.id))
      fun m hm => by rw [Function.comp_apply, hmark m hm]]
    refine List.map_congr_left fun m hm => ?_
    have heq : m.id = n.id := by simpa using (List.mem_filter.mp hm).2
    simp [g, heq]
  show ({ s with
    chain := (locate Node.key Node.linkMarked n.key (s.chain.map g)).chain
    unlinked := (locate Node.key Node.linkMarked n.key (s.chain.map g)).unlinked ++
      s.unlinked } : Store κ υ) = _
  rw [chain_locate hasc hkey, unlinked_locate hasc hkey, hkept, hgone]
  rfl

/-- A node of the chain is found by its name. -/
theorem node?_of_mem (h : s.WellFormed) {n : Node κ υ} (hn : n ∈ s.chain) :
    s.node? n.id = some n := by
  have hmem : n ∈ s.chain ++ s.unlinked := List.mem_append_left _ hn
  cases hfind : s.node? n.id with
  | none =>
      have := List.find?_eq_none.mp hfind n hmem
      simp at this
  | some m =>
      have hid : m.id = n.id := by simpa using List.find?_some hfind
      rw [List.inj_on_of_nodup_map h.named (List.mem_of_find?_eq_some hfind) hmem hid]

/-- **Sweeping a node drops it** if it is the transaction's and holds nothing; otherwise nothing
happens. -/
theorem sweepNode_eq (h : s.WellFormed) (t : TxnRef) (id : NodeId) :
    sweepNode t s id = s.drop (s.sweepable t [id]) := by
  by_cases hid : ∃ n ∈ s.chain, n.id = id
  · obtain ⟨n, hn, rfl⟩ := hid
    rw [sweepNode, h.node?_of_mem hn]
    simp only [(h.unmarked n hn).2, Bool.false_or]
    by_cases hkeep : (!n.stamp.isOwnedBy t || (s.resolve none n).isSome) = true
    · rw [if_pos hkeep, drop_eq_self]
      intro m hm
      by_cases hmid : m.id = n.id
      · obtain rfl := h.eq_of_id hm hn hmid
        cases howned : m.stamp.isOwnedBy t <;> simp_all [sweepable]
      · simp [sweepable, hmid]
    · rw [if_neg hkeep, h.unlink_retire hn]
      refine drop_congr fun m hm => ?_
      by_cases hmid : m.id = n.id
      · obtain rfl := h.eq_of_id hm hn hmid
        cases howned : m.stamp.isOwnedBy t <;> simp_all [sweepable]
      · simp [sweepable, hmid]
  · rw [drop_eq_self fun n hn => by
      have hne : n.id ≠ id := fun heq => hid ⟨n, hn, heq⟩
      simp [sweepable, hne]]
    rw [sweepNode]
    cases hfind : s.node? id with
    | none => rfl
    | some m =>
        have hmid : m.id = id := by simpa using List.find?_some hfind
        rcases List.mem_append.mp (List.mem_of_find?_eq_some hfind) with hm | hm
        · exact absurd ⟨m, hm, hmid⟩ hid
        · simp [(h.retired m hm).2]

end WellFormed

end Store

end AtomicSet
