import AtomicSet.Proofs.Helping.Ownership
import AtomicSet.Proofs.Replay

/-!
# Coherent stores

The effects of an active transaction are spread over the nodes it stamped and over its slots. In a
coherent store they fit together: each of its nodes holds the content of the key before the
transaction and what the transaction's operations up to the stamp make of it, and its slots hold
what these operations read and did. Operations are performed in order, so whoever finds a stamp
knows that everything before it has been performed and published.

A store stays coherent as long as no operation is attempted, and no node linked, before all earlier
operations of the transaction were performed and published, and no transaction is committed before
all of its operations were (`Store.Admissible`).

## Main definitions

* `Store.Performed`, `Store.Published`, `Store.Completed` — when an operation is done.
* `Store.Reached` — how far a transaction got.
* `Store.Faithful` — a node of an active transaction fits its operations.
* `Store.Coherent` — the invariant.
* `Store.Admissible` — the events that keep it.

## Main results

* `Store.Coherent.replay_of_reached` — what an active transaction sees on a node is the replay of
  its operations so far.
* `Store.Coherent.act` — admissible events keep a store coherent.
-/

namespace AtomicSet

open Operation

variable {κ υ : Type}

namespace Store

/-! ### How far a transaction got -/

/-- A node of the operation's key carries the stamp of the operation `op` of `t` at position `i`, or
of a later one of `t`. -/
def Performed (s : Store κ υ) (t : TxnRef) (i : Nat) (op : Operation κ υ) : Prop :=
  ∃ n ∈ s.chain, n.key = op.key ∧ n.stamp.owner = t ∧ i ≤ n.stamp.index

/-- The node of an insertion, the value of a lookup, is in the slot of position `i`. -/
def Published (s : Store κ υ) (t : TxnRef) (i : Nat) (op : Operation κ υ) : Prop :=
  (op.kind = .insert → ∃ id, (s.registry.get t).effect? i = some id) ∧
    (op.isFind → ∃ v, (s.registry.get t).read? i = some v)

/-- What was published is on record. -/
theorem published_publish {s : Store κ υ} {t : TxnRef} {i : Nat} {op : Operation κ υ}
    (hop : (s.registry.get t).op? i = some op) (id : NodeId) {after : Option υ}
    (hafter : op.isFind → after.isSome) : (s.publish t i op id after).Published t i op := by
  refine ⟨fun hinsert => ?_, fun hfind => ?_⟩
  · rw [effect?_publish hop, if_pos ⟨rfl, rfl, hinsert⟩]
    cases (s.registry.get t).effect? i with
    | none => exact ⟨id, rfl⟩
    | some id' => exact ⟨id', rfl⟩
  · obtain ⟨v, rfl⟩ := Option.isSome_iff_exists.mp (hafter hfind)
    rw [read?_publish hop, if_pos ⟨rfl, rfl, hfind⟩]
    cases (s.registry.get t).read? i with
    | none => exact ⟨v, rfl⟩
    | some v' => exact ⟨v', rfl⟩

/-- The operation has been performed and published. -/
def Completed (s : Store κ υ) (t : TxnRef) (i : Nat) (op : Operation κ υ) : Prop :=
  s.Performed t i op ∧ s.Published t i op

/-- All operations of `t` before position `i` have been performed and published. -/
def Reached (s : Store κ υ) (t : TxnRef) (i : Nat) : Prop :=
  s.Behind Completed t i

/-- What was reached has been performed. -/
theorem Reached.performed {s : Store κ υ} {t : TxnRef} {i : Nat} (h : s.Reached t i) :
    ∀ l < i, ∀ op, (s.registry.get t).op? l = some op → s.Performed t l op :=
  fun l hl op hop => (h l hl op hop).1

/-- Nodes of `t` stay, and so do operations and slots. -/
structure Keeps (s s' : Store κ υ) (t : TxnRef) : Prop where
  nodes : ∀ n ∈ s.chain, n.stamp.owner = t → ∃ n' ∈ s'.chain, n'.Follows n
  registry : s.registry.Extends s'.registry

namespace Keeps

variable {s s' : Store κ υ} {t : TxnRef} {i : Nat} {op : Operation κ υ}

/-- What was performed for a transaction is still so where its stamps are kept. -/
theorem performed (h : s.Keeps s' t) (hp : s.Performed t i op) : s'.Performed t i op := by
  obtain ⟨n, hn, hkey, hown, hle⟩ := hp
  obtain ⟨n', hn', hfollows⟩ := h.nodes n hn hown
  exact ⟨n', hn', hfollows.key_eq.trans hkey, hfollows.owner_eq.trans hown,
    Nat.le_trans hle hfollows.index_le⟩

/-- What is on record for a transaction is still so where its slots are kept. -/
theorem published (h : s.Keeps s' t) (hop : (s.registry.get t).op? i = some op)
    (hp : s.Published t i op) : s'.Published t i op := by
  have ht := Registry.lt_size_of_op? hop
  refine ⟨fun hinsert => ?_, fun hfind => ?_⟩
  · obtain ⟨id, hid⟩ := hp.1 hinsert
    exact ⟨id, h.registry.effect_eq t ht i id hid⟩
  · obtain ⟨v, hv⟩ := hp.2 hfind
    exact ⟨v, h.registry.read_eq t ht i v hv⟩

/-- Operations that were reached stay so. -/
theorem reached (h : s.Keeps s' t) (ht : t < s.registry.size) (hr : s.Reached t i) :
    s'.Reached t i := by
  intro j hj op hop
  rw [Transaction.op?_congr (h.registry.ops_eq t ht)] at hop
  obtain ⟨hperformed, hpublished⟩ := hr j hj op hop
  exact ⟨h.performed hperformed, h.published hop hpublished⟩

end Keeps

variable [LinearOrder κ]

/-- Events keep what belongs to a transaction that is active after them. -/
theorem WellFormed.keeps_actAll {s : Store κ υ} (h : s.WellFormed) (es : List (Event κ υ))
    {t : TxnRef} (hactive : (s.actAll es).registry.isActive t) : s.Keeps (s.actAll es) t where
  nodes _ hn hown := h.owned_actAll hn es (hown ▸ hactive)
  registry := h.extends_actAll es

/-! ### The invariant -/

/-- The node `n` of an active transaction fits the transaction's operations. -/
structure Faithful (s : Store κ υ) (n : Node κ υ) : Prop where
  /-- Everything before the stamp has been performed and published. -/
  reached : s.Reached n.stamp.owner n.stamp.index
  /-- The stamp holds what the operations make of the content before them. -/
  replays : replay n.key ((s.registry.get n.stamp.owner).ops.take (n.stamp.index + 1))
    n.stamp.before = some n.stamp.after
  /-- The insertions so far took effect on this node. -/
  effect_eq : ∀ i ≤ n.stamp.index, ∀ op id, (s.registry.get n.stamp.owner).op? i = some op →
    op.key = n.key → (s.registry.get n.stamp.owner).effect? i = some id → id = n.id
  /-- The lookups so far read what the operations before them left. -/
  read_eq : ∀ i ≤ n.stamp.index, ∀ op v, (s.registry.get n.stamp.owner).op? i = some op →
    op.key = n.key → (s.registry.get n.stamp.owner).read? i = some v →
    replay n.key ((s.registry.get n.stamp.owner).ops.take (i + 1)) n.stamp.before = some (some v)

/-- What is stored for active transactions fits together, and committed ones are on record. -/
structure Coherent (s : Store κ υ) : Prop where
  wellFormed : s.WellFormed
  faithful : ∀ n ∈ s.chain, s.registry.isActive n.stamp.owner → s.Faithful n
  /-- What was not performed is not on record. -/
  blank : ∀ t i op, s.registry.isActive t → (s.registry.get t).op? i = some op →
    ¬s.Performed t i op → (s.registry.get t).effect? i = none ∧ (s.registry.get t).read? i = none
  /-- The insertions of committed transactions are on record. -/
  done : ∀ t i op, s.registry.status t = .committed → (s.registry.get t).op? i = some op →
    op.kind = .insert → ∃ id, (s.registry.get t).effect? i = some id

/-- A node stays faithful if its owner's slots stay as they are. -/
theorem Faithful.congr {s s' : Store κ υ} {n : Node κ υ} (h : s.Faithful n)
    (hget : s'.registry.get n.stamp.owner = s.registry.get n.stamp.owner)
    (hreached : s'.Reached n.stamp.owner n.stamp.index) : s'.Faithful n where
  reached := hreached
  replays := by
    rw [hget]
    exact h.replays
  effect_eq := by
    rw [hget]
    exact h.effect_eq
  read_eq := by
    rw [hget]
    exact h.read_eq

namespace Coherent

variable {s : Store κ υ}

/-- The empty store is coherent. -/
theorem fresh : ({} : Store κ υ).Coherent where
  wellFormed := .fresh
  faithful n hn := by cases hn
  blank t i op hactive := by
    rw [Registry.isActive_iff, Registry.get_of_size_le (Nat.zero_le t)] at hactive
    cases hactive
  done t i op _ hop := by
    rw [Registry.get_of_size_le (Nat.zero_le t)] at hop
    cases hop

/-! ### What a transaction sees -/

/-- The node of a performed operation is the one of its key. -/
theorem performed_iff (h : s.Coherent) {n : Node κ υ} (hn : n ∈ s.chain) {t : TxnRef} {i : Nat}
    {op : Operation κ υ} (hkey : op.key = n.key) :
    s.Performed t i op ↔ n.stamp.owner = t ∧ i ≤ n.stamp.index := by
  constructor
  · rintro ⟨m, hm, hmkey, hown, hle⟩
    obtain rfl := h.wellFormed.eq_of_key hm hn (hmkey.trans hkey)
    exact ⟨hown, hle⟩
  · rintro ⟨hown, hle⟩
    exact ⟨n, hn, hkey.symm, hown, hle⟩

/-- On a node of another transaction, there is nothing to replay. -/
theorem replay_of_not_owned (h : s.Coherent) {t : TxnRef} {i : Nat}
    (hperformed : ∀ l < i, ∀ op, (s.registry.get t).op? l = some op → s.Performed t l op)
    {n : Node κ υ} (hn : n ∈ s.chain) (hne : n.stamp.owner ≠ t) (held : Option υ) :
    replay n.key ((s.registry.get t).ops.take i) held = some held := by
  have hgap : ∀ l op, 0 ≤ l → l < i → (s.registry.get t).ops[l]? = some op → op.key ≠ n.key := by
    intro l op _ hl hop hkey
    rw [← Transaction.op?_eq] at hop
    exact hne ((h.performed_iff hn hkey).mp (hperformed l hl op hop)).1
  rw [replay_take_eq (Nat.zero_le i) hgap]
  rfl

/-- On a node of its own, the transaction's operations have been replayed up to the stamp. After it
there is nothing to replay: a later operation on the key would have stamped the node again. -/
theorem replay_of_owned (h : s.Coherent) {n : Node κ υ} (hn : n ∈ s.chain)
    (hactive : s.registry.isActive n.stamp.owner) {i : Nat} (hlt : n.stamp.index < i)
    (hperformed : ∀ l < i, ∀ op, (s.registry.get n.stamp.owner).op? l = some op →
      s.Performed n.stamp.owner l op) :
    replay n.key ((s.registry.get n.stamp.owner).ops.take i) n.stamp.before =
      some n.stamp.after := by
  have hgap : ∀ l op, n.stamp.index + 1 ≤ l → l < i →
      (s.registry.get n.stamp.owner).ops[l]? = some op → op.key ≠ n.key := by
    intro l op hle hl hop hkey
    rw [← Transaction.op?_eq] at hop
    have := ((h.performed_iff hn hkey).mp (hperformed l hl op hop)).2
    omega
  rw [replay_take_eq hlt hgap]
  exact (h.faithful n hn hactive).replays

/-- What is on record for an operation was performed. -/
theorem performed_of_recorded (h : s.Coherent) {t : TxnRef} {i : Nat} {op : Operation κ υ}
    (hactive : s.registry.isActive t) (hop : (s.registry.get t).op? i = some op)
    (hrecord : (∃ id, (s.registry.get t).effect? i = some id) ∨
      ∃ v, (s.registry.get t).read? i = some v) : s.Performed t i op := by
  by_contra hnot
  have hblank := h.blank t i op hactive hop hnot
  rcases hrecord with ⟨id, hid⟩ | ⟨v, hv⟩
  · rw [hblank.1] at hid
    cases hid
  · rw [hblank.2] at hv
    cases hv

/-- **What an active transaction sees** on a node that it may stamp is the replay of its operations
so far on what the node holds for everybody. -/
theorem replay_of_reached (h : s.Coherent) {t : TxnRef} {i : Nat} (hactive : s.registry.isActive t)
    (hreached : s.Reached t i) {n : Node κ υ} (hn : n ∈ s.chain) (hfree : s.Free t i n) :
    replay n.key ((s.registry.get t).ops.take i) (n.stamp.baseline s.registry t) =
      some (n.stamp.content s.registry (some t)) := by
  have hstatus := Registry.isActive_iff.mp hactive
  rcases hfree with ⟨rfl, hlt⟩ | ⟨hne, hdecided⟩
  · rw [Stamp.baseline, if_pos rfl, h.replay_of_owned hn hactive hlt hreached.performed]
    simp [Stamp.content, Registry.status, hstatus]
  · rw [h.replay_of_not_owned hreached.performed hn hne, Stamp.baseline, if_neg hne, Stamp.content,
      Stamp.content]
    cases hs : s.registry.status n.stamp.owner with
    | active =>
        rw [Registry.isActive, Transaction.isActive, decide_eq_false_iff_not] at hdecided
        exact absurd hs hdecided
    | committed => rfl
    | aborted => rfl

/-- A key without a node has been left alone. -/
theorem replay_of_absent {t : TxnRef} {i : Nat}
    (hperformed : ∀ l < i, ∀ op, (s.registry.get t).op? l = some op → s.Performed t l op) {k : κ}
    (habsent : ∀ n ∈ s.chain, n.key ≠ k) (held : Option υ) :
    replay k ((s.registry.get t).ops.take i) held = some held := by
  have hgap : ∀ l op, 0 ≤ l → l < i → (s.registry.get t).ops[l]? = some op → op.key ≠ k := by
    intro l op _ hl hop hkey
    rw [← Transaction.op?_eq] at hop
    obtain ⟨n, hn, hnkey, -, -⟩ := hperformed l hl op hop
    exact habsent n hn (hnkey.trans hkey)
  rw [replay_take_eq (Nat.zero_le i) hgap]
  rfl

/-! ### What keeps a store coherent -/

/-- Dropping nodes of decided transactions keeps a store coherent. -/
theorem drop (h : s.Coherent) {p : Node κ υ → Bool}
    (hp : ∀ n ∈ s.chain, p n → s.registry.isActive n.stamp.owner = false) :
    (s.drop p).Coherent := by
  have hkeeps : ∀ t, s.registry.isActive t → s.Keeps (s.drop p) t := fun t hactive =>
    { nodes := fun n hn hown => by
        refine ⟨n, mem_chain_drop.mpr ⟨hn, ?_⟩, .refl n⟩
        rw [← Bool.not_eq_true]
        intro hpn
        rw [← hown, hp n hn hpn] at hactive
        cases hactive
      registry := .refl _ }
  refine ⟨h.wellFormed.drop p, fun n hn hactive => ?_, fun t i op hactive hop hnot => ?_, h.done⟩
  · have hmem := (mem_chain_drop.mp hn).1
    have hfaithful := h.faithful n hmem hactive
    exact hfaithful.congr rfl
      ((hkeeps _ hactive).reached (h.wellFormed.owner_lt hmem) hfaithful.reached)
  · exact h.blank t i op hactive hop fun hp => hnot ((hkeeps t hactive).performed hp)

/-- A coherent store stays so when a key is searched. -/
theorem searched (h : s.Coherent) (k : κ) : (s.searched k).Coherent := by
  refine h.drop fun n _ hn => ?_
  rw [Bool.and_eq_true] at hn
  rw [← Bool.not_eq_true]
  intro hactive
  rw [isStale_of_isActive hactive] at hn
  cases hn.2

/-- Publishing what was performed keeps nodes faithful. -/
theorem faithful_publish (h : s.Coherent) {t : TxnRef} {i : Nat} {op : Operation κ υ}
    (hop : (s.registry.get t).op? i = some op) {n : Node κ υ} (hn : n ∈ s.chain)
    (hkey : n.key = op.key) {after : Option υ}
    (hafter : op.isFind → i = n.stamp.index ∧ after = n.stamp.after) {m : Node κ υ}
    (hm : m ∈ s.chain) (hfaithful : s.Faithful m) : (s.publish t i op n.id after).Faithful m := by
  have hslots := s.slotsOnly_publish t i op n.id after
  have hkeeps : s.Keeps (s.publish t i op n.id after) m.stamp.owner :=
    { nodes := fun m hm _ => ⟨m, by simpa using hm, .refl m⟩
      registry := WellFormed.extends_publish hop n.id after }
  -- An operation of `t` at position `i` on the key of another node is not there.
  have hsame : ∀ j op', m.stamp.owner = t ∧ j = i →
      (s.registry.get m.stamp.owner).op? j = some op' → op'.key = m.key → m = n := by
    rintro j op' ⟨rfl, rfl⟩ hop' hkey'
    rw [hop] at hop'
    obtain rfl := Option.some.inj hop'
    exact h.wellFormed.eq_of_key hm hn (hkey'.symm.trans hkey.symm)
  refine ⟨hkeeps.reached (h.wellFormed.owner_lt hm) hfaithful.reached, ?_,
    fun j hj op' id hop' hkey' hid => ?_, fun j hj op' v hop' hkey' hv => ?_⟩
  · rw [hslots.ops_eq]
    exact hfaithful.replays
  · rw [Transaction.op?_congr (hslots.ops_eq _)] at hop'
    rw [effect?_publish hop] at hid
    by_cases hcase : m.stamp.owner = t ∧ j = i ∧ op.kind = .insert
    · rw [if_pos hcase] at hid
      rcases Option.or_eq_some_iff.mp hid with hold | ⟨-, hnew⟩
      · exact hfaithful.effect_eq j hj op' id hop' hkey' hold
      · rw [hsame j op' ⟨hcase.1, hcase.2.1⟩ hop' hkey']
        exact (Option.some.inj hnew).symm
    · rw [if_neg hcase] at hid
      exact hfaithful.effect_eq j hj op' id hop' hkey' hid
  · rw [Transaction.op?_congr (hslots.ops_eq _)] at hop'
    rw [hslots.ops_eq]
    rw [read?_publish hop] at hv
    by_cases hcase : m.stamp.owner = t ∧ j = i ∧ op.isFind
    · rw [if_pos hcase] at hv
      rcases Option.or_eq_some_iff.mp hv with hold | ⟨-, hnew⟩
      · exact hfaithful.read_eq j hj op' v hop' hkey' hold
      · obtain rfl := hsame j op' ⟨hcase.1, hcase.2.1⟩ hop' hkey'
        obtain ⟨hindex, hstamp⟩ := hafter hcase.2.2
        rw [hcase.2.1, hindex, ← hnew, hstamp]
        exact hfaithful.replays
    · rw [if_neg hcase] at hv
      exact hfaithful.read_eq j hj op' v hop' hkey' hv

/-- Publishing what was performed keeps a store coherent. -/
theorem publish (h : s.Coherent) {t : TxnRef} {i : Nat} {op : Operation κ υ}
    (hop : (s.registry.get t).op? i = some op) {n : Node κ υ} (hn : n ∈ s.chain)
    (hkey : n.key = op.key) (hown : n.stamp.owner = t) (hle : i ≤ n.stamp.index)
    {after : Option υ} (hafter : op.isFind → i = n.stamp.index ∧ after = n.stamp.after) :
    (s.publish t i op n.id after).Coherent := by
  have hslots := s.slotsOnly_publish t i op n.id after
  have hext := WellFormed.extends_publish hop n.id after
  have hkeeps : ∀ u, s.Keeps (s.publish t i op n.id after) u := fun u =>
    { nodes := fun m hm _ => ⟨m, by simpa using hm, .refl m⟩, registry := hext }
  have hops : ∀ u j, ((s.publish t i op n.id after).registry.get u).op? j =
      (s.registry.get u).op? j := fun u j => Transaction.op?_congr (hslots.ops_eq u) j
  refine ⟨h.wellFormed.publish hop (h.wellFormed.id_lt n (List.mem_append_left _ hn)) after,
    fun m hm hactive => ?_, fun u j op' hactive hop' hnot => ?_,
    fun u j op' hcommitted hop' hk => ?_⟩
  · rw [chain_publish] at hm
    rw [hslots.isActive_eq] at hactive
    exact h.faithful_publish hop hn hkey hafter hm (h.faithful m hm hactive)
  · rw [hslots.isActive_eq] at hactive
    rw [hops] at hop'
    have hnot' : ¬s.Performed u j op' := fun hperformed => hnot ((hkeeps u).performed hperformed)
    have hne : ¬(u = t ∧ j = i) := by
      rintro ⟨rfl, rfl⟩
      rw [hop] at hop'
      obtain rfl := Option.some.inj hop'
      exact hnot' ⟨n, hn, hkey, hown, hle⟩
    rw [effect?_publish hop, read?_publish hop, if_neg fun hcase => hne ⟨hcase.1, hcase.2.1⟩,
      if_neg fun hcase => hne ⟨hcase.1, hcase.2.1⟩]
    exact h.blank u j op' hactive hop' hnot'
  · rw [Registry.status, hslots.status_eq] at hcommitted
    rw [hops] at hop'
    obtain ⟨id, hid⟩ := h.done u j op' hcommitted hop' hk
    exact ⟨id, hext.effect_eq u (Registry.lt_size_of_op? hop') j id hid⟩

/-- Putting the insertion of a stamp on record keeps a store coherent. -/
theorem noteEffect (h : s.Coherent) {n : Node κ υ} (hn : n ∈ s.chain) :
    (s.noteEffect n.stamp.owner n.stamp.index n.id).Coherent := by
  obtain ⟨op, hop, hkey⟩ := h.wellFormed.stamped n hn
  cases op with
  | find k =>
      rw [Store.noteEffect, Transaction.kind?, hop]
      exact h
  | insert k v =>
      show (s.publish n.stamp.owner n.stamp.index (.insert k v) n.id none).Coherent
      exact h.publish hop hn hkey.symm rfl (Nat.le_refl _) fun hfind => by cases hfind
  | delete k =>
      rw [Store.noteEffect, Transaction.kind?, hop]
      exact h

/-- **Stamping a node** for the next operation of an active transaction keeps a store coherent. -/
theorem stampNode (h : s.Coherent) {t : TxnRef} {i : Nat} {op : Operation κ υ}
    (hop : (s.registry.get t).op? i = some op) (hactive : s.registry.isActive t)
    (hreached : s.Reached t i) {n : Node κ υ} (hn : n ∈ s.chain) (hkey : n.key = op.key)
    (hfree : s.Free t i n) {after : Option υ}
    (hafter : op.after? (n.stamp.content s.registry (some t)) = some after) :
    (s.stampNode t i n after).Coherent := by
  have hmem : ∀ m, m ∈ (s.stampNode t i n after).chain ↔ (m ∈ s.chain ∧ m.id ≠ n.id) ∨
      m = { n with stamp := ⟨t, i, n.stamp.baseline s.registry t, after⟩ } :=
    fun m => h.wellFormed.mem_chain_stampNode hn
  have hkeeps : ∀ u, s.registry.isActive u → s.Keeps (s.stampNode t i n after) u := by
    refine fun u hu => ⟨fun m hm hown => ?_, .refl _⟩
    by_cases hid : m.id = n.id
    · obtain rfl := h.wellFormed.eq_of_id hm hn hid
      rcases hfree with ⟨hmt, hlt⟩ | ⟨-, hdecided⟩
      · exact ⟨_, (hmem _).mpr (Or.inr rfl), rfl, rfl, hmt.symm, Nat.le_of_lt hlt⟩
      · rw [hown, hu] at hdecided
        cases hdecided
    · exact ⟨m, (hmem _).mpr (Or.inl ⟨hm, hid⟩), .refl m⟩
  refine ⟨h.wellFormed.stampNode hop hn hkey after, fun m hm hm' => ?_,
    fun u j op' hu hop' hnot => h.blank u j op' hu hop' fun hp => hnot ((hkeeps u hu).performed hp),
    h.done⟩
  rcases (hmem m).mp hm with ⟨hm, -⟩ | rfl
  · have hfaithful := h.faithful m hm hm'
    exact hfaithful.congr rfl ((hkeeps _ hm').reached (h.wellFormed.owner_lt hm) hfaithful.reached)
  · refine ⟨(hkeeps t hactive).reached (Registry.lt_size_of_op? hop) hreached, ?_,
      fun j _ op' id hop' hkey' hid => ?_, fun j _ op' v hop' hkey' hv => ?_⟩
    · show replay n.key ((s.registry.get t).ops.take (i + 1)) (n.stamp.baseline s.registry t) =
        some after
      rw [Transaction.op?_eq] at hop
      rw [replay_take_succ hop, h.replay_of_reached hactive hreached hn hfree, Option.bind_some,
        if_pos hkey.symm, hafter]
    · have hperformed := h.performed_of_recorded hactive hop' (Or.inl ⟨id, hid⟩)
      obtain ⟨rfl, hle⟩ := (h.performed_iff hn hkey').mp hperformed
      exact (h.faithful n hn hactive).effect_eq j hle op' id hop' hkey' hid
    · have hperformed := h.performed_of_recorded hactive hop' (Or.inr ⟨v, hv⟩)
      obtain ⟨rfl, hle⟩ := (h.performed_iff hn hkey').mp hperformed
      show replay n.key _ (n.stamp.baseline s.registry n.stamp.owner) = _
      rw [Stamp.baseline, if_pos rfl]
      exact (h.faithful n hn hactive).read_eq j hle op' v hop' hkey' hv

/-- **Linking a node** for the next operation of a transaction keeps a store coherent. -/
theorem linkNode (h : s.Coherent) {c : Cursor (Node κ υ)} {t : TxnRef} {i : Nat}
    {op : Operation κ υ} (hplace : s.Linking op.key c)
    (hop : (s.registry.get t).op? i = some op)
    (hreached : s.registry.isActive t → s.Reached t i) {after : Option υ}
    (hafter : op.after? none = some after) : (s.linkNode t i op.key after c).Coherent := by
  have hkeeps : ∀ u, s.Keeps (s.linkNode t i op.key after c) u := fun u =>
    { nodes := fun m hm _ =>
        ⟨m, (WellFormed.mem_chain_linkNode hplace.chain).mpr (Or.inl hm), .refl m⟩
      registry := .refl _ }
  -- No operation on a key without a node has been performed.
  have hnot : ∀ j op', op'.key = op.key → ¬s.Performed t j op' := by
    rintro j op' hkey' ⟨m, hm, hmkey, -, -⟩
    exact hplace.absent m hm (hmkey.trans hkey')
  refine ⟨h.wellFormed.linkNode hplace.chain hop hplace.room after, fun m hm hactive => ?_,
    fun u j op' hu hop' hnot => h.blank u j op' hu hop' fun hp => hnot ((hkeeps u).performed hp),
    h.done⟩
  rcases (WellFormed.mem_chain_linkNode hplace.chain).mp hm with hm | rfl
  · have hfaithful := h.faithful m hm hactive
    exact hfaithful.congr rfl ((hkeeps _).reached (h.wellFormed.owner_lt hm) hfaithful.reached)
  · refine ⟨(hkeeps t).reached (Registry.lt_size_of_op? hop) (hreached hactive), ?_,
      fun j _ op' id hop' hkey' hid => ?_, fun j _ op' v hop' hkey' hv => ?_⟩
    · show replay op.key ((s.registry.get t).ops.take (i + 1)) none = some after
      rw [Transaction.op?_eq] at hop
      rw [replay_take_succ hop, replay_of_absent (hreached hactive).performed hplace.absent,
        Option.bind_some, if_pos rfl, hafter]
    · exact absurd (h.performed_of_recorded hactive hop' (Or.inl ⟨id, hid⟩)) (hnot j op' hkey')
    · exact absurd (h.performed_of_recorded hactive hop' (Or.inr ⟨v, hv⟩)) (hnot j op' hkey')

/-- **Deciding a transaction** keeps a store coherent: aborting it at any time, committing it once
all of its operations have been performed and published. -/
theorem settle (h : s.Coherent) {t : TxnRef} {final : Status} (fake : Bool)
    (hfinal : final ≠ .active)
    (hreached : final = .committed → s.registry.isActive t →
      s.Reached t (s.registry.get t).size) : (s.settle t final fake).Coherent := by
  have hext := h.wellFormed.extends_act (.settle t final fake)
  have hkeeps : ∀ u, s.Keeps (s.settle t final fake) u := fun u =>
    { nodes := fun m hm _ => ⟨m, by simpa using hm, .refl m⟩, registry := hext }
  have hops : ∀ u j, ((s.settle t final fake).registry.get u).op? j = (s.registry.get u).op? j :=
    fun u j => Transaction.op?_congr (ops_settle ..) j
  refine ⟨h.wellFormed.settle t final fake, fun n hn hactive => ?_,
    fun u i op hactive hop hnot => ?_, fun u i op hcommitted hop hk => ?_⟩
  · rw [chain_settle] at hn
    rw [isActive_settle hfinal, Bool.and_eq_true, decide_eq_true_eq] at hactive
    have hfaithful := h.faithful n hn hactive.2
    refine hfaithful.congr ?_ ((hkeeps _).reached (h.wellFormed.owner_lt hn) hfaithful.reached)
    rw [get_settle, if_neg (Ne.symm hactive.1)]
  · rw [isActive_settle hfinal, Bool.and_eq_true] at hactive
    rw [hops] at hop
    rw [effect?_settle, read?_settle]
    exact h.blank u i op hactive.2 hop fun hp => hnot ((hkeeps u).performed hp)
  · rw [hops] at hop
    rw [Registry.status, status_settle] at hcommitted
    rw [effect?_settle]
    by_cases hcase : u = t ∧ s.registry.isActive t
    · rw [if_pos hcase] at hcommitted
      obtain ⟨rfl, hactive⟩ := hcase
      exact (hreached hcommitted hactive i (Transaction.lt_size_of_op? hop) op hop).2.1 hk
    · rw [if_neg hcase] at hcommitted
      exact h.done u i op hcommitted hop hk

/-- Registering a transaction keeps a store coherent. -/
theorem allocate (h : s.Coherent) (ops : List (Operation κ υ)) :
    (s.allocate ops).1.Coherent := by
  have hext := h.wellFormed.extends_act (.allocate ops)
  have hkeeps : ∀ u, s.Keeps (s.allocate ops).1 u := fun u =>
    { nodes := fun m hm _ => ⟨m, hm, .refl m⟩, registry := hext }
  have hget : ∀ u, (s.allocate ops).1.registry.get u =
      if u = s.registry.size then .ofOperations s.registry.size ops else s.registry.get u :=
    fun u => Registry.get_add ..
  refine ⟨h.wellFormed.allocate ops, fun n hn hactive => ?_, fun u i op hactive hop hnot => ?_,
    fun u i op hcommitted hop hk => ?_⟩
  · have hlt := h.wellFormed.owner_lt hn
    have hown : (s.allocate ops).1.registry.get n.stamp.owner = s.registry.get n.stamp.owner := by
      rw [hget, if_neg (Nat.ne_of_lt hlt)]
    rw [Registry.isActive, hown] at hactive
    have hfaithful := h.faithful n hn hactive
    exact hfaithful.congr hown ((hkeeps _).reached hlt hfaithful.reached)
  · rw [Registry.isActive, hget] at hactive
    rw [hget] at hop ⊢
    by_cases hnew : u = s.registry.size
    · rw [if_pos hnew, Transaction.effect?_ofOperations, Transaction.read?_ofOperations]
      exact ⟨rfl, rfl⟩
    · rw [if_neg hnew] at hactive hop ⊢
      exact h.blank u i op hactive hop fun hp => hnot ((hkeeps u).performed hp)
  · rw [Registry.status, hget] at hcommitted
    rw [hget] at hop ⊢
    by_cases hnew : u = s.registry.size
    · rw [if_pos hnew] at hcommitted
      cases hcommitted
    · rw [if_neg hnew] at hcommitted hop ⊢
      exact h.done u i op hcommitted hop hk

/-- Counting keeps a store coherent. -/
theorem withTally (h : s.Coherent) (tally : Tally) : Coherent { s with tally } where
  wellFormed := h.wellFormed.withTally tally
  faithful n hn hactive := (h.faithful n hn hactive).congr rfl (h.faithful n hn hactive).reached
  blank := h.blank
  done := h.done

/-- A coherent store stays so when the nodes of a frame are cleaned up. -/
theorem sweep (h : s.Coherent) (f : Frame) : (s.sweep f).Coherent := by
  refine (h.wellFormed.sweep_induction (P := fun s' => s'.Coherent) h
    fun s' _ hdecided hs' id => hs'.drop fun n _ hn => ?_)
  simp only [sweepable, Stamp.isOwnedBy, Bool.and_eq_true, decide_eq_true_eq] at hn
  rw [hn.2.1]
  exact hdecided

/-! ### Admissible events -/

/-- A search does not undo what a transaction has reached. -/
theorem reached_searched {t : TxnRef} {i : Nat} (hactive : s.registry.isActive t)
    (hreached : s.Reached t i) (k : κ) : (s.searched k).Reached t i := by
  have hkeeps : s.Keeps (s.searched k) t :=
    { nodes := fun n hn hown =>
        ⟨n, mem_searched_of_isActive hn (hown ▸ hactive) k, .refl n⟩
      registry := .refl _ }
  exact hkeeps.reached (Registry.lt_size_of_isActive hactive) hreached

end Coherent

/-- The events that keep a store coherent: those that respect what has been performed and
published. -/
def Admissible (s : Store κ υ) (e : Event κ υ) : Prop :=
  s.Admits Completed e

namespace Coherent

variable {s : Store κ υ}

/-- A coherent store stays so when an operation is attempted by a thread that has reached it. -/
theorem attempt (h : s.Coherent) {t : TxnRef} {i : Nat} {op : Operation κ υ}
    (hop : (s.registry.get t).op? i = some op)
    (hreached : s.registry.isActive t → s.Reached t i) : (s.attempt t i op).1.Coherent := by
  have hs := h.searched op.key
  have hreached : s.registry.isActive t → (s.searched op.key).Reached t i := fun hactive =>
    reached_searched hactive (hreached hactive) op.key
  have hcases := h.wellFormed.attempted t i op
  generalize s.attempt t i op = result at hcases
  cases hcases with
  | blocked hn _ _ _ => exact hs.noteEffect hn
  | @repeated n hn hkey hown hle =>
      simp only [republish]
      by_cases hpassed : op.isFind && n.stamp.index ≠ i
      · rw [if_pos hpassed]
        exact hs
      · rw [if_neg hpassed]
        refine hs.publish hop hn hkey hown hle fun hfind => ⟨?_, rfl⟩
        simp only [hfind, Bool.true_and, decide_eq_true_eq, not_not] at hpassed
        exact hpassed.symm
  | @stamped n after hn hkey hfree hactive hafter =>
      have hstamped := hs.stampNode hop hactive (hreached hactive) hn hkey hfree hafter
      have hmem := hs.wellFormed.mem_stampNode hn t i after
      exact hstamped.publish hop hmem hkey rfl (Nat.le_refl i) fun _ => ⟨rfl, rfl⟩
  | @linked c after hplace hactive hafter =>
      have hlinked := hs.linkNode hplace hop hreached hafter
      have hmem := WellFormed.mem_linkNode hplace.chain t i op.key after
      exact hlinked.publish hop hmem rfl rfl (Nat.le_refl i) fun _ => ⟨rfl, rfl⟩
  | refused _ _ _ _ => exact hs
  | missing _ _ => exact hs

/-- **Admissible events keep a store coherent.** -/
theorem act (h : s.Coherent) {e : Event κ υ} (he : s.Admissible e) : (s.act e).Coherent := by
  cases e with
  | allocate ops => exact h.allocate ops
  | attempt t i =>
      cases hop : (s.registry.get t).op? i with
      | none =>
          rw [Drive.act_attempt_of_none hop]
          exact h
      | some op =>
          rw [Drive.act_attempt hop]
          exact h.attempt hop he
  | settle t final fake => exact h.settle fake he.1 he.2
  | sweep f => exact h.sweep f
  | linkLate t i =>
      rcases h.wellFormed.act_linkLate t i with heq | ⟨k, v, c, hop, hplace, heq⟩
      · rw [heq]
        exact h
      · rw [heq]
        have hplace : s.Linking (Operation.insert k v).key c := hplace
        exact h.linkNode hplace hop he rfl
  | resetTally => exact h.withTally {}

end Coherent

end Store

end AtomicSet
