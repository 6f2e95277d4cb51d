import AtomicSet.Proofs.Helping.Transitions

/-!
# Who owns a node

A stamp of an active transaction stays. Whatever is asked of a store, until the transaction is
decided its node remains in the chain, and nobody but the transaction itself, at a later operation,
puts another stamp on it (`Store.WellFormed.owned_act`). So a wait is never stale: a frame whose
next operation needs a node of another transaction needs it until one of the two is decided.

## Main definitions

* `Registry.Extends` — what no event takes back: transactions, their operations, decisions.
* `Store.Waits` — the next operation of a frame needs a node of another active transaction.
* `Store.Blocked` — to attempt the next operation of a frame is to be told of another transaction.

## Main results

* `Store.WellFormed.extends_act` — every event extends the registry.
* `Store.WellFormed.owned_act` — a stamp of an active transaction stays.
* `Store.WellFormed.waits_iff_blocked` — to wait is to be blocked.
* `Store.WellFormed.waits_actAll` — a wait lasts until one of the two transactions is decided.
-/

namespace AtomicSet

variable {κ υ : Type}

namespace Registry

/-- `r'` has the transactions of `r`, with the same operations, and perhaps more; those that are
decided in `r` are decided the same way in `r'`, and what is in their slots is there in `r'`. -/
structure Extends (r r' : Registry κ υ) : Prop where
  size_le : r.size ≤ r'.size
  ops_eq : ∀ t < r.size, (r'.get t).ops = (r.get t).ops
  status_eq : ∀ t < r.size, r.isActive t = false → (r'.get t).status = (r.get t).status
  effect_eq : ∀ t < r.size, ∀ i id, (r.get t).effect? i = some id → (r'.get t).effect? i = some id
  read_eq : ∀ t < r.size, ∀ i v, (r.get t).read? i = some v → (r'.get t).read? i = some v

namespace Extends

/-- A registry extends itself. -/
theorem refl (r : Registry κ υ) : Extends r r :=
  ⟨Nat.le_refl _, fun _ _ => rfl, fun _ _ _ => rfl, fun _ _ _ _ => id, fun _ _ _ _ => id⟩

/-- What is active now was active before. -/
theorem isActive_of_isActive {r r' : Registry κ υ} (h : Extends r r') {t : TxnRef}
    (ht : t < r.size) (hactive : r'.isActive t) : r.isActive t := by
  by_contra hdecided
  rw [Bool.not_eq_true] at hdecided
  have hstatus := h.status_eq t ht hdecided
  rw [isActive, Transaction.isActive] at hactive hdecided
  rw [hstatus, hdecided] at hactive
  cases hactive

/-- What extends an extension of a registry extends it. -/
theorem trans {r₁ r₂ r₃ : Registry κ υ} (h : Extends r₁ r₂) (h' : Extends r₂ r₃) :
    Extends r₁ r₃ where
  size_le := Nat.le_trans h.size_le h'.size_le
  ops_eq t ht := (h'.ops_eq t (Nat.lt_of_lt_of_le ht h.size_le)).trans (h.ops_eq t ht)
  status_eq t ht hdecided := by
    have hstatus := h.status_eq t ht hdecided
    refine (h'.status_eq t (Nat.lt_of_lt_of_le ht h.size_le) ?_).trans hstatus
    rw [isActive, Transaction.isActive, hstatus]
    exact hdecided
  effect_eq t ht i id hid :=
    h'.effect_eq t (Nat.lt_of_lt_of_le ht h.size_le) i id (h.effect_eq t ht i id hid)
  read_eq t ht i v hv :=
    h'.read_eq t (Nat.lt_of_lt_of_le ht h.size_le) i v (h.read_eq t ht i v hv)

/-- An operation of a transaction stays at its position. -/
theorem op?_eq {r r' : Registry κ υ} (h : Extends r r') {t : TxnRef} {i : Nat}
    {op : Operation κ υ} (hop : (r.get t).op? i = some op) : (r'.get t).op? i = some op := by
  rw [Transaction.op?_congr (h.ops_eq t (lt_size_of_op? hop))]
  exact hop

end Extends

end Registry

/-- `n'` is the node `n`, with the same stamp or a later one of the same owner. -/
structure Node.Follows (n' n : Node κ υ) : Prop where
  id_eq : n'.id = n.id
  key_eq : n'.key = n.key
  owner_eq : n'.stamp.owner = n.stamp.owner
  index_le : n.stamp.index ≤ n'.stamp.index

/-- A node follows itself. -/
theorem Node.Follows.refl (n : Node κ υ) : n.Follows n :=
  ⟨rfl, rfl, rfl, Nat.le_refl _⟩

/-- What follows a node that follows another one follows that one too. -/
theorem Node.Follows.trans {n n' n'' : Node κ υ} (h' : n''.Follows n') (h : n'.Follows n) :
    n''.Follows n :=
  ⟨h'.id_eq.trans h.id_eq, h'.key_eq.trans h.key_eq, h'.owner_eq.trans h.owner_eq,
    Nat.le_trans h.index_le h'.index_le⟩

namespace Store

/-- A node of an active transaction is not stale. -/
theorem isStale_of_isActive {s : Store κ υ} {n : Node κ υ}
    (hactive : s.registry.isActive n.stamp.owner) : s.isStale n = false := by
  rw [Registry.isActive_iff] at hactive
  simp [isStale, hactive]

variable [LinearOrder κ]

/-- A search leaves the nodes of active transactions in the chain. -/
theorem mem_searched_of_isActive {s : Store κ υ} {n : Node κ υ} (hn : n ∈ s.chain)
    (hactive : s.registry.isActive n.stamp.owner) (k : κ) : n ∈ (s.searched k).chain :=
  mem_chain_drop.mpr ⟨hn, by simp [isStale_of_isActive hactive]⟩

/-- The next operation of the frame needs a node that carries a stamp of `owner`, which is another
active transaction. -/
def Waits (s : Store κ υ) (f : Frame) (owner : TxnRef) : Prop :=
  ∃ op n, f.pending? s.registry = some op ∧ n ∈ s.chain ∧ n.key = op.key ∧
    n.stamp.owner = owner ∧ owner ≠ f.txn ∧ s.registry.isActive owner

/-- To attempt the next operation of the frame is to be told that `owner` has to be driven first. -/
def Blocked (s : Store κ υ) (f : Frame) (owner : TxnRef) : Prop :=
  ∃ op resume, f.pending? s.registry = some op ∧
    (s.attempt f.txn f.next op).2 = .blocked owner resume

namespace WellFormed

variable {s : Store κ υ}

/-! ### What no event takes back -/

omit [LinearOrder κ] in
/-- Putting a node on record takes nothing back. -/
theorem extends_noteEffect (s : Store κ υ) (t : TxnRef) (i : Nat) (id : NodeId) :
    s.registry.Extends (s.noteEffect t i id).registry := by
  have hslots := s.slotsOnly_noteEffect t i id
  refine ⟨Nat.le_of_eq hslots.size_eq.symm, fun u _ => hslots.ops_eq u,
    fun u _ _ => hslots.status_eq u, fun u _ j id' hid => ?_, fun u _ j v hv => ?_⟩
  · rw [effect?_noteEffect, hid]
    split <;> rfl
  · rw [read?_noteEffect, hv]

omit [LinearOrder κ] in
/-- Publishing takes nothing back. -/
theorem extends_publish {s : Store κ υ} {t : TxnRef} {i : Nat} {op : Operation κ υ}
    (hop : (s.registry.get t).op? i = some op) (id : NodeId) (after : Option υ) :
    s.registry.Extends (s.publish t i op id after).registry := by
  have hslots := s.slotsOnly_publish t i op id after
  refine ⟨Nat.le_of_eq hslots.size_eq.symm, fun u _ => hslots.ops_eq u,
    fun u _ _ => hslots.status_eq u, fun u _ j id' hid => ?_, fun u _ j v hv => ?_⟩
  · rw [effect?_publish hop, hid]
    split <;> rfl
  · rw [read?_publish hop, hv]
    split <;> rfl

/-- An attempt only extends the registry. -/
theorem extends_attempt (h : s.WellFormed) {t : TxnRef} {i : Nat} {op : Operation κ υ}
    (hop : (s.registry.get t).op? i = some op) :
    s.registry.Extends (s.attempt t i op).1.registry := by
  have hcases := h.attempted t i op
  generalize s.attempt t i op = result at hcases
  cases hcases with
  | blocked _ _ _ _ => exact extends_noteEffect (s.searched op.key) _ _ _
  | repeated _ _ _ _ =>
      simp only [Store.republish]
      split
      · exact .refl _
      · exact extends_publish (s := s.searched op.key) hop _ _
  | @stamped n after _ _ _ _ _ =>
      exact extends_publish (s := (s.searched op.key).stampNode t i n after) hop _ _
  | @linked c after _ _ _ =>
      exact extends_publish (s := (s.searched op.key).linkNode t i op.key after c) hop _ _
  | refused _ _ _ _ => exact .refl _
  | missing _ _ => exact .refl _

/-- **Every event extends the registry.** -/
theorem extends_act (h : s.WellFormed) (e : Event κ υ) :
    s.registry.Extends (s.act e).registry := by
  cases e with
  | allocate ops =>
      have hget : ∀ t < s.registry.size,
          (s.act (.allocate ops)).registry.get t = s.registry.get t := fun t ht => by
        simp only [Store.act, Store.allocate, Registry.get_add, if_neg (Nat.ne_of_lt ht)]
      refine ⟨?_, fun t ht => ?_, fun t ht _ => ?_, fun t ht i id hid => ?_, fun t ht i v hv => ?_⟩
      · simp [Store.act, Store.allocate]
      · rw [hget t ht]
      · rw [hget t ht]
      · rw [hget t ht, hid]
      · rw [hget t ht, hv]
  | attempt t i =>
      cases hop : (s.registry.get t).op? i with
      | none =>
          rw [Drive.act_attempt_of_none hop]
          exact .refl _
      | some op =>
          rw [Drive.act_attempt hop]
          exact h.extends_attempt hop
  | settle t final fake =>
      refine ⟨Nat.le_of_eq (size_settle ..).symm, fun u _ => ops_settle .., fun u _ hdecided => ?_,
        fun u _ i id hid => ?_, fun u _ i v hv => ?_⟩
      · rw [Store.act, status_settle, if_neg]
        rintro ⟨rfl, hactive⟩
        rw [hdecided] at hactive
        cases hactive
      · rw [Store.act, effect?_settle, hid]
      · rw [Store.act, read?_settle, hv]
  | sweep f =>
      rw [Store.act, registry_sweep]
      exact .refl _
  | linkLate t i =>
      rcases h.act_linkLate t i with heq | ⟨k, v, c, -, -, heq⟩
      · rw [heq]
        exact .refl _
      · rw [heq]
        exact .refl _
  | resetTally => exact .refl _

/-- Whatever happens only extends the registry. -/
theorem extends_actAll (h : s.WellFormed) (es : List (Event κ υ)) :
    s.registry.Extends (s.actAll es).registry := by
  induction es generalizing s with
  | nil => exact .refl _
  | cons e es ih => exact (h.extends_act e).trans (ih (h.act e))

/-! ### Stamps of active transactions -/

/-- An attempt leaves the node of an active transaction where it is. -/
theorem owned_attempt (h : s.WellFormed) {n : Node κ υ} (hn : n ∈ s.chain)
    (hactive : s.registry.isActive n.stamp.owner) (t : TxnRef) (i : Nat) (op : Operation κ υ) :
    ∃ n' ∈ (s.attempt t i op).1.chain, n'.Follows n := by
  have hn := mem_searched_of_isActive hn hactive op.key
  have hcases := h.attempted t i op
  generalize s.attempt t i op = result at hcases
  cases hcases with
  | blocked _ _ _ _ => exact ⟨n, by simpa using hn, .refl n⟩
  | repeated _ _ _ _ => exact ⟨n, by simpa using hn, .refl n⟩
  | @stamped m after hm _ hfree _ _ =>
      simp only [chain_publish, (h.searched op.key).mem_chain_stampNode hm]
      by_cases hid : n.id = m.id
      · obtain rfl := (h.searched op.key).eq_of_id hn hm hid
        rcases hfree with ⟨rfl, hlt⟩ | ⟨-, hdecided⟩
        · exact ⟨_, Or.inr rfl, rfl, rfl, rfl, Nat.le_of_lt hlt⟩
        · exact absurd (hactive.symm.trans hdecided) (by decide)
      · exact ⟨n, Or.inl ⟨hn, hid⟩, .refl n⟩
  | linked hplace _ _ =>
      simp only [chain_publish, mem_chain_linkNode hplace.chain]
      exact ⟨n, Or.inl hn, .refl n⟩
  | refused _ _ _ _ => exact ⟨n, hn, .refl n⟩
  | missing _ _ => exact ⟨n, hn, .refl n⟩

/-- A sweep leaves the node of an active transaction where it is. -/
theorem mem_chain_sweep_of_isActive (h : s.WellFormed) {n : Node κ υ} (hn : n ∈ s.chain)
    (hactive : s.registry.isActive n.stamp.owner) (f : Frame) : n ∈ (s.sweep f).chain := by
  by_cases hf : s.registry.isActive f.txn
  · rw [Store.sweep, if_pos hf]
    exact hn
  · rw [Bool.not_eq_true] at hf
    have hne : n.stamp.owner ≠ f.txn := fun heq => by
      rw [heq, hf] at hactive
      cases hactive
    rw [h.chain_sweep hf, List.mem_filter]
    exact ⟨hn, by simp [sweepable, Stamp.isOwnedBy, hne]⟩

/-- **A stamp of an active transaction stays**, or gives way to a later one of the same
transaction. -/
theorem owned_act (h : s.WellFormed) {n : Node κ υ} (hn : n ∈ s.chain) (e : Event κ υ)
    (hactive : (s.act e).registry.isActive n.stamp.owner) :
    ∃ n' ∈ (s.act e).chain, n'.Follows n := by
  have hbefore := (h.extends_act e).isActive_of_isActive (h.owner_lt hn) hactive
  cases e with
  | allocate ops => exact ⟨n, hn, .refl n⟩
  | attempt t i =>
      rw [Store.act, attemptStep]
      cases (s.registry.get t).stepAt i with
      | error fault => exact ⟨n, hn, .refl n⟩
      | ok step => exact h.owned_attempt hn hbefore t i step.op
  | settle t final fake => exact ⟨n, by simpa [Store.act] using hn, .refl n⟩
  | sweep f => exact ⟨n, h.mem_chain_sweep_of_isActive hn hbefore f, .refl n⟩
  | linkLate t i =>
      rcases h.act_linkLate t i with heq | ⟨k, v, c, -, hplace, heq⟩
      · rw [heq]
        exact ⟨n, hn, .refl n⟩
      · rw [heq]
        exact ⟨n, (mem_chain_linkNode hplace.chain).mpr (Or.inl hn), .refl n⟩
  | resetTally => exact ⟨n, hn, .refl n⟩

/-- A node stays with its owner for as long as the owner is active. -/
theorem owned_actAll (h : s.WellFormed) {n : Node κ υ} (hn : n ∈ s.chain) (es : List (Event κ υ))
    (hactive : (s.actAll es).registry.isActive n.stamp.owner) :
    ∃ n' ∈ (s.actAll es).chain, n'.Follows n := by
  induction es generalizing s n with
  | nil => exact ⟨n, hn, .refl n⟩
  | cons e es ih =>
      have hlt := Nat.lt_of_lt_of_le (h.owner_lt hn) (h.extends_act e).size_le
      have hnext := ((h.act e).extends_actAll es).isActive_of_isActive hlt hactive
      obtain ⟨n', hn', hfollows⟩ := h.owned_act hn e hnext
      obtain ⟨n'', hn'', hfollows'⟩ := ih (h.act e) hn' (by rw [hfollows.owner_eq]; exact hactive)
      exact ⟨n'', hn'', hfollows'.trans hfollows⟩

/-! ### Waiting -/

/-- To wait is to be blocked. -/
theorem waits_iff_blocked (h : s.WellFormed) {f : Frame} {owner : TxnRef} :
    s.Waits f owner ↔ s.Blocked f owner := by
  constructor
  · rintro ⟨op, n, hpending, hn, hkey, hown, hne, hactive⟩
    subst hown
    refine ⟨op, n.stamp.index + 1, hpending, ?_⟩
    have hn := mem_searched_of_isActive hn hactive op.key
    have hcases := h.attempted f.txn f.next op
    have honly : ∀ {m}, m ∈ (s.searched op.key).chain → m.key = op.key → m = n :=
      fun hm hmkey => (h.searched op.key).eq_of_key hm hn (hmkey.trans hkey.symm)
    have hnotfree : ∀ {m}, m = n → ¬(s.searched op.key).Free f.txn f.next m := by
      rintro m rfl (⟨heq, -⟩ | ⟨-, hdecided⟩)
      · exact hne heq
      · exact absurd (hactive.symm.trans hdecided) (by decide)
    generalize s.attempt f.txn f.next op = result at hcases
    cases hcases with
    | blocked hm hmkey _ _ =>
        obtain rfl := honly hm hmkey
        rfl
    | repeated hm hmkey hown _ =>
        obtain rfl := honly hm hmkey
        exact absurd hown hne
    | stamped hm hmkey hfree _ _ => exact absurd hfree (hnotfree (honly hm hmkey))
    | linked hplace _ _ => exact absurd hkey (hplace.absent n hn)
    | refused hm hmkey hfree _ => exact absurd hfree (hnotfree (honly hm hmkey))
    | missing habsent _ => exact absurd hkey (habsent n hn)
  · rintro ⟨op, resume, hpending, hblocked⟩
    have hcases := h.attempted f.txn f.next op
    generalize s.attempt f.txn f.next op = result at hcases hblocked
    cases hcases with
    | blocked hn hkey hforeign hactive =>
        simp only [Progress.blocked.injEq] at hblocked
        obtain ⟨rfl, -⟩ := hblocked
        exact ⟨op, _, hpending, (mem_chain_drop.mp hn).1, hkey, rfl, hforeign, hactive⟩
    | repeated _ _ _ _ => cases hblocked
    | stamped _ _ _ _ _ => cases hblocked
    | linked _ _ _ => cases hblocked
    | refused _ _ _ _ => cases hblocked
    | missing _ _ => cases hblocked

/-- **A wait lasts** until one of the two transactions is decided. -/
theorem waits_actAll (h : s.WellFormed) {f : Frame} {owner : TxnRef} (hwaits : s.Waits f owner)
    (es : List (Event κ υ)) (hf : (s.actAll es).registry.isActive f.txn)
    (howner : (s.actAll es).registry.isActive owner) : (s.actAll es).Waits f owner := by
  obtain ⟨op, n, hpending, hn, hkey, hown, hne, -⟩ := hwaits
  subst hown
  obtain ⟨n', hn', hfollows⟩ := h.owned_actAll hn es howner
  obtain ⟨hfailed, -, hop⟩ := Frame.pending?_eq_some_iff.mp hpending
  have hpending' := Frame.pending?_eq_some_iff.mpr ⟨hfailed, hf, (h.extends_actAll es).op?_eq hop⟩
  exact ⟨op, n', hpending', hn', hfollows.key_eq.trans hkey, hfollows.owner_eq, hne, howner⟩

end WellFormed

end Store

end AtomicSet
