import AtomicSet.Proofs.Helping.Legal

/-!
# Threads that are interrupted before they publish

A success has two halves: the stamp on the node makes the operation happen, and then the operation
is published. A thread may be interrupted between the two. Whoever comes upon the stamp takes the
transaction on from the next operation, and so has to publish the one that it passes.

For insertions this is what happens: whenever a transaction is committed, the nodes of all of its
insertions are on record, and none of the nodes that it holds then is ever taken for stale. Lookups
are not published by those who pass them. If the thread was interrupted that stamped a node for a
lookup, the transaction may be committed without the value (`HelpingSession.lookup_lost`), though
every other lookup of it is on record. So all that is true of lookups is that those are on record
that nobody was interrupted at.

## Main definitions

* `Store.cutShort` — the store when an attempt is interrupted before it publishes.
* `Store.Announced` — an operation is on record, unless it is a lookup that was cut short.
* `Store.Firm`, `Standard.announced` — the invariant, and the standard of progress that comes of it.
* `HelpingSession.Faltering` — legal runs in which threads may be interrupted at any time.

## Main results

* `Store.Firm.act`, `Store.Firm.cutShort` — what happens keeps a store firm, interruptions included.
* `HelpingSession.Faltering.on_record` — what is on record of committed transactions.
* `HelpingSession.lookup_lost` — a lookup of a committed transaction that is not on record.
-/

namespace AtomicSet

open Operation

variable {κ υ : Type}

namespace Store

/-- The operation is on record, unless it is a lookup that was cut short. -/
def Announced (cuts : List (TxnRef × Nat)) (s : Store κ υ) (t : TxnRef) (i : Nat)
    (op : Operation κ υ) : Prop :=
  (op.kind = .insert → ∃ id, (s.registry.get t).effect? i = some id) ∧
    (op.isFind → (t, i) ∉ cuts → ∃ v, (s.registry.get t).read? i = some v)

/-- The node `id` has the key of the operation `op` of `t` at position `i`, and carries its stamp or
that of a later operation of `t`. -/
def Houses (s : Store κ υ) (t : TxnRef) (i : Nat) (op : Operation κ υ) (id : NodeId) : Prop :=
  ∃ n ∈ s.chain, n.id = id ∧ n.key = op.key ∧ n.stamp.owner = t ∧ i ≤ n.stamp.index

namespace Announced

variable {s s' : Store κ υ} {t : TxnRef} {i : Nat} {op : Operation κ υ}
  {cuts cuts' : List (TxnRef × Nat)}

/-- What is published is on record, whatever was cut short. -/
theorem of_published (h : s.Published t i op) : s.Announced cuts t i op :=
  ⟨h.1, fun hfind _ => h.2 hfind⟩

/-- With more cut short, less is asked for. -/
theorem mono (hcuts : cuts ⊆ cuts') (h : s.Announced cuts t i op) : s.Announced cuts' t i op :=
  ⟨h.1, fun hfind hnot => h.2 hfind fun hmem => hnot (hcuts hmem)⟩

/-- What is on record stays so. -/
theorem of_extends (hext : s.registry.Extends s'.registry)
    (hop : (s.registry.get t).op? i = some op) (h : s.Announced cuts t i op) :
    s'.Announced cuts t i op := by
  have ht := Registry.lt_size_of_op? hop
  refine ⟨fun hinsert => ?_, fun hfind hnot => ?_⟩
  · obtain ⟨id, hid⟩ := h.1 hinsert
    exact ⟨id, hext.effect_eq t ht i id hid⟩
  · obtain ⟨v, hv⟩ := h.2 hfind hnot
    exact ⟨v, hext.read_eq t ht i v hv⟩

end Announced

/-- A transaction stays as far as it got. -/
theorem behind_of_extends {s s' : Store κ υ} {t : TxnRef} {i : Nat}
    {cuts cuts' : List (TxnRef × Nat)} (hcuts : cuts ⊆ cuts')
    (hext : s.registry.Extends s'.registry) (ht : t < s.registry.size)
    (h : s.Behind (Announced cuts) t i) : s'.Behind (Announced cuts') t i := by
  intro j hj op hop
  rw [Transaction.op?_congr (hext.ops_eq t ht)] at hop
  exact ((h j hj op hop).mono hcuts).of_extends hext hop

/-- A node that publishing puts on record is one of the transaction. -/
theorem houses_of_publish {s : Store κ υ} {t : TxnRef} {i : Nat} {op : Operation κ υ}
    (hop : (s.registry.get t).op? i = some op) {n : Node κ υ} (hn : n ∈ s.chain)
    (hkey : n.key = op.key) (hown : n.stamp.owner = t) (hle : i ≤ n.stamp.index)
    {after : Option υ} {u : TxnRef} {j : Nat} {op' : Operation κ υ} {id : NodeId}
    (hop' : (s.registry.get u).op? j = some op')
    (hid : ((s.publish t i op n.id after).registry.get u).effect? j = some id) :
    (s.registry.get u).effect? j = some id ∨ (s.publish t i op n.id after).Houses u j op' id := by
  rw [effect?_publish hop] at hid
  by_cases hcase : u = t ∧ j = i ∧ op.kind = .insert
  · rw [if_pos hcase] at hid
    obtain ⟨rfl, rfl, -⟩ := hcase
    obtain rfl := Option.some.inj (hop.symm.trans hop')
    rcases Option.or_eq_some_iff.mp hid with hold | ⟨-, hnew⟩
    · exact Or.inl hold
    · exact Or.inr ⟨n, by simpa using hn, Option.some.inj hnew, hkey, hown, hle⟩
  · rw [if_neg hcase] at hid
    exact Or.inl hid

variable [LinearOrder κ]

/-- The store when a thread is interrupted in its attempt before it publishes: the attempt has done
all to the nodes that it does, and nothing is on record for it. -/
def cutShort (s : Store κ υ) (t : TxnRef) (i : Nat) (op : Operation κ υ) : Store κ υ :=
  { (s.attempt t i op).1 with registry := s.registry }

/-- A node that an attempt puts on record is one of the transaction it is recorded for. -/
theorem WellFormed.houses_of_attempt {s : Store κ υ} (h : s.WellFormed) {t : TxnRef} {i : Nat}
    {op : Operation κ υ} (hop : (s.registry.get t).op? i = some op) {u : TxnRef} {j : Nat}
    {op' : Operation κ υ} {id : NodeId} (hop' : (s.registry.get u).op? j = some op')
    (hid : ((s.attempt t i op).1.registry.get u).effect? j = some id) :
    (s.registry.get u).effect? j = some id ∨ (s.attempt t i op).1.Houses u j op' id := by
  have hwf := h.searched op.key
  have hcases := h.attempted t i op
  generalize s.attempt t i op = result at hcases hid
  cases hcases with
  | @blocked n hn _ _ _ =>
      obtain ⟨op₀, hop₀, hkey₀⟩ := hwf.stamped n hn
      rw [noteEffect_eq_publish hop₀] at hid ⊢
      exact houses_of_publish hop₀ hn hkey₀.symm rfl (Nat.le_refl _) hop' hid
  | @repeated n hn hkey hown hle =>
      rw [Store.republish] at hid ⊢
      by_cases hpassed : op.isFind && n.stamp.index ≠ i
      · rw [if_pos hpassed] at hid
        exact Or.inl hid
      · rw [if_neg hpassed] at hid ⊢
        exact houses_of_publish (s := s.searched op.key) hop hn hkey hown hle hop' hid
  | @stamped n after hn hkey _ _ _ =>
      have hmem := hwf.mem_stampNode hn t i after
      exact houses_of_publish (s := (s.searched op.key).stampNode t i n after) hop hmem hkey rfl
        (Nat.le_refl i) hop' hid
  | @linked c after hplace _ _ =>
      have hmem := mem_linkNode hplace.chain t i op.key after
      exact houses_of_publish (s := (s.searched op.key).linkNode t i op.key after c) hop hmem rfl
        rfl (Nat.le_refl i) hop' hid
  | refused _ _ _ _ => exact Or.inl hid
  | missing _ _ => exact Or.inl hid

/-! ### The invariant -/

/-- What is on record, where the lookups in `cuts` were cut short. -/
structure Firm (cuts : List (TxnRef × Nat)) (s : Store κ υ) : Prop where
  wellFormed : s.WellFormed
  /-- What a stamp of an active transaction has behind it is on record. -/
  behind : ∀ n ∈ s.chain, s.registry.isActive n.stamp.owner →
    s.Behind (Announced cuts) n.stamp.owner n.stamp.index
  /-- If the stamp is that of a lookup, then this is on record as well. -/
  looked : ∀ n ∈ s.chain, s.registry.isActive n.stamp.owner → ∀ op,
    (s.registry.get n.stamp.owner).op? n.stamp.index = some op → op.isFind →
      s.Announced cuts n.stamp.owner n.stamp.index op
  /-- The nodes on record for an active transaction are its own. -/
  housed : ∀ t i op id, s.registry.isActive t → (s.registry.get t).op? i = some op →
    (s.registry.get t).effect? i = some id → s.Houses t i op id
  /-- What a committed transaction did is on record. -/
  done : ∀ t i op, s.registry.status t = .committed → (s.registry.get t).op? i = some op →
    s.Announced cuts t i op

namespace Firm

variable {s s' : Store κ υ} {cuts cuts' : List (TxnRef × Nat)}

/-- In an empty store nothing is missing on record. -/
theorem fresh : ({} : Store κ υ).Firm cuts where
  wellFormed := .fresh
  behind n hn := by cases hn
  looked n hn := by cases hn
  housed t i op id hactive := by
    rw [Registry.isActive_iff, Registry.get_of_size_le (Nat.zero_le t)] at hactive
    cases hactive
  done t i op _ hop := by
    rw [Registry.get_of_size_le (Nat.zero_le t)] at hop
    cases hop

/-- A store stays firm if nothing is taken back, and if what is new is sound: the stamps, the nodes
on record, and the commits. -/
theorem of_extends (h : s.Firm cuts) (hcuts : cuts ⊆ cuts') (hwf : s'.WellFormed)
    (hext : s.registry.Extends s'.registry)
    (hkept : ∀ n ∈ s.chain, s'.registry.isActive n.stamp.owner → ∃ n' ∈ s'.chain, n'.Follows n)
    (hstamps : ∀ n ∈ s'.chain, n ∈ s.chain ∨ (s'.registry.isActive n.stamp.owner →
      s'.Behind (Announced cuts') n.stamp.owner n.stamp.index ∧
      ∀ op, (s'.registry.get n.stamp.owner).op? n.stamp.index = some op → op.isFind →
        s'.Announced cuts' n.stamp.owner n.stamp.index op))
    (hrecords : ∀ t i op id, s'.registry.isActive t → (s'.registry.get t).op? i = some op →
      (s'.registry.get t).effect? i = some id →
      (s.registry.get t).effect? i = some id ∨ s'.Houses t i op id)
    (hcommits : ∀ t, s'.registry.status t = .committed → s.registry.status t = .committed ∨
      s'.Behind (Announced cuts') t (s'.registry.get t).size) : s'.Firm cuts' where
  wellFormed := hwf
  behind n hn hactive := by
    rcases hstamps n hn with hold | hnew
    · have ht := h.wellFormed.owner_lt hold
      exact behind_of_extends hcuts hext ht
        (h.behind n hold (hext.isActive_of_isActive ht hactive))
    · exact (hnew hactive).1
  looked n hn hactive op hop hfind := by
    rcases hstamps n hn with hold | hnew
    · have ht := h.wellFormed.owner_lt hold
      rw [Transaction.op?_congr (hext.ops_eq _ ht)] at hop
      have hlooked := h.looked n hold (hext.isActive_of_isActive ht hactive) op hop hfind
      exact (hlooked.mono hcuts).of_extends hext hop
    · exact (hnew hactive).2 op hop hfind
  housed t i op id hactive hop hid := by
    rcases hrecords t i op id hactive hop hid with hold | hnew
    · have ht : t < s.registry.size := by
        by_contra hge
        rw [Registry.get_of_size_le (Nat.not_lt.mp hge)] at hold
        cases hold
      rw [Transaction.op?_congr (hext.ops_eq t ht)] at hop
      obtain ⟨n, hn, hnid, hkey, hown, hle⟩ :=
        h.housed t i op id (hext.isActive_of_isActive ht hactive) hop hold
      obtain ⟨n', hn', hfollows⟩ := hkept n hn (hown ▸ hactive)
      exact ⟨n', hn', hfollows.id_eq.trans hnid, hfollows.key_eq.trans hkey,
        hfollows.owner_eq.trans hown, Nat.le_trans hle hfollows.index_le⟩
    · exact hnew
  done t i op hcommitted hop := by
    rcases hcommits t hcommitted with hold | hnew
    · have ht : t < s.registry.size := by
        by_contra hge
        rw [Registry.status, Registry.get_of_size_le (Nat.not_lt.mp hge)] at hold
        cases hold
      rw [Transaction.op?_congr (hext.ops_eq t ht)] at hop
      exact ((h.done t i op hold hop).mono hcuts).of_extends hext hop
    · exact hnew i (Transaction.lt_size_of_op? hop) op hop

/-! ### What an attempt achieves -/

/-- **An attempt that succeeds** leaves its operation on record. -/
theorem announced_of_attempt (h : s.Firm cuts) {t : TxnRef} {i : Nat} {op : Operation κ υ}
    (hop : (s.registry.get t).op? i = some op) (hactive : s.registry.isActive t)
    {progress : Progress} (hattempt : s.attempt t i op = (s', progress)) {id : NodeId}
    (hnode : progress.node? = some id) : s'.Announced cuts t i op := by
  have hwf := h.wellFormed
  refine ⟨hwf.effect_of_attempt hop hattempt hnode, fun hfind hnot => ?_⟩
  rcases hwf.read_of_attempt hop hattempt hnode hfind with hread | ⟨n, hn, rfl, hle⟩
  · exact hread
  · have hannounced : s.Announced cuts n.stamp.owner i op := by
      rcases Nat.lt_or_eq_of_le hle with hlt | rfl
      · exact h.behind n hn hactive i hlt op hop
      · exact h.looked n hn hactive op hop hfind
    have hext := hwf.extends_attempt hop
    rw [hattempt] at hext
    exact (hannounced.of_extends hext hop).2 hfind hnot

/-- **An attempt that is blocked** puts the stamp that it met on record, if that is an insertion. So
it names a position up to which all of the owner's operations are on record. -/
theorem behind_of_blocked (h : s.Firm cuts) {t : TxnRef} {i : Nat} {op : Operation κ υ}
    {owner : TxnRef} {resume : Nat} (hattempt : s.attempt t i op = (s', .blocked owner resume)) :
    s'.Behind (Announced cuts) owner resume := by
  have hcases := h.wellFormed.attempted t i op
  rw [hattempt] at hcases
  cases hcases with
  | @blocked n hn _ _ hactive =>
      have hmem := (mem_chain_drop.mp hn).1
      have ht := h.wellFormed.owner_lt hmem
      obtain ⟨op₀, hop₀, -⟩ := h.wellFormed.stamped n hmem
      rw [noteEffect_eq_publish (s := s.searched op.key) hop₀]
      have hext := WellFormed.extends_publish (s := s.searched op.key) hop₀ n.id none
      refine (behind_of_extends (fun _ => id) hext ht (h.behind n hmem hactive)).succ
        fun op' hop' => ?_
      rw [Transaction.op?_congr (hext.ops_eq _ ht)] at hop'
      obtain rfl : op₀ = op' := Option.some.inj (hop₀.symm.trans hop')
      by_cases hfind : op₀.isFind
      · exact (h.looked n hmem hactive op₀ hop' hfind).of_extends hext hop'
      · exact .of_published (published_publish (s := s.searched op.key) hop₀ n.id
          fun hfind' => absurd hfind' hfind)

/-! ### What keeps a store firm -/

omit [LinearOrder κ] in
/-- A new stamp of an active transaction is sound if what lies behind it is on record, and itself
too if it is a lookup. -/
theorem of_stamp {n : Node κ υ} {t : TxnRef} {i : Nat} {op : Operation κ υ}
    (hstamp : n.stamp.owner = t ∧ n.stamp.index = i) (hop : (s'.registry.get t).op? i = some op)
    (hbehind : s'.registry.isActive t → s'.Behind (Announced cuts) t i)
    (hannounced : s'.registry.isActive t → op.isFind → s'.Announced cuts t i op) :
    s'.registry.isActive n.stamp.owner →
      s'.Behind (Announced cuts) n.stamp.owner n.stamp.index ∧
      ∀ op, (s'.registry.get n.stamp.owner).op? n.stamp.index = some op → op.isFind →
        s'.Announced cuts n.stamp.owner n.stamp.index op := by
  obtain ⟨rfl, rfl⟩ := hstamp
  refine fun hactive => ⟨hbehind hactive, fun op' hop' hfind => ?_⟩
  obtain rfl := Option.some.inj (hop.symm.trans hop')
  exact hannounced hactive hfind

/-- What is on record stays so when an operation is attempted behind which nothing is missing. -/
theorem attempt (h : s.Firm cuts) {t : TxnRef} {i : Nat} {op : Operation κ υ}
    (hop : (s.registry.get t).op? i = some op)
    (hbehind : s.registry.isActive t → s.Behind (Announced cuts) t i) :
    (s.attempt t i op).1.Firm cuts := by
  have hwf := h.wellFormed
  have hext := hwf.extends_attempt hop
  have hslots := s.slotsOnly_attempt t i op
  have ht := Registry.lt_size_of_op? hop
  have hop' : ((s.attempt t i op).1.registry.get t).op? i = some op :=
    (Transaction.op?_congr (hslots.ops_eq t) i).trans hop
  refine h.of_extends (fun _ => id) (hwf.attempt hop) hext (fun n hn hactive => ?_) (fun n hn => ?_)
    (fun u j op' id _ hop' hid => ?_) fun u hcommitted => ?_
  · rw [hslots.isActive_eq] at hactive
    exact hwf.owned_attempt hn hactive t i op
  · rcases hwf.stamp_of_mem_chain_attempt (Prod.mk.eta (p := s.attempt t i op)).symm hn with
      hold | ⟨hstamp, hnode⟩
    · exact Or.inl hold
    · refine Or.inr (of_stamp hstamp hop' (fun hactive => ?_) fun hactive _ => ?_)
      · rw [hslots.isActive_eq] at hactive
        exact behind_of_extends (fun _ => id) hext ht (hbehind hactive)
      · rw [hslots.isActive_eq] at hactive
        exact h.announced_of_attempt hop hactive (Prod.mk.eta (p := s.attempt t i op)).symm hnode
  · rw [Transaction.op?_congr (hslots.ops_eq u)] at hop'
    exact hwf.houses_of_attempt hop hop' hid
  · rw [Registry.status, hslots.status_eq] at hcommitted
    exact Or.inl hcommitted

/-- **An interruption** before the operation is published leaves a firm store, with one lookup more
that may have been cut short. -/
theorem cutShort (h : s.Firm cuts) {t : TxnRef} {i : Nat} {op : Operation κ υ}
    (hop : (s.registry.get t).op? i = some op)
    (hbehind : s.registry.isActive t → s.Behind (Announced cuts) t i) {id : NodeId}
    (happlied : (s.attempt t i op).2 = .applied id) :
    (s.cutShort t i op).Firm ((t, i) :: cuts) := by
  have hwf := h.wellFormed
  have hcuts : cuts ⊆ (t, i) :: cuts := fun c hc => List.mem_cons_of_mem _ hc
  have hext : s.registry.Extends (s.cutShort t i op).registry := .refl _
  have hmem : ∀ n, n ∈ (s.cutShort t i op).chain ↔ n ∈ (s.attempt t i op).1.chain :=
    fun n => Iff.rfl
  have hcut : (s.cutShort t i op).WellFormed := by
    have hsearched := hwf.searched op.key
    have hcases := hwf.attempted t i op
    rw [Store.cutShort]
    generalize s.attempt t i op = result at hcases happlied
    cases hcases with
    | blocked _ _ _ _ => cases happlied
    | repeated _ _ _ _ => cases happlied
    | @stamped n after hn hkey _ _ _ =>
        rw [publish_eq]
        exact hsearched.stampNode hop hn hkey after
    | @linked c after hplace _ _ =>
        rw [publish_eq]
        exact hsearched.linkNode hplace.chain hop hplace.room after
    | refused _ _ _ _ => cases happlied
    | missing _ _ => cases happlied
  refine h.of_extends hcuts hcut hext (fun n hn hactive => ?_) (fun n hn => ?_)
    (fun u j op' id _ _ hid => Or.inl hid) fun u hcommitted => Or.inl hcommitted
  · exact hwf.owned_attempt hn hactive t i op
  · rcases hwf.stamp_of_mem_chain_attempt (Prod.mk.eta (p := s.attempt t i op)).symm
      ((hmem n).mp hn) with hold | ⟨hstamp, -⟩
    · exact Or.inl hold
    · refine Or.inr (of_stamp hstamp hop (fun hactive => ?_) fun _ hfind => ?_)
      · exact behind_of_extends hcuts hext (Registry.lt_size_of_op? hop) (hbehind hactive)
      · have hnot : op.kind ≠ .insert := fun hinsert => by simp [isFind, hinsert] at hfind
        exact ⟨fun hinsert => absurd hinsert hnot,
          fun _ hnotin => absurd List.mem_cons_self hnotin⟩

/-- **What happens in order keeps a store firm.** -/
theorem act (h : s.Firm cuts) {e : Event κ υ} (he : s.Admits (Announced cuts) e) :
    (s.act e).Firm cuts := by
  have hwf := h.wellFormed
  have hext := hwf.extends_act e
  have hkept := fun n hn => hwf.owned_act (n := n) hn e
  -- What is left to show where the registry stays as it is.
  have hsame : (s.act e).registry = s.registry →
      (∀ n ∈ (s.act e).chain, n ∈ s.chain ∨ ((s.act e).registry.isActive n.stamp.owner →
        (s.act e).Behind (Announced cuts) n.stamp.owner n.stamp.index ∧
        ∀ op, ((s.act e).registry.get n.stamp.owner).op? n.stamp.index = some op → op.isFind →
          (s.act e).Announced cuts n.stamp.owner n.stamp.index op)) → (s.act e).Firm cuts := by
    intro hregistry hstamps
    refine h.of_extends (fun _ => id) (hwf.act e) hext hkept hstamps (fun t i op id _ _ hid => ?_)
      fun t hcommitted => ?_
    · rw [hregistry] at hid
      exact Or.inl hid
    · rw [hregistry] at hcommitted
      exact Or.inl hcommitted
  cases e with
  | allocate ops =>
      have hget : ∀ u, (s.act (.allocate ops)).registry.get u =
          if u = s.registry.size then .ofOperations s.registry.size ops else s.registry.get u :=
        fun u => Registry.get_add ..
      refine h.of_extends (fun _ => id) (hwf.act _) hext hkept (fun n hn => Or.inl hn)
        (fun t i op id _ _ hid => ?_) fun t hcommitted => ?_
      · rw [hget] at hid
        split at hid
        · rw [Transaction.effect?_ofOperations] at hid
          cases hid
        · exact Or.inl hid
      · rw [Registry.status, hget] at hcommitted
        split at hcommitted
        · cases hcommitted
        · exact Or.inl hcommitted
  | attempt t i =>
      cases hop : (s.registry.get t).op? i with
      | none =>
          rw [Drive.act_attempt_of_none hop]
          exact h
      | some op =>
          rw [Drive.act_attempt hop]
          exact h.attempt hop he
  | settle t final fake =>
      refine h.of_extends (fun _ => id) (hwf.act _) hext hkept
        (fun n hn => Or.inl (by simpa [Store.act] using hn)) (fun u i op id _ _ hid => ?_)
        fun u hcommitted => ?_
      · rw [Store.act, effect?_settle] at hid
        exact Or.inl hid
      · rw [Registry.status, Store.act, status_settle] at hcommitted
        by_cases hcase : u = t ∧ s.registry.isActive t
        · rw [if_pos hcase] at hcommitted
          obtain ⟨rfl, hactive⟩ := hcase
          have ht := Registry.lt_size_of_isActive hactive
          refine Or.inr (behind_of_extends (fun _ => id) hext ht ?_)
          rw [← Transaction.ops_length, hext.ops_eq u ht, Transaction.ops_length]
          exact he.2 hcommitted hactive
        · rw [if_neg hcase] at hcommitted
          exact Or.inl hcommitted
  | sweep f => exact hsame (registry_sweep s f) fun n hn => Or.inl (hwf.mem_of_mem_sweep hn)
  | linkLate t i =>
      rcases hwf.act_linkLate t i with heq | ⟨k, v, c, hop, hplace, heq⟩
      · rw [heq]
        exact h
      · refine hsame (by rw [heq]; rfl) fun n hn => ?_
        rw [heq] at hn ⊢
        rcases (WellFormed.mem_chain_linkNode hplace.chain).mp hn with hold | rfl
        · exact Or.inl hold
        · exact Or.inr (of_stamp ⟨rfl, rfl⟩ hop he fun _ hfind => by cases hfind)
  | resetTally => exact hsame rfl fun n hn => Or.inl hn

/-- **When a transaction commits, none of its nodes is stale**, and none will ever be. -/
theorem not_stale (h : s.Firm cuts) {e : Event κ υ} (he : s.Admits (Announced cuts) e)
    {t : TxnRef} (hactive : s.registry.isActive t)
    (hcommitted : (s.act e).registry.status t = .committed) {n : Node κ υ}
    (hn : n ∈ (s.act e).chain) (hown : n.stamp.owner = t) (later : List (Event κ υ)) :
    ((s.act e).actAll later).isStale n = false := by
  have hwf := h.wellFormed
  obtain ⟨fake, rfl⟩ := hwf.eq_settle_of_committed hactive hcommitted
  have hmem : n ∈ s.chain := by simpa [Store.act] using hn
  subst hown
  obtain ⟨op, hop, hkey⟩ := hwf.stamped n hmem
  have hext := (hwf.extends_act (.settle n.stamp.owner .committed fake)).trans
    ((hwf.act _).extends_actAll later)
  have hop' := hext.op?_eq hop
  by_cases hinsert : op.kind = .insert
  · have hannounced := he.2 rfl hactive n.stamp.index (Transaction.lt_size_of_op? hop) op hop
    obtain ⟨id, hid⟩ := hannounced.1 hinsert
    obtain ⟨m, hm, rfl, hmkey, -, -⟩ := h.housed _ _ op id hactive hop hid
    obtain rfl := hwf.eq_of_key hm hmem (hmkey.trans hkey)
    have hlater := hext.effect_eq _ (hwf.owner_lt hmem) _ _ hid
    simp [isStale, hlater]
  · have hkind : (((s.act (.settle n.stamp.owner .committed fake)).actAll later).registry.get
        n.stamp.owner).kind? n.stamp.index ≠ some .insert := by
      rw [Transaction.kind?, hop']
      simpa using hinsert
    simp [isStale, hkind]

end Firm

end Store

variable [LinearOrder κ]

/-- An operation is done once it is on record, or is a lookup that was cut short. -/
def Standard.announced (cuts : List (TxnRef × Nat)) : Standard κ υ where
  Holds s := s.Firm cuts
  Did s t i op := s.Announced cuts t i op
  wellFormed h := h.wellFormed
  lasting h es hop _ hdid := hdid.of_extends (h.wellFormed.extends_actAll es) hop
  achieved h hop hactive hattempt hnode := h.announced_of_attempt hop hactive hattempt hnode
  reached h hattempt := h.behind_of_blocked hattempt
  act h he := h.act he

namespace HelpingSession

/-- The legal runs in which threads are interrupted: where they lead, the commands that were
answered, and at which operations a thread was interrupted that had performed it but not published
it. -/
inductive Faltering : HelpingSession κ υ → List (Command κ υ × Reply κ υ) →
    List (TxnRef × Nat) → Prop where
  | fresh : Faltering {} [] []
  | perform {s : HelpingSession κ υ} {log : List (Command κ υ × Reply κ υ)}
      {cuts : List (TxnRef × Nat)} (h : Faltering s log cuts) {c : Command κ υ}
      (allowed : s.Allowed log c) :
      Faltering (s.perform c).1 (log ++ [(c, (s.perform c).2)]) cuts
  /-- The thread is interrupted that attempts a single operation. -/
  | step {s : HelpingSession κ υ} {log : List (Command κ υ × Reply κ υ)}
      {cuts : List (TxnRef × Nat)} (h : Faltering s log cuts) {t : TxnRef} {i : Nat}
      (allowed : s.Allowed log (.step t i)) {op : Operation κ υ}
      (op_eq : (s.store.registry.get t).op? i = some op) {id : NodeId}
      (applied : (s.store.attempt t i op).2 = .applied id) :
      Faltering { s with store := s.store.cutShort t i op } log ((t, i) :: cuts)
  /-- A thread is interrupted that a command has set to work, in any round of its loop. -/
  | loop {s : HelpingSession κ υ} {log : List (Command κ υ × Reply κ υ)}
      {cuts : List (TxnRef × Nat)} (h : Faltering s log cuts) {c : Command κ υ} {d d' : Drive κ υ}
      (loop_eq : s.loop? c = some d) (round : d' ∈ d.rounds) {f : Frame} {below : List Frame}
      (frames : d'.stack.frames = f :: below) {op : Operation κ υ}
      (pending : f.pending? d'.store.registry = some op) {id : NodeId}
      (applied : (d'.store.attempt f.txn f.next op).2 = .applied id) :
      Faltering { s with store := d'.store.cutShort f.txn f.next op } log ((f.txn, f.next) :: cuts)

namespace Faltering

variable {s : HelpingSession κ υ} {log : List (Command κ υ × Reply κ υ)}
  {cuts : List (TxnRef × Nat)}

/-- What was attempted with success stays on record while nothing is taken back. -/
theorem tracked_of_extends (h : s.Tracked (.announced cuts) log) {s' : Store κ υ}
    {cuts' : List (TxnRef × Nat)} (hcuts : cuts ⊆ cuts') (hfirm : s'.Firm cuts')
    (hext : s.store.registry.Extends s'.registry) :
    Tracked (.announced cuts') { s with store := s' } log where
  holds := hfirm
  stepped t i hstepped := by
    obtain ⟨op, hop, hdid⟩ := h.stepped t i hstepped
    refine ⟨op, hext.op?_eq hop, fun hactive => ?_⟩
    have hbefore := hext.isActive_of_isActive (Registry.lt_size_of_op? hop) hactive
    exact ((hdid hbefore).mono hcuts).of_extends hext hop

/-- In every round of a thread that a command sets to work, what was there before is there still. -/
theorem extends_of_mem_rounds (h : s.store.WellFormed) {c : Command κ υ} {d d' : Drive κ υ}
    (hloop : s.loop? c = some d) (hround : d' ∈ d.rounds) :
    s.store.registry.Extends d'.store.registry := by
  have hstart : d.store.WellFormed ∧ s.store.registry.Extends d.store.registry := by
    obtain ⟨-, hstore | ⟨ops, hstore⟩⟩ := start_of_loop? hloop
    · rw [hstore]
      exact ⟨h, .refl _⟩
    · rw [hstore]
      exact ⟨h.act _, h.extends_act _⟩
  refine (Drive.forall_mem_rounds (P := fun d => d.store.WellFormed ∧
    s.store.registry.Extends d.store.registry) hstart (fun d₁ d₂ h₁ hadvance => ?_) d' hround).2
  rw [← Drive.actAll_events hadvance]
  exact ⟨h₁.1.actAll _, h₁.2.trans (h₁.1.extends_actAll _)⟩

/-- **Interruptions take nothing off the record** but lookups. -/
theorem tracked (h : Faltering s log cuts) : s.Tracked (.announced cuts) log := by
  induction h with
  | fresh =>
      refine ⟨.fresh, fun t i hstepped => ?_⟩
      obtain ⟨node, hmem | hmem⟩ := hstepped
      · cases hmem
      · cases hmem
  | perform _ hc ih => exact ih.perform hc
  | step _ hc hop happlied ih =>
      exact tracked_of_extends ih (fun c hc => List.mem_cons_of_mem _ hc)
        (ih.holds.cutShort hop (fun hactive => ih.behind hactive (hc hactive)) happlied) (.refl _)
  | @loop s log cuts _ c d d' hloop hround f below hframes op hpending id happlied ih =>
      have htracks : d'.Tracks (.announced cuts) :=
        Drive.forall_mem_rounds (ih.tracks_of_loop? hloop) (fun _ _ => Drive.Tracks.advance) d'
          hround
      obtain ⟨hfailed, hactive, hop⟩ := Frame.pending?_eq_some_iff.mp hpending
      have hmem : f ∈ d'.stack.frames := by
        rw [hframes]
        exact List.mem_cons_self
      exact tracked_of_extends ih (fun c hc => List.mem_cons_of_mem _ hc)
        (htracks.holds.cutShort hop (htracks.behind f hmem hfailed) happlied)
        (extends_of_mem_rounds ih.holds.wellFormed hloop hround)

/-- **What is on record of committed transactions**, however many threads were interrupted. At every
moment of a legal command, the node of each insertion of a committed transaction is on record, and
so is the value of each lookup that nobody was interrupted at. From the moment at which a
transaction commits, no node that carries its stamp then is ever taken for stale. -/
theorem on_record (h : Faltering s log cuts) {c : Command κ υ} (hc : s.Allowed log c)
    {pre post : List (Event κ υ)} (heq : s.events c = pre ++ post) :
    (∀ t i op, (s.store.actAll pre).registry.status t = .committed →
      ((s.store.actAll pre).registry.get t).op? i = some op →
      (s.store.actAll pre).Announced cuts t i op) ∧
    ∀ e rest, post = e :: rest → ∀ t, (s.store.actAll pre).registry.isActive t →
      ((s.store.actAll pre).act e).registry.status t = .committed →
      ∀ n ∈ ((s.store.actAll pre).act e).chain, n.stamp.owner = t →
        ∀ later, (((s.store.actAll pre).act e).actAll later).isStale n = false := by
  have htracked := h.tracked
  have hadmits := htracked.admits_events hc
  rw [heq, Store.along_append] at hadmits
  have hfirm : (s.store.actAll pre).Firm cuts :=
    (Standard.announced cuts).actAll htracked.holds hadmits.1
  refine ⟨hfirm.done, ?_⟩
  rintro e rest rfl t hactive hcommitted n hn hown later
  exact hfirm.not_stale hadmits.2.1 hactive hcommitted hn hown later

end Faltering

/-! ### A lookup that is lost -/

/-- A key was inserted. Then a transaction inserted another one, and is to look the first one up
twice; its thread is stalled. -/
def stalled : HelpingSession Nat Nat :=
  let s₁ : HelpingSession Nat Nat := (perform {} (.allocate [.insert 1 10])).1
  let s₂ := (s₁.perform (.step 0 0)).1
  let s₃ := (s₂.perform (.finish 0 1 false)).1
  let s₄ := (s₃.perform (.allocate [.insert 2 20, .find 1, .find 1])).1
  (s₄.perform (.step 1 0)).1

/-- A thread that helps the stalled one was interrupted at the first lookup, before it published the
value. -/
def interrupted : HelpingSession Nat Nat :=
  { stalled with store := stalled.store.cutShort 1 1 (.find 1) }

/-- The interrupted lookup comes about in a run of ordinary commands. -/
theorem faltering_interrupted : ∃ log, Faltering interrupted log [(1, 1)] := by
  have h₁ := Faltering.fresh.perform (c := .allocate [.insert 1 (10 : Nat)]) trivial
  have h₂ := h₁.perform (c := .step 0 0) (by decide)
  have h₃ := h₂.perform (c := .finish 0 1 false) (by decide)
  have h₄ := h₃.perform (c := .allocate [.insert 2 20, .find 1, .find 1]) trivial
  have h₅ := h₄.perform (c := .step 1 0) (by decide)
  have happlied : (stalled.store.attempt 1 1 (.find 1)).2 = .applied 0 := by decide
  exact ⟨_, Faltering.step (s := stalled) h₅ (by decide) (by decide) happlied⟩

/-- When a thread comes upon the interrupted lookup, the insertion before it is on record in the
end. -/
theorem on_record_interrupted : ∃ log, Faltering interrupted log [(1, 1)] ∧
    ∀ t i op,
      (interrupted.store.actAll (interrupted.events (.find 1))).registry.status t = .committed →
      ((interrupted.store.actAll (interrupted.events (.find 1))).registry.get t).op? i = some op →
      (interrupted.store.actAll (interrupted.events (.find 1))).Announced [(1, 1)] t i op := by
  obtain ⟨log, h⟩ := faltering_interrupted
  exact ⟨log, h, (Faltering.on_record h (c := .find 1) trivial (List.append_nil _).symm).1⟩

/-- **A lookup may be lost.** When a thread comes upon the interrupted lookup, it takes the
transaction on from the second one and commits it. The value of the first one is not on record. Once
the second one was performed, nothing even tells that the first one was attempted. -/
theorem lookup_lost :
    (∃ log, Faltering interrupted log [(1, 1)] ∧ interrupted.Allowed log (.find 1)) ∧
      ((interrupted.perform (.find 1)).1.store.registry.status 1 = .committed ∧
        ((interrupted.perform (.find 1)).1.store.registry.get 1).ops =
          [.insert 2 20, .find 1, .find 1] ∧
        ((interrupted.perform (.find 1)).1.store.registry.get 1).reads = [none, none, some 10]) ∧
      (interrupted.store.attempt 1 2 (.find 1)).1 = (stalled.store.attempt 1 2 (.find 1)).1 := by
  obtain ⟨log, h⟩ := faltering_interrupted
  refine ⟨⟨log, h, trivial⟩, ?_, by decide⟩
  have hrun : (interrupted.perform (.find 1)).1.store =
      ((interrupted.store.driver [.find 1]).after 5).store := by
    rw [perform_of_loop? (d := interrupted.store.driver [.find 1]) rfl]
    exact Drive.run_eq_of_after (by decide)
  rw [hrun]
  decide

end HelpingSession

end AtomicSet
