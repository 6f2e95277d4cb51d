import AtomicSet.Proofs.Helping.Serial
import AtomicSet.Proofs.Helping.Standard

/-!
# Threads keep to the order of operations

A thread that helps takes transactions over wherever it finds a stamp of theirs, and drives them on
from there. The stamp tells that everything before it was performed and published, and the thread
puts the insertion of the stamp itself on record before it goes on. So it is a standard for threads
that whatever they have behind them has been performed and published, for each transaction on their
stack, and all that they do is admissible.

## Main definitions

* `Store.Recorded` — the lookup of a stamp is on record.
* `Standard.published` — an operation is done once it was performed and published.
* `Drive.Orderly` — a thread has performed and published all that lies behind it.

## Main results

* `Store.Coherent.achieved_of_attempt`, `Store.Coherent.reached_of_blocked` — what an attempt tells
  about the transaction it succeeds for, or is blocked by.
* `Drive.Orderly.advance` — every round keeps a thread orderly.
-/

namespace AtomicSet

open Operation

variable {κ υ : Type} [LinearOrder κ]

namespace Store

/-- The lookup of a stamp of an active transaction is on record. -/
def Recorded (s : Store κ υ) : Prop :=
  ∀ n ∈ s.chain, s.registry.isActive n.stamp.owner → ∀ op,
    (s.registry.get n.stamp.owner).op? n.stamp.index = some op → op.isFind →
      ∃ v, (s.registry.get n.stamp.owner).read? n.stamp.index = some v

namespace Recorded

variable {s s' : Store κ υ}

/-- What is on record stays so; only new stamps matter. -/
theorem of_extends (h : s.Recorded) (hwf : s.WellFormed)
    (hext : s.registry.Extends s'.registry)
    (hmem : ∀ n ∈ s'.chain, n ∈ s.chain ∨ ∀ op,
      (s'.registry.get n.stamp.owner).op? n.stamp.index = some op → op.isFind →
        ∃ v, (s'.registry.get n.stamp.owner).read? n.stamp.index = some v) : s'.Recorded := by
  intro n hn hactive op hop hfind
  rcases hmem n hn with hold | hnew
  · have hlt := hwf.owner_lt hold
    rw [Transaction.op?_congr (hext.ops_eq _ hlt)] at hop
    obtain ⟨v, hv⟩ := h n hold (hext.isActive_of_isActive hlt hactive) op hop hfind
    exact ⟨v, hext.read_eq _ hlt _ v hv⟩
  · exact hnew op hop hfind

/-- Lookups are on record still after an attempt. -/
theorem attempt (h : s.Recorded) (hwf : s.WellFormed) {t : TxnRef} {i : Nat} {op : Operation κ υ}
    (hop : (s.registry.get t).op? i = some op) : (s.attempt t i op).1.Recorded := by
  refine h.of_extends hwf (hwf.extends_attempt hop) ?_
  have hold : ∀ n ∈ (s.searched op.key).chain, n ∈ s.chain := fun n hn => (mem_chain_drop.mp hn).1
  have hcases := hwf.attempted t i op
  generalize s.attempt t i op = result at hcases
  intro m hm
  cases hcases with
  | blocked _ _ _ _ => exact Or.inl (hold m (by simpa using hm))
  | repeated _ _ _ _ => exact Or.inl (hold m (by simpa using hm))
  | @stamped n after hn _ _ _ hafter =>
      rw [chain_publish, (hwf.searched op.key).mem_chain_stampNode hn] at hm
      rcases hm with ⟨hm, -⟩ | rfl
      · exact Or.inl (hold m hm)
      · refine Or.inr fun op' hop' hfind => ?_
        have hslots := ((s.searched op.key).stampNode t i n after).slotsOnly_publish t i op n.id
          after
        rw [Transaction.op?_congr (hslots.ops_eq t)] at hop'
        obtain rfl : op = op' := Option.some.inj (hop.symm.trans hop')
        have hpublished := published_publish (s := (s.searched op.key).stampNode t i n after) hop
          n.id fun hfind => (after?_eq_of_isFind hfind hafter).2
        exact hpublished.2 hfind
  | @linked c after hplace _ hafter =>
      rw [chain_publish, WellFormed.mem_chain_linkNode hplace.chain] at hm
      rcases hm with hm | rfl
      · exact Or.inl (hold m hm)
      · refine Or.inr fun op' hop' hfind => ?_
        have hslots := ((s.searched op.key).linkNode t i op.key after c).slotsOnly_publish t i op
          s.nextNode after
        have hinsert := kind_of_after?_none hafter
        have hop'' := (Transaction.op?_congr (hslots.ops_eq t) i).symm.trans hop'
        obtain rfl : op = op' := Option.some.inj (hop.symm.trans hop'')
        simp [isFind, hinsert] at hfind
  | refused _ _ _ _ => exact Or.inl (hold m hm)
  | missing _ _ => exact Or.inl (hold m hm)

/-- Every event keeps lookups on record. -/
theorem act (h : s.Recorded) (hwf : s.WellFormed) (e : Event κ υ) : (s.act e).Recorded := by
  have hext := hwf.extends_act e
  cases e with
  | allocate ops => exact h.of_extends hwf hext fun n hn => Or.inl hn
  | attempt t i =>
      cases hop : (s.registry.get t).op? i with
      | none =>
          rw [Drive.act_attempt_of_none hop]
          exact h
      | some op =>
          rw [Drive.act_attempt hop]
          exact h.attempt hwf hop
  | settle t final fake =>
      exact h.of_extends hwf hext fun n hn => Or.inl (by simpa [Store.act] using hn)
  | sweep f => exact h.of_extends hwf hext fun n hn => Or.inl (hwf.mem_of_mem_sweep hn)
  | linkLate t i =>
      rcases hwf.act_linkLate t i with heq | ⟨k, v, c, hop, hplace, heq⟩
      · rw [heq]
        exact h
      · rw [heq] at hext ⊢
        refine h.of_extends hwf hext fun n hn => ?_
        rcases (WellFormed.mem_chain_linkNode hplace.chain).mp hn with hn | rfl
        · exact Or.inl hn
        · refine Or.inr fun op' hop' hfind => ?_
          obtain rfl := Option.some.inj (hop.symm.trans hop')
          cases hfind
  | resetTally => exact h

/-- Lookups are on record whatever happens. -/
theorem actAll (h : s.Recorded) (hwf : s.WellFormed) (es : List (Event κ υ)) :
    (s.actAll es).Recorded := by
  induction es generalizing s with
  | nil => exact h
  | cons e es ih => exact ih (h.act hwf e) (hwf.act e)

end Recorded

/-! ### What an attempt achieves -/

section Succeeded

variable {s s' : Store κ υ} {t : TxnRef} {i : Nat} {op : Operation κ υ} {progress : Progress}
  {id : NodeId}

namespace WellFormed

/-- The node of an attempt that succeeds carries the stamp of the operation or of a later one. -/
theorem node_of_attempt (h : s.WellFormed) (hattempt : s.attempt t i op = (s', progress))
    (hnode : progress.node? = some id) :
    ∃ n ∈ s'.chain, n.id = id ∧ n.key = op.key ∧ n.stamp.owner = t ∧ i ≤ n.stamp.index := by
  have hcases := h.attempted t i op
  rw [hattempt] at hcases
  cases hcases with
  | blocked _ _ _ _ => cases hnode
  | @repeated n hn hkey hown hle =>
      exact ⟨n, by simpa using hn, Option.some.inj hnode, hkey, hown, hle⟩
  | @stamped n after hn hkey _ _ _ =>
      have hmem := (h.searched op.key).mem_stampNode hn t i after
      rw [← chain_publish _ t i op n.id after] at hmem
      exact ⟨_, hmem, Option.some.inj hnode, hkey, rfl, Nat.le_refl i⟩
  | @linked c after hplace _ _ =>
      have hmem := mem_linkNode hplace.chain t i op.key after
      rw [← chain_publish _ t i op s.nextNode after] at hmem
      exact ⟨_, hmem, Option.some.inj hnode, rfl, rfl, Nat.le_refl i⟩
  | refused _ _ _ _ => cases hnode
  | missing _ _ => cases hnode

/-- An insertion that succeeds is on record. -/
theorem effect_of_attempt (h : s.WellFormed) (hop : (s.registry.get t).op? i = some op)
    (hattempt : s.attempt t i op = (s', progress)) (hnode : progress.node? = some id)
    (hinsert : op.kind = .insert) : ∃ id', (s'.registry.get t).effect? i = some id' := by
  -- Whatever node the operation is published for, it is on record after that.
  have hpublish : ∀ (x : Store κ υ) (id : NodeId) (after : Option υ),
      (x.registry.get t).op? i = some op →
      ∃ id', ((x.publish t i op id after).registry.get t).effect? i = some id' := by
    intro x id after hop
    have hnot : op.isFind → after.isSome := by simp [isFind, hinsert]
    exact (published_publish hop id hnot).1 hinsert
  have hcases := h.attempted t i op
  rw [hattempt] at hcases
  cases hcases with
  | blocked _ _ _ _ => cases hnode
  | @repeated n _ _ _ _ =>
      have hnot : (op.isFind && decide (n.stamp.index ≠ i)) = false := by simp [isFind, hinsert]
      rw [Store.republish, hnot]
      exact hpublish (s.searched op.key) _ _ hop
  | @stamped n after _ _ _ _ _ => exact hpublish ((s.searched op.key).stampNode t i n after) _ _ hop
  | @linked c after _ _ _ =>
      exact hpublish ((s.searched op.key).linkNode t i op.key after c) _ _ hop
  | refused _ _ _ _ => cases hnode
  | missing _ _ => cases hnode

/-- A lookup that succeeds is on record, or was performed before. -/
theorem read_of_attempt (h : s.WellFormed) (hop : (s.registry.get t).op? i = some op)
    (hattempt : s.attempt t i op = (s', progress)) (hnode : progress.node? = some id)
    (hfind : op.isFind) : (∃ v, (s'.registry.get t).read? i = some v) ∨
      ∃ n ∈ s.chain, n.stamp.owner = t ∧ i ≤ n.stamp.index := by
  have hcases := h.attempted t i op
  rw [hattempt] at hcases
  cases hcases with
  | blocked _ _ _ _ => cases hnode
  | @repeated n hn _ hown hle => exact Or.inr ⟨n, (mem_chain_drop.mp hn).1, hown, hle⟩
  | @stamped n after _ _ _ _ hafter =>
      have hpublished := published_publish (s := (s.searched op.key).stampNode t i n after) hop n.id
        fun hfind => (after?_eq_of_isFind hfind hafter).2
      exact Or.inl (hpublished.2 hfind)
  | linked _ _ hafter => simp [isFind, kind_of_after?_none hafter] at hfind
  | refused _ _ _ _ => cases hnode
  | missing _ _ => cases hnode

end WellFormed

end Succeeded

namespace Coherent

variable {s s' : Store κ υ} {t : TxnRef} {i : Nat} {op : Operation κ υ}

/-- **An attempt that succeeds** has performed and published the operation. -/
theorem achieved_of_attempt (h : s.Coherent) (hr : s.Recorded)
    (hop : (s.registry.get t).op? i = some op) (hactive : s.registry.isActive t)
    {progress : Progress} (hattempt : s.attempt t i op = (s', progress)) {id : NodeId}
    (hnode : progress.node? = some id) : s'.Completed t i op := by
  have hwf := h.wellFormed
  obtain ⟨n, hn, -, hkey, hown, hle⟩ := hwf.node_of_attempt hattempt hnode
  refine ⟨⟨n, hn, hkey, hown, hle⟩, hwf.effect_of_attempt hop hattempt hnode, fun hfind => ?_⟩
  rcases hwf.read_of_attempt hop hattempt hnode hfind with hread | ⟨m, hm, rfl, hle⟩
  · exact hread
  · -- If a later operation passed the lookup, it was published before that.
    have hread : ∃ v, (s.registry.get m.stamp.owner).read? i = some v := by
      rcases Nat.lt_or_eq_of_le hle with hlt | rfl
      · exact ((h.faithful m hm hactive).reached i hlt op hop).2.2 hfind
      · exact hr m hm hactive op hop hfind
    obtain ⟨v, hv⟩ := hread
    have hext := hwf.extends_attempt hop
    rw [hattempt] at hext
    exact ⟨v, hext.read_eq _ (Registry.lt_size_of_op? hop) i v hv⟩

/-- **An attempt that is blocked** names a position up to which the owner of the node has performed
and published its operations. -/
theorem reached_of_blocked (h : s.Coherent) (hr : s.Recorded) {owner : TxnRef} {resume : Nat}
    (hattempt : s.attempt t i op = (s', .blocked owner resume)) : s'.Reached owner resume := by
  have hcases := h.wellFormed.attempted t i op
  rw [hattempt] at hcases
  cases hcases with
  | @blocked n hn _ _ hactive =>
      have hmem := (mem_chain_drop.mp hn).1
      have hreached := ((h.searched op.key).faithful n hn hactive).reached
      have hkeeps : (s.searched op.key).Keeps
          ((s.searched op.key).noteEffect n.stamp.owner n.stamp.index n.id) n.stamp.owner :=
        { nodes := fun m hm _ => ⟨m, by simpa using hm, .refl m⟩
          registry := WellFormed.extends_noteEffect .. }
      refine (hkeeps.reached (h.wellFormed.owner_lt hmem) hreached).succ fun op' hop' => ?_
      have hslots := (s.searched op.key).slotsOnly_noteEffect n.stamp.owner n.stamp.index n.id
      rw [Transaction.op?_congr (hslots.ops_eq _)] at hop'
      refine ⟨⟨n, by simpa using hn, ?_, rfl, Nat.le_refl _⟩, fun hinsert => ?_, fun hfind => ?_⟩
      · exact (h.wellFormed.key_eq hmem hop').symm
      · have hkind : ((s.searched op.key).registry.get n.stamp.owner).kind? n.stamp.index =
            some .insert := by
          rw [Transaction.kind?, hop', Option.map_some, hinsert]
        rw [effect?_noteEffect, if_pos ⟨rfl, rfl, hkind⟩]
        cases ((s.searched op.key).registry.get n.stamp.owner).effect? n.stamp.index with
        | none => exact ⟨n.id, rfl⟩
        | some id => exact ⟨id, rfl⟩
      · obtain ⟨v, hv⟩ := hr n hmem hactive op' hop' hfind
        exact ⟨v, by rw [read?_noteEffect]; exact hv⟩

end Coherent

end Store

/-- An operation is done once it was performed and published. -/
def Standard.published : Standard κ υ where
  Holds s := s.Coherent ∧ s.Recorded
  Did := Store.Completed
  wellFormed h := h.1.wellFormed
  lasting h es hop hactive hdid := by
    have hkeeps := h.1.wellFormed.keeps_actAll es hactive
    exact ⟨hkeeps.performed hdid.1, hkeeps.published hop hdid.2⟩
  achieved h hop hactive hattempt hnode := h.1.achieved_of_attempt h.2 hop hactive hattempt hnode
  reached h hattempt := h.1.reached_of_blocked h.2 hattempt
  act h he := ⟨h.1.act he, h.2.act h.1.wellFormed _⟩

namespace Drive

/-! ### Threads that help -/

/-- A thread has performed and published all that lies behind it, for each transaction it drives. -/
structure Orderly (d : Drive κ υ) : Prop where
  coherent : d.store.Coherent
  recorded : d.store.Recorded
  reached : ∀ f ∈ d.stack.frames, f.failed = false → d.store.registry.isActive f.txn →
    d.store.Reached f.txn f.next

/-- Orderly threads are those that keep to the standard. -/
theorem orderly_iff {d : Drive κ υ} : d.Orderly ↔ d.Tracks .published :=
  ⟨fun h => ⟨⟨h.coherent, h.recorded⟩, h.reached⟩, fun h => ⟨h.holds.1, h.holds.2, h.behind⟩⟩

namespace Orderly

/-- A thread that has just been set to work is orderly. -/
theorem ofRoot {s : Store κ υ} (h : s.Coherent) (hr : s.Recorded) (t : TxnRef) :
    Orderly ⟨s, .ofRoot t⟩ :=
  orderly_iff.mpr (Tracks.ofRoot (P := .published) ⟨h, hr⟩ t)

/-- **Every round keeps a thread orderly.** -/
theorem advance {d d' : Drive κ υ} (h : d.Orderly) (hadvance : d.advance = some d') :
    d'.Orderly :=
  orderly_iff.mpr ((orderly_iff.mp h).advance hadvance)

end Orderly

end Drive

end AtomicSet
