import AtomicSet.Proofs.Helping.ExactlyOnce
import AtomicSet.Proofs.Helping.Legal

/-!
# Transactions are isolated

What an active transaction did so far is seen by itself alone. On every key it sees what its
operations so far, whoever performed them, leave of the live entries. Everybody else sees the live
entries: the snapshot, transactions that are over, and active transactions on every key on which
they performed nothing themselves. No two active transactions performed something on the same key.

An operation counts as performed once an attempt at it was answered by a success, be it in the loop
of a thread that helps, or once a late thread linked its node while the transaction was active.

## Main definitions

* `Store.view` — what a key holds as seen by a transaction, or by the snapshot.
* `Store.Performs`, `Store.Ran` — an event, or one of several, performs an operation.
* `Store.Isolated` — who sees what.

## Main results

* `Store.WellFormed.performed_of_ran`, `Store.Coherent.performed_or_ran` — an operation of an active
  transaction carries a stamp exactly if some event performed it.
* `Store.Coherent.exists_performed_iff` — the operations performed so far are the first ones.
* `Store.Coherent.replay_view` — what a transaction sees.
* `HelpingSession.Legal.isolated` — transactions are isolated in legal runs.
-/

namespace AtomicSet

open Operation

variable {κ υ : Type} [LinearOrder κ]

namespace Store

/-! ### What is seen -/

/-- What the key `k` holds as seen by `viewer`: what its node holds, and nothing without a node. -/
def view (s : Store κ υ) (viewer : Option TxnRef) (k : κ) : Option υ :=
  (s.chain.find? fun n => n.key = k).bind (s.resolve viewer)

/-- Everybody sees nothing where there is no node. -/
theorem view_of_absent {s : Store κ υ} {k : κ} (h : ∀ n ∈ s.chain, n.key ≠ k)
    (viewer : Option TxnRef) : s.view viewer k = none := by
  have hnone : s.chain.find? (fun n => n.key = k) = none := by simpa using h
  rw [view, hnone]
  rfl

omit [LinearOrder κ] in
/-- Who owns no stamp of an active transaction sees what the snapshot shows. -/
theorem resolve_eq_of_not_owned {s : Store κ υ} {n : Node κ υ} {u : TxnRef}
    (h : n.stamp.owner = u → s.registry.isActive u = false) :
    s.resolve (some u) n = s.resolve none n := by
  rw [resolve, resolve]
  congr 1
  rw [Stamp.content, Stamp.content]
  cases hstatus : s.registry.status n.stamp.owner with
  | committed => rfl
  | aborted => rfl
  | active =>
      have hne : some u ≠ some n.stamp.owner := by
        rintro hown
        obtain rfl := Option.some.inj hown
        have hdecided := h rfl
        rw [Registry.isActive_iff.mpr hstatus] at hdecided
        cases hdecided
      simp [hne]

omit [LinearOrder κ] in
/-- Its owner sees what an active transaction left on a node. -/
theorem resolve_owner {s : Store κ υ} {n : Node κ υ} (hactive : s.registry.isActive n.stamp.owner) :
    s.resolve (some n.stamp.owner) n = n.stamp.after := by
  rw [resolve, isStale_of_isActive hactive]
  rw [Registry.isActive_iff] at hactive
  simp [Stamp.content, Registry.status, hactive]

namespace WellFormed

variable {s : Store κ υ}

/-- Where there is a node, everybody sees what it holds for them. -/
theorem view_of_mem (h : s.WellFormed) {n : Node κ υ} (hn : n ∈ s.chain) (viewer : Option TxnRef) :
    s.view viewer n.key = s.resolve viewer n := by
  rw [view]
  cases hfind : s.chain.find? fun m => m.key = n.key with
  | none => exact absurd (List.find?_eq_none.mp hfind n hn) (by simp)
  | some m =>
      have hmkey : m.key = n.key := by simpa using List.find?_some hfind
      obtain rfl := h.eq_of_key (List.mem_of_find?_eq_some hfind) hn hmkey
      rfl

/-- The snapshot shows the live entries. -/
theorem view_none (h : s.WellFormed) (k : κ) : s.view none k = s.contents k := by
  by_cases hex : ∃ n ∈ s.chain, n.key = k
  · obtain ⟨n, hn, rfl⟩ := hex
    rw [h.view_of_mem hn, h.contents_of_mem hn rfl]
  · rw [view_of_absent fun n hn hkey => hex ⟨n, hn, hkey⟩,
      contents_of_absent fun n hn hkey => hex ⟨n, hn, hkey⟩]

end WellFormed

/-! ### What was performed -/

/-- At this event the operation of `t` at position `i` is performed, now or before: it is attempted
with success, or its node is linked late while `t` is active. -/
def Performs (s : Store κ υ) (t : TxnRef) (i : Nat) : Event κ υ → Prop
  | .attempt u j => u = t ∧ j = i ∧ ∃ op id, (s.registry.get t).op? i = some op ∧
      (s.attempt t i op).2.node? = some id
  | .linkLate u j => u = t ∧ j = i ∧ s.registry.isActive t ∧
      ∃ s', HelpingSession.linkLate s t i = .ok (s', true)
  | .allocate _ | .settle _ _ _ | .sweep _ | .resetTally => False

/-- One of the events performs the operation of `t` at position `i`. -/
def Ran (s : Store κ υ) (t : TxnRef) (i : Nat) : List (Event κ υ) → Prop
  | [] => False
  | e :: es => s.Performs t i e ∨ (s.act e).Ran t i es

namespace WellFormed

variable {s : Store κ υ} {t : TxnRef} {i : Nat}

/-- An event that performs an operation leaves a stamp for it. -/
theorem performed_of_performs (h : s.WellFormed) {e : Event κ υ} (he : s.Performs t i e) :
    ∃ op, ((s.act e).registry.get t).op? i = some op ∧ (s.act e).Performed t i op := by
  cases e with
  | allocate ops => exact he.elim
  | attempt u j =>
      obtain ⟨rfl, rfl, op, id, hop, hnode⟩ := he
      have hdone := h.done_of_attempt hop hnode
      obtain ⟨n, hn, -, hkey, hown, hle⟩ := hdone.node
      rw [Drive.act_attempt hop]
      exact ⟨op, hdone.op_eq, n, hn, hkey, hown, hle⟩
  | settle u final fake => exact he.elim
  | sweep f => exact he.elim
  | linkLate u j =>
      obtain ⟨rfl, rfl, -, s', hlink⟩ := he
      rw [Store.act]
      rcases h.linkLate_cases u j with ⟨fault, heq⟩ | heq | ⟨k, v, c, hop, hplace, heq⟩
      · rw [heq] at hlink
        cases hlink
      · rw [heq] at hlink
        cases hlink
      · rw [heq]
        exact ⟨_, hop, _, mem_linkNode hplace.chain u j k (some v), rfl, rfl, Nat.le_refl j⟩
  | resetTally => exact he.elim

/-- **What was performed carries a stamp**, as long as its transaction is active. -/
theorem performed_of_ran (h : s.WellFormed) {es : List (Event κ υ)} (hran : s.Ran t i es)
    (hactive : (s.actAll es).registry.isActive t) :
    ∃ op, ((s.actAll es).registry.get t).op? i = some op ∧ (s.actAll es).Performed t i op := by
  induction es generalizing s with
  | nil => exact hran.elim
  | cons e es ih =>
      rcases hran with hnow | hlater
      · obtain ⟨op, hop, hperformed⟩ := h.performed_of_performs hnow
        exact ⟨op, ((h.act e).extends_actAll es).op?_eq hop,
          ((h.act e).keeps_actAll es hactive).performed hperformed⟩
      · exact ih (h.act e) hlater hactive

end WellFormed

namespace Coherent

variable {s : Store κ υ} {t : TxnRef} {i : Nat} {op : Operation κ υ}

/-- A stamp of a transaction is there from before, or the event puts it there. In the latter case
the event performs the operation of the stamp; the earlier ones were performed before. -/
theorem performed_or_performs (h : s.Coherent) {e : Event κ υ} (he : s.Admissible e)
    (hactive : (s.act e).registry.isActive t) (hop : ((s.act e).registry.get t).op? i = some op)
    (hperformed : (s.act e).Performed t i op) :
    (s.registry.get t).op? i = some op ∧ s.Performed t i op ∨ s.Performs t i e := by
  have hwf := h.wellFormed
  have hext := hwf.extends_act e
  obtain ⟨n, hn, hkey, hown, hle⟩ := hperformed
  have hsame : t < s.registry.size → (s.registry.get t).op? i = some op := fun ht => by
    rw [← Transaction.op?_congr (hext.ops_eq t ht)]
    exact hop
  have hold : n ∈ s.chain → (s.registry.get t).op? i = some op ∧ s.Performed t i op := fun hmem =>
    ⟨hsame (hown ▸ hwf.owner_lt hmem), n, hmem, hkey, hown, hle⟩
  -- A new stamp is that of position `i`, or of a later one; then `i` was reached before.
  have hnew : ∀ j, t < s.registry.size → (s.registry.isActive t → s.Reached t j) → i ≤ j →
      ((s.registry.get t).op? j ≠ none → s.Performs t j e) →
      (s.registry.get t).op? i = some op ∧ s.Performed t i op ∨ s.Performs t i e := by
    intro j ht hreached hij hperforms
    rcases Nat.lt_or_eq_of_le hij with hlt | rfl
    · have hbefore := hext.isActive_of_isActive ht hactive
      exact Or.inl ⟨hsame ht, (hreached hbefore i hlt op (hsame ht)).1⟩
    · exact Or.inr (hperforms (by simp [hsame ht]))
  cases e with
  | allocate ops => exact Or.inl (hold hn)
  | attempt u j =>
      cases huop : (s.registry.get u).op? j with
      | none =>
          rw [Drive.act_attempt_of_none huop] at hn
          exact Or.inl (hold hn)
      | some op' =>
          rw [Drive.act_attempt huop] at hn
          rcases hwf.stamp_of_mem_chain_attempt (Prod.mk.eta (p := s.attempt u j op')).symm hn with
            hmem | ⟨⟨huown, hindex⟩, hnode⟩
          · exact Or.inl (hold hmem)
          · obtain rfl : u = t := huown.symm.trans hown
            rw [hindex] at hle
            exact hnew j (Registry.lt_size_of_op? huop) he hle fun _ =>
              ⟨rfl, rfl, op', _, huop, hnode⟩
  | settle u final fake => exact Or.inl (hold (by simpa [Store.act] using hn))
  | sweep f => exact Or.inl (hold (hwf.mem_of_mem_sweep hn))
  | linkLate u j =>
      rw [Store.act] at hn
      rcases hwf.linkLate_cases u j with ⟨fault, heq⟩ | heq | ⟨k, v, c, huop, hplace, heq⟩
      · rw [heq] at hn
        exact Or.inl (hold hn)
      · rw [heq] at hn
        exact Or.inl (hold hn)
      · rw [heq] at hn
        rcases (WellFormed.mem_chain_linkNode hplace.chain).mp hn with hmem | rfl
        · exact Or.inl (hold hmem)
        · obtain rfl : u = t := hown
          have ht := Registry.lt_size_of_op? huop
          exact hnew j ht he hle fun _ =>
            ⟨rfl, rfl, hext.isActive_of_isActive ht hactive, _, heq⟩
  | resetTally => exact Or.inl (hold hn)

/-- **What carries a stamp was performed**, before the events or by one of them. -/
theorem performed_or_ran (h : s.Coherent) {es : List (Event κ υ)} (hes : s.Along Admissible es)
    (hactive : (s.actAll es).registry.isActive t)
    (hop : ((s.actAll es).registry.get t).op? i = some op)
    (hperformed : (s.actAll es).Performed t i op) :
    (s.registry.get t).op? i = some op ∧ s.Performed t i op ∨ s.Ran t i es := by
  induction es generalizing s with
  | nil => exact Or.inl ⟨hop, hperformed⟩
  | cons e es ih =>
      have hnext := h.act hes.1
      rcases ih hnext hes.2 hactive hop hperformed with ⟨hop', hperformed'⟩ | hlater
      · have hactive' := (hnext.wellFormed.extends_actAll es).isActive_of_isActive
          (Registry.lt_size_of_op? hop') hactive
        rcases h.performed_or_performs hes.1 hactive' hop' hperformed' with hbefore | hnow
        · exact Or.inl hbefore
        · exact Or.inr (Or.inl hnow)
      · exact Or.inr (Or.inr hlater)

/-- **The operations that were performed are the first ones** of their transaction. -/
theorem exists_performed_iff (h : s.Coherent) (hactive : s.registry.isActive t) :
    ∃ m, ∀ i, (∃ op, (s.registry.get t).op? i = some op ∧ s.Performed t i op) ↔ i < m := by
  classical
  -- The first position at which nothing was performed.
  have hend : ∃ m, ¬∃ op, (s.registry.get t).op? m = some op ∧ s.Performed t m op := by
    refine ⟨(s.registry.get t).size, ?_⟩
    rintro ⟨op, hop, -⟩
    exact absurd (Transaction.lt_size_of_op? hop) (Nat.lt_irrefl _)
  refine ⟨Nat.find hend, fun i => ⟨?_, fun hi => not_not.mp (Nat.find_min hend hi)⟩⟩
  rintro ⟨op, hop, n, hn, hkey, rfl, hle⟩
  by_contra hnot
  rw [Nat.not_lt] at hnot
  apply Nat.find_spec hend
  generalize Nat.find hend = m at hnot
  have hlt : m < (s.registry.get n.stamp.owner).size :=
    Nat.lt_of_le_of_lt hnot (Transaction.lt_size_of_op? hop)
  obtain ⟨op', hop'⟩ := Option.ne_none_iff_exists'.mp
    fun hnone => absurd ((Transaction.op?_eq_none_iff _ m).mp hnone) (Nat.not_le.mpr hlt)
  refine ⟨op', hop', ?_⟩
  rcases Nat.lt_or_eq_of_le hnot with hlt | rfl
  · exact ((h.faithful n hn hactive).reached m (by omega) op' hop').1
  · obtain rfl := Option.some.inj (hop.symm.trans hop')
    exact ⟨n, hn, hkey, rfl, hle⟩

/-- **What a transaction sees** on a key is what its operations so far leave of the live entries. -/
theorem replay_view (h : s.Coherent) (hactive : s.registry.isActive t) {m : Nat}
    (hm : ∀ i, (∃ op, (s.registry.get t).op? i = some op ∧ s.Performed t i op) ↔ i < m) (k : κ) :
    replay k ((s.registry.get t).ops.take m) (s.contents k) = some (s.view (some t) k) := by
  have hwf := h.wellFormed
  have hperformed : ∀ l < m, ∀ op, (s.registry.get t).op? l = some op → s.Performed t l op := by
    intro l hl op hop
    obtain ⟨op', hop', hperformed⟩ := (hm l).mpr hl
    obtain rfl := Option.some.inj (hop.symm.trans hop')
    exact hperformed
  by_cases hex : ∃ n ∈ s.chain, n.key = k
  · obtain ⟨n, hn, rfl⟩ := hex
    rw [hwf.contents_of_mem hn rfl, hwf.view_of_mem hn]
    by_cases hown : n.stamp.owner = t
    · subst hown
      obtain ⟨op, hop, hkey⟩ := hwf.stamped n hn
      have hlt : n.stamp.index < m := (hm _).mp ⟨op, hop, n, hn, hkey.symm, rfl, Nat.le_refl _⟩
      rw [resolve_of_isActive hactive, resolve_owner hactive]
      exact h.replay_of_owned hn hactive hlt hperformed
    · rw [resolve_eq_of_not_owned fun heq => absurd heq hown]
      exact h.replay_of_not_owned hperformed hn hown _
  · have habsent : ∀ n ∈ s.chain, n.key ≠ k := fun n hn hkey => hex ⟨n, hn, hkey⟩
    rw [contents_of_absent habsent, view_of_absent habsent]
    exact replay_of_absent hperformed habsent none

/-- Who performed nothing on a key sees what the snapshot shows. -/
theorem view_eq_of_not_performed (h : s.Coherent) {u : TxnRef} {k : κ}
    (hnot : s.registry.isActive u → ∀ i op, (s.registry.get u).op? i = some op → op.key = k →
      ¬s.Performed u i op) : s.view (some u) k = s.contents k := by
  have hwf := h.wellFormed
  by_cases hex : ∃ n ∈ s.chain, n.key = k
  · obtain ⟨n, hn, rfl⟩ := hex
    rw [hwf.contents_of_mem hn rfl, hwf.view_of_mem hn]
    refine resolve_eq_of_not_owned ?_
    rintro rfl
    rw [← Bool.not_eq_true]
    intro hactive
    obtain ⟨op, hop, hkey⟩ := hwf.stamped n hn
    exact hnot hactive _ op hop hkey ⟨n, hn, hkey.symm, rfl, Nat.le_refl _⟩
  · rw [view_of_absent fun n hn hkey => hex ⟨n, hn, hkey⟩,
      contents_of_absent fun n hn hkey => hex ⟨n, hn, hkey⟩]

end Coherent

/-- Who sees what in the store that the events `es` lead to, where `live` is the map of the live
entries. -/
structure Isolated (s : Store κ υ) (es : List (Event κ υ)) (live : Contents κ υ) : Prop where
  lists : live.Lists s.entries
  /-- The snapshot shows the live entries. -/
  snapshot : ∀ k, s.view none k = live k
  /-- The operations of an active transaction that were performed so far are its first ones. They
  succeed on the live entries, and what they leave is what the transaction sees, on every key. -/
  own : ∀ t, s.registry.isActive t → ∃ m, (∀ i, Store.Ran {} t i es ↔ i < m) ∧
    ∃ seen reads, live.run ((s.registry.get t).ops.take m) = .ok (seen, reads) ∧
      ∀ k, s.view (some t) k = seen k
  /-- Where an active transaction performed an operation, every other one sees the live entries. -/
  others : ∀ t i op, s.registry.isActive t → (s.registry.get t).op? i = some op →
    Store.Ran {} t i es → ∀ u ≠ t, s.view (some u) op.key = live op.key
  /-- A transaction that is over, or performed nothing on a key, sees the live entries there. -/
  outside : ∀ u k, (s.registry.isActive u → ∀ i op, (s.registry.get u).op? i = some op →
    op.key = k → ¬Store.Ran {} u i es) → s.view (some u) k = live k

end Store

namespace HelpingSession

/-- In a legal run, an operation of an active transaction carries a stamp exactly if some event
performed it. -/
theorem Legal.ran_iff {s : HelpingSession κ υ} {log : List (Command κ υ × Reply κ υ)}
    {es : List (Event κ υ)} (h : Legal s log es) {t : TxnRef}
    (hactive : s.store.registry.isActive t) (i : Nat) :
    Store.Ran {} t i es ↔
      ∃ op, (s.store.registry.get t).op? i = some op ∧ s.store.Performed t i op := by
  have hfresh : ({} : Store κ υ).Coherent := .fresh
  rw [← h.actAll_eq] at hactive ⊢
  constructor
  · intro hran
    exact hfresh.wellFormed.performed_of_ran hran hactive
  · rintro ⟨op, hop, hperformed⟩
    rcases hfresh.performed_or_ran h.admissible hactive hop hperformed with ⟨-, hbefore⟩ | hran
    · obtain ⟨n, hn, -, -, -⟩ := hbefore
      cases hn
    · exact hran

/-- **Transactions are isolated.** After a legal run, each active transaction sees on every key what
its operations so far leave of the live entries, and everybody else sees the live entries. These
were not changed by any operation of a transaction, nor by any node that was linked late. -/
theorem Legal.isolated {s : HelpingSession κ υ} {log : List (Command κ υ × Reply κ υ)}
    {es : List (Event κ υ)} (h : Legal s log es) :
    (∃ live, s.store.Isolated es live) ∧
      ∀ pre e post, es = pre ++ e :: post →
        (∃ t i, e = .attempt t i ∨ e = .linkLate t i) →
        ((Store.actAll {} pre : Store κ υ).act e).entries = (Store.actAll {} pre).entries := by
  have hcoherent := h.disciplined.coherent
  have hwf := hcoherent.wellFormed
  refine ⟨⟨s.store.contents, hwf.lists_entries, hwf.view_none, fun t hactive => ?_,
    fun t i op hactive hop hran u hne => ?_, fun u k hnot => ?_⟩, fun pre e post heq hevent => ?_⟩
  · obtain ⟨m, hm⟩ := hcoherent.exists_performed_iff hactive
    refine ⟨m, fun i => (h.ran_iff hactive i).trans (hm i), s.store.view (some t), _,
      (Contents.run_eq_ok_iff ..).mpr ⟨hcoherent.replay_view hactive hm, rfl⟩, fun k => rfl⟩
  · obtain ⟨op', hop', hperformed⟩ := (h.ran_iff hactive i).mp hran
    obtain rfl := Option.some.inj (hop.symm.trans hop')
    obtain ⟨n, hn, hkey, hown, -⟩ := hperformed
    rw [← hkey, hwf.view_of_mem hn, hwf.contents_of_mem hn rfl]
    exact Store.resolve_eq_of_not_owned fun heq => absurd (heq.symm.trans hown) hne
  · refine hcoherent.view_eq_of_not_performed fun hactive i op hop hkey hperformed => ?_
    exact hnot hactive i op hop hkey ((h.ran_iff hactive i).mpr ⟨op, hop, hperformed⟩)
  · have hserial : (Store.actAll {} pre : Store κ υ).Serial e := by
      have hall : Store.Along Store.Serial {} es := Store.Coherent.along_serial .fresh h.admissible
      rw [heq] at hall
      exact hall.holds_at
    have hbefore : (Store.actAll {} pre : Store κ υ).WellFormed :=
      Store.WellFormed.fresh.actAll pre
    refine hserial.quiet fun t hactive hcommitted => ?_
    obtain ⟨fake, rfl⟩ := hbefore.eq_settle_of_committed hactive hcommitted
    obtain ⟨u, i, hevent | hevent⟩ := hevent
    · cases hevent
    · cases hevent

/-- Two crossing transactions, each stalled after an insertion, are isolated. Each sees what it has
inserted itself, and not what the other one has. -/
theorem isolated_crossing : ∃ log es, Legal crossing log es ∧
    (crossing.store.registry.isActive 0 ∧ Store.Ran {} 0 0 es ∧
      crossing.store.registry.isActive 1 ∧ Store.Ran {} 1 0 es) ∧
    (crossing.store.view (some 0) 1 = some 10 ∧ crossing.store.view (some 0) 2 = none ∧
      crossing.store.view (some 1) 1 = none ∧ crossing.store.view (some 1) 2 = some 21 ∧
      crossing.store.entries = []) ∧
    (∃ live, crossing.store.Isolated es live) ∧
      ∀ pre e post, es = pre ++ e :: post →
        (∃ t i, e = .attempt t i ∨ e = .linkLate t i) →
        ((Store.actAll {} pre : Store Nat Nat).act e).entries = (Store.actAll {} pre).entries := by
  obtain ⟨log, es, hlegal⟩ := legal_crossing
  have hfirst : Store.Ran {} 0 0 es :=
    (hlegal.ran_iff (by decide) 0).mpr ⟨.insert 1 10, rfl, _, .head _, rfl, rfl, Nat.le_refl 0⟩
  have hsecond : Store.Ran {} 1 0 es :=
    (hlegal.ran_iff (by decide) 0).mpr
      ⟨.insert 2 21, rfl, _, .tail _ (.head _), rfl, rfl, Nat.le_refl 0⟩
  exact ⟨log, es, hlegal, ⟨by decide, hfirst, by decide, hsecond⟩,
    ⟨by decide, by decide, by decide, by decide, by decide⟩, Legal.isolated hlegal⟩

end HelpingSession

end AtomicSet
