import AtomicSet.Proofs.Helping.Ownership

/-!
# Stamping one node again and again

A transaction may touch the same key with several of its operations. Each of them puts a stamp over
the one before it and hands the content of before on, which it finds in one place if that stamp is
its own and in another if it is somebody else's. What the first stamp found is what the last one
keeps, however long the chain is and whatever the stamps in between left: so there is nothing but
the status of the transaction between everybody and the content of before.

## Main definitions

* `Restamped` — a chain of stamps of one transaction, put over a stamp of another.
* `Store.Carries` — a node whose stamp is the last of such a chain.

## Main results

* `Restamped.before_eq` — the last stamp keeps the content that the first one found.
* `Restamped.survives` — who sees what while the transaction is active, and after it.
* `Store.WellFormed.carries_stampNode`, `Store.WellFormed.carries_actAll` — the engine puts such
  chains on its nodes, and nothing but stamps of the same transaction until that is decided.
-/

namespace AtomicSet

variable {κ υ : Type}

/-- Deciding a transaction takes nothing back. -/
theorem Registry.extends_finalize (r : Registry κ υ) (t : TxnRef) (final : Status) :
    r.Extends (r.modify t fun txn => txn.finalize final) := by
  refine ⟨Nat.le_of_eq (size_modify ..).symm, fun u _ => ?_, fun u _ hdecided => ?_,
    fun u _ i id hid => ?_, fun u _ i v hv => ?_⟩ <;> rw [get_modify] <;> split
  · exact Transaction.ops_finalize ..
  · rfl
  · rw [Transaction.finalize_of_not_active hdecided]
  · rfl
  · rw [Transaction.effect?_finalize, hid]
  · exact hid
  · rw [Transaction.read?_finalize, hv]
  · exact hv

/-! ### Stamps of transactions that are over -/

namespace Stamp

variable {r r' : Registry κ υ} {s : Stamp κ υ}

/-- Once the owner is over, everybody sees the same. -/
theorem content_eq_of_decided (hdecided : r.isActive s.owner = false) (viewer : Option TxnRef) :
    s.content r viewer = s.content r none := by
  rcases Registry.decided_of_not_active hdecided with hstatus | hstatus <;>
    rw [content, content, hstatus]

/-- Once the owner is over, what the key holds does not change any more. -/
theorem content_eq_of_extends (hr : r.Extends r') (hknown : s.owner < r.size)
    (hdecided : r.isActive s.owner = false) (viewer : Option TxnRef) :
    s.content r' viewer = s.content r none := by
  have hstatus : r'.status s.owner = r.status s.owner := hr.status_eq s.owner hknown hdecided
  rw [← content_eq_of_decided hdecided viewer, content, content, hstatus]

end Stamp

/-! ### Chains -/

/-- The stamps that the transaction `t` puts on a node one after another, the first of them over the
stamp `first` at the moment `r₀`. Each keeps the baseline of the one before it, as it is at the
moment at which it is put there, and any content for afterwards. -/
inductive Restamped (t : TxnRef) (first : Stamp κ υ) (r₀ : Registry κ υ) :
    Registry κ υ → Stamp κ υ → Prop where
  | start (i : Nat) (after : Option υ) :
      Restamped t first r₀ r₀ ⟨t, i, first.baseline r₀ t, after⟩
  | again {r r' : Registry κ υ} {s : Stamp κ υ} (chain : Restamped t first r₀ r s)
      (later : r.Extends r') (i : Nat) (after : Option υ) :
      Restamped t first r₀ r' ⟨t, i, s.baseline r' t, after⟩

namespace Restamped

variable {t : TxnRef} {first last : Stamp κ υ} {r₀ r₁ r : Registry κ υ}

/-- A chain of stamps ends with a stamp of its owner. -/
theorem owner_eq (h : Restamped t first r₀ r₁ last) : last.owner = t := by
  cases h <;> rfl

/-- Over a chain of stamps the registry is only extended. -/
theorem extends_first (h : Restamped t first r₀ r₁ last) : r₀.Extends r₁ := by
  induction h with
  | start => exact .refl r₀
  | again _ later _ _ ih => exact ih.trans later

/-- **The content of before is handed on** from the stamp of somebody else to the last one of the
chain. -/
theorem before_eq (h : Restamped t first r₀ r₁ last) (hforeign : first.owner ≠ t) :
    last.before = first.content r₀ none := by
  induction h with
  | start => exact if_neg hforeign
  | again chain _ _ _ ih =>
      rw [← ih]
      exact if_pos chain.owner_eq

/-- **The content of before survives any chain of stamps.** While the transaction is active it sees
what its last stamp leaves, and everybody else the content that the chain was put over; once it has
committed everybody sees the former, once it has aborted the latter, and that is also what the stamp
of any other transaction will then keep. -/
theorem survives (h : Restamped t first r₀ r₁ last) (hforeign : first.owner ≠ t)
    (hknown : first.owner < r₀.size) (hdecided : r₀.isActive first.owner = false)
    (hr : r₁.Extends r) :
    (∀ viewer, first.content r viewer = first.content r₀ none) ∧
    (r.status t = .active →
      last.content r (some t) = last.after ∧
      (∀ viewer, viewer ≠ some t → last.content r viewer = first.content r₀ none) ∧
      ∀ u, u ≠ t → last.baseline r u = first.content r₀ none) ∧
    (r.status t = .committed →
      (∀ viewer, last.content r viewer = last.after) ∧
      ∀ u, u ≠ t → last.baseline r u = last.after) ∧
    (r.status t = .aborted →
      (∀ viewer, last.content r viewer = first.content r₀ none) ∧
      ∀ u, u ≠ t → last.baseline r u = first.content r₀ none) := by
  have hbefore := h.before_eq hforeign
  obtain rfl := h.owner_eq
  have hbaseline : ∀ u, u ≠ last.owner → last.baseline r u = last.content r none :=
    fun u hu => if_neg (Ne.symm hu)
  refine ⟨Stamp.content_eq_of_extends (h.extends_first.trans hr) hknown hdecided, ?_, ?_, ?_⟩
  · intro hactive
    have hothers : ∀ viewer, viewer ≠ some last.owner →
        last.content r viewer = first.content r₀ none := fun viewer hviewer => by
      rw [Stamp.content, hactive, ← hbefore]
      exact if_neg hviewer
    refine ⟨?_, hothers, fun u hu => (hbaseline u hu).trans (hothers none nofun)⟩
    rw [Stamp.content, hactive]
    exact if_pos rfl
  · intro hcommitted
    have hall : ∀ viewer, last.content r viewer = last.after := fun viewer => by
      rw [Stamp.content, hcommitted]
    exact ⟨hall, fun u hu => (hbaseline u hu).trans (hall none)⟩
  · intro haborted
    have hall : ∀ viewer, last.content r viewer = first.content r₀ none := fun viewer => by
      rw [Stamp.content, haborted, ← hbefore]
    exact ⟨hall, fun u hu => (hbaseline u hu).trans (hall none)⟩

/-- A committed insertion of a key, a transaction that deletes the key, inserts it anew and looks it
up, and a third one. -/
def overwriting : Registry Nat Nat :=
  ⟨#[{ id := 0, status := .committed, steps := [{ op := .insert 1 10 }] },
    { id := 1, steps := [{ op := .delete 1 }, { op := .insert 1 20 }, { op := .find 1 }] },
    { id := 2, steps := [{ op := .find 1 }] }]⟩

/-- The registry once the third transaction has aborted. -/
def overwritingLater : Registry Nat Nat :=
  overwriting.modify 2 fun txn => txn.finalize .aborted

/-- The stamp that the insertion left. -/
def inserted : Stamp Nat Nat := ⟨0, 0, none, some 10⟩

/-- The third stamp of a chain, with the third transaction deciding itself in between. -/
theorem restamped_overwriting :
    Restamped 1 inserted overwriting overwritingLater ⟨1, 2, some 10, some 20⟩ :=
  .again (.again (.start 0 none) (overwriting.extends_finalize 2 .aborted) 1 (some 20)) (.refl _) 2
    (some 20)

/-- Three stamps of one transaction over a committed value: while the transaction is active, once it
has committed, and once it has aborted. -/
theorem survives_overwriting :
    Restamped 1 inserted overwriting overwritingLater ⟨1, 2, some 10, some 20⟩ ∧
    (inserted.owner ≠ 1 ∧ inserted.owner < overwriting.size ∧
      overwriting.isActive inserted.owner = false) ∧
    (let last : Stamp Nat Nat := ⟨1, 2, some 10, some 20⟩
    let committed := overwritingLater.modify 1 fun txn => txn.finalize .committed
    let aborted := overwritingLater.modify 1 fun txn => txn.finalize .aborted
    (last.content overwritingLater (some 1) = some 20 ∧
      (∀ viewer, viewer ≠ some 1 → last.content overwritingLater viewer = some 10) ∧
      ∀ u, u ≠ 1 → last.baseline overwritingLater u = some 10) ∧
    ((∀ viewer, last.content committed viewer = some 20) ∧
      ∀ u, u ≠ 1 → last.baseline committed u = some 20) ∧
    (∀ viewer, last.content aborted viewer = some 10) ∧
      ∀ u, u ≠ 1 → last.baseline aborted u = some 10) := by
  have hne : inserted.owner ≠ 1 := by decide
  have hlt : inserted.owner < overwriting.size := by decide
  have hover : overwriting.isActive inserted.owner = false := by decide
  refine ⟨restamped_overwriting, ⟨hne, hlt, hover⟩, ?_, ?_, ?_⟩
  · exact (survives restamped_overwriting hne hlt hover (.refl _)).2.1 (by decide)
  · exact (survives restamped_overwriting hne hlt hover
      (overwritingLater.extends_finalize 1 .committed)).2.2.1 (by decide)
  · exact (survives restamped_overwriting hne hlt hover
      (overwritingLater.extends_finalize 1 .aborted)).2.2.2 (by decide)

end Restamped

/-! ### Nodes that carry a chain -/

namespace Store

variable [LinearOrder κ]

/-- The node carries the last stamp of a chain that `t` has put over `first`, beginning at `r₀`. -/
def Carries (s : Store κ υ) (t : TxnRef) (first : Stamp κ υ) (r₀ : Registry κ υ) (n : Node κ υ) :
    Prop :=
  n ∈ s.chain ∧ ∃ r, Restamped t first r₀ r n.stamp ∧ r.Extends s.registry

namespace WellFormed

variable {s : Store κ υ} {t : TxnRef} {first : Stamp κ υ} {r₀ : Registry κ υ} {n : Node κ υ}

/-- A successful attempt begins a chain on a node whose owner is over. -/
theorem carries_stampNode (h : s.WellFormed) (hn : n ∈ s.chain) (i : Nat) (after : Option υ) :
    (s.stampNode t i n after).Carries t n.stamp s.registry
      { n with stamp := ⟨t, i, n.stamp.baseline s.registry t, after⟩ } :=
  ⟨(h.mem_chain_stampNode hn).mpr (Or.inr rfl), s.registry, .start i after, .refl _⟩

/-- An attempt leaves a chain of an active transaction, or makes it longer. -/
theorem carries_attempt (h : s.WellFormed) (hcarries : s.Carries t first r₀ n)
    (hactive : s.registry.isActive t) {u : TxnRef} {i : Nat} {op : Operation κ υ}
    (hop : (s.registry.get u).op? i = some op) :
    ∃ n', n'.id = n.id ∧ (s.attempt u i op).1.Carries t first r₀ n' := by
  obtain ⟨hn, r, hchain, hr⟩ := hcarries
  have hext := h.extends_attempt hop
  have howner := hchain.owner_eq
  subst howner
  have hn := mem_searched_of_isActive hn hactive op.key
  have hstays : ∀ {s' : Store κ υ}, n ∈ s'.chain → s.registry.Extends s'.registry →
      ∃ n', n'.id = n.id ∧ s'.Carries n.stamp.owner first r₀ n' :=
    fun hn' hext' => ⟨n, rfl, hn', r, hchain, hr.trans hext'⟩
  have hcases := h.attempted u i op
  generalize s.attempt u i op = result at hcases hext
  cases hcases with
  | blocked _ _ _ _ => exact hstays (by simpa using hn) hext
  | repeated _ _ _ _ => exact hstays (by simpa using hn) hext
  | @stamped m after hm _ hfree _ _ =>
      have hmem : ∀ a, a ∈ ((s.searched op.key).stampNode u i m after).chain ↔ _ :=
        fun a => (h.searched op.key).mem_chain_stampNode hm
      by_cases hid : n.id = m.id
      · obtain rfl := (h.searched op.key).eq_of_id hn hm hid
        rcases hfree with ⟨rfl, -⟩ | ⟨-, hdecided⟩
        · refine ⟨{ n with stamp := ⟨n.stamp.owner, i, n.stamp.baseline _ _, after⟩ }, rfl, ?_, _,
            hchain.again hr i after, hext⟩
          rw [chain_publish]
          exact (hmem _).mpr (Or.inr rfl)
        · exact absurd (hactive.symm.trans hdecided) (by decide)
      · refine hstays ?_ hext
        rw [chain_publish]
        exact (hmem n).mpr (Or.inl ⟨hn, hid⟩)
  | linked hplace _ _ =>
      refine hstays ?_ hext
      simp only [chain_publish, mem_chain_linkNode hplace.chain]
      exact Or.inl hn
  | refused _ _ _ _ => exact hstays hn hext
  | missing _ _ => exact hstays hn hext

/-- Any event leaves a chain of a transaction that stays active, or makes it longer. -/
theorem carries_act (h : s.WellFormed) (hcarries : s.Carries t first r₀ n) (e : Event κ υ)
    (hactive : (s.act e).registry.isActive t) :
    ∃ n', n'.id = n.id ∧ (s.act e).Carries t first r₀ n' := by
  obtain ⟨hn, r, hchain, hr⟩ := id hcarries
  have hext := h.extends_act e
  have hbefore := hext.isActive_of_isActive (hchain.owner_eq ▸ h.owner_lt hn) hactive
  have hstays : n ∈ (s.act e).chain → ∃ n', n'.id = n.id ∧ (s.act e).Carries t first r₀ n' :=
    fun hn' => ⟨n, rfl, hn', r, hchain, hr.trans hext⟩
  cases e with
  | allocate ops => exact hstays hn
  | attempt u i =>
      cases hop : (s.registry.get u).op? i with
      | none => exact hstays (by rwa [Drive.act_attempt_of_none hop])
      | some op =>
          rw [Drive.act_attempt hop]
          exact h.carries_attempt hcarries hbefore hop
  | settle u final fake => exact hstays (by simpa [Store.act] using hn)
  | sweep f => exact hstays (h.mem_chain_sweep_of_isActive hn (hchain.owner_eq ▸ hbefore) f)
  | linkLate u i =>
      refine hstays ?_
      rcases h.act_linkLate u i with heq | ⟨k, v, c, -, hplace, heq⟩
      · rw [heq]
        exact hn
      · rw [heq]
        exact (mem_chain_linkNode hplace.chain).mpr (Or.inl hn)
  | resetTally => exact hstays hn

/-- **Until its transaction is decided a chain stays on its node**, whatever happens. -/
theorem carries_actAll (h : s.WellFormed) (hcarries : s.Carries t first r₀ n)
    (es : List (Event κ υ)) (hactive : (s.actAll es).registry.isActive t) :
    ∃ n', n'.id = n.id ∧ (s.actAll es).Carries t first r₀ n' := by
  induction es generalizing s n with
  | nil => exact ⟨n, rfl, hcarries⟩
  | cons e es ih =>
      obtain ⟨hn, r, hchain, hr⟩ := id hcarries
      have hlt := Nat.lt_of_lt_of_le (hchain.owner_eq ▸ h.owner_lt hn) (h.extends_act e).size_le
      have hnext := ((h.act e).extends_actAll es).isActive_of_isActive hlt hactive
      obtain ⟨n', hid, hcarries'⟩ := h.carries_act hcarries e hnext
      obtain ⟨n'', hid', hcarries''⟩ := ih (h.act e) hcarries' hactive
      exact ⟨n'', hid'.trans hid, hcarries''⟩

end WellFormed

end Store

end AtomicSet
