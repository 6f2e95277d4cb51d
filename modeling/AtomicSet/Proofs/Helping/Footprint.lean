import AtomicSet.Proofs.Helping.Isolation

/-!
# What a transaction touches

The transactions of a store share one chain, and whatever is done for one of them rewires it. Still,
the nodes of other keys stay what they are, and so do the records of other transactions. What a key
holds, as seen by anybody, depends on the node of that key and on the record of that node's owner,
so nobody notices on one key what is done for a transaction that does not mention it.

An attempt that meets a node of another active transaction is the one exception: it puts that
transaction's insertion on record. It is not one here, since the transactions in question do not
meet.

## Main definitions

* `Mentions` — some operation is on the key.
* `Store.Confined` — only one transaction, and nodes of certain keys, may differ.

## Main results

* `Store.WellFormed.confined_attempt`, `Store.WellFormed.confined_finish` — what is done for a
  transaction is confined to it and to the keys that it mentions.
* `Store.Confined.view_eq` — nobody notices it on other keys.
-/

namespace AtomicSet

variable {κ υ : Type}

/-- Some operation is on the key. -/
def Mentions (ops : List (Operation κ υ)) (k : κ) : Prop :=
  ∃ op ∈ ops, op.key = k

namespace Store

/-! ### Records of other transactions -/

/-- A note of an effect leaves the other transactions. -/
theorem get_noteEffect_of_ne (s : Store κ υ) {t u : TxnRef} (h : u ≠ t) (i : Nat) (id : NodeId) :
    (s.noteEffect t i id).registry.get u = s.registry.get u := by
  rw [noteEffect]
  split
  · rw [modifyTxn, Registry.get_modify, if_neg fun heq => h heq.1.symm]
  · rfl

/-- Publishing leaves the other transactions. -/
theorem get_publish_of_ne (s : Store κ υ) {t u : TxnRef} (h : u ≠ t) (i : Nat)
    (op : Operation κ υ) (id : NodeId) (after : Option υ) :
    (s.publish t i op id after).registry.get u = s.registry.get u := by
  cases op with
  | insert k v => exact s.get_noteEffect_of_ne h i id
  | find k =>
      cases after with
      | none => rfl
      | some v => rw [publish, modifyTxn, Registry.get_modify, if_neg fun heq => h heq.1.symm]
  | delete k => rfl

/-- Deciding a transaction leaves the other ones. -/
theorem get_settle_of_ne (s : Store κ υ) {t u : TxnRef} (h : u ≠ t) (final : Status)
    (fake : Bool) : (s.settle t final fake).registry.get u = s.registry.get u := by
  rw [get_settle, if_neg (Ne.symm h)]

/-! ### What a node and a key hold -/

/-- What a node holds depends on the record of its owner only. -/
theorem resolve_congr {s s' : Store κ υ} {n : Node κ υ}
    (hget : s'.registry.get n.stamp.owner = s.registry.get n.stamp.owner)
    (viewer : Option TxnRef) : s'.resolve viewer n = s.resolve viewer n := by
  have hstale : s'.isStale n = s.isStale n := by simp only [isStale, hget]
  rw [resolve, resolve, hstale, Stamp.content, Stamp.content, Registry.status, Registry.status,
    hget]

/-- While its owner is active, it depends on nothing. -/
theorem resolve_congr_of_isActive {s s' : Store κ υ} {n : Node κ υ}
    (hactive : s.registry.isActive n.stamp.owner) (hactive' : s'.registry.isActive n.stamp.owner)
    (viewer : Option TxnRef) : s'.resolve viewer n = s.resolve viewer n := by
  rw [resolve, resolve, isStale_of_isActive hactive, isStale_of_isActive hactive']
  rw [Registry.isActive_iff] at hactive hactive'
  simp only [Stamp.content, Registry.status, hactive, hactive']

variable [LinearOrder κ]

/-- What a key holds depends on its node only. -/
theorem WellFormed.view_congr {s s' : Store κ υ} (h : s.WellFormed) (h' : s'.WellFormed) {k : κ}
    {viewer : Option TxnRef} (hmem : ∀ n : Node κ υ, n.key = k → (n ∈ s'.chain ↔ n ∈ s.chain))
    (hresolve : ∀ n ∈ s.chain, n.key = k → s'.resolve viewer n = s.resolve viewer n) :
    s'.view viewer k = s.view viewer k := by
  by_cases hex : ∃ n ∈ s.chain, n.key = k
  · obtain ⟨n, hn, rfl⟩ := hex
    rw [h'.view_of_mem ((hmem n rfl).mpr hn), h.view_of_mem hn, hresolve n hn rfl]
  · have habsent : ∀ n ∈ s.chain, n.key ≠ k := fun n hn hkey => hex ⟨n, hn, hkey⟩
    rw [view_of_absent habsent, view_of_absent fun n hn hkey =>
      habsent n ((hmem n hkey).mp hn) hkey]

/-! ### Confined changes -/

omit [LinearOrder κ] in
/-- Only the record of `t`, and nodes with keys that satisfy `P`, differ. -/
structure Confined (t : TxnRef) (P : κ → Prop) (s s' : Store κ υ) : Prop where
  size_eq : s'.registry.size = s.registry.size
  get_eq : ∀ u, u ≠ t → s'.registry.get u = s.registry.get u
  mem_iff : ∀ n : Node κ υ, ¬ P n.key → (n ∈ s'.chain ↔ n ∈ s.chain)

namespace Confined

variable {t : TxnRef} {P : κ → Prop} {s s₁ s' : Store κ υ}

omit [LinearOrder κ] in
/-- Doing nothing is confined to any keys. -/
theorem refl (t : TxnRef) (P : κ → Prop) (s : Store κ υ) : Confined t P s s :=
  ⟨rfl, fun _ _ => rfl, fun _ _ => Iff.rfl⟩

omit [LinearOrder κ] in
/-- Two changes that are confined to the same keys are so together. -/
theorem trans (h : Confined t P s s₁) (h' : Confined t P s₁ s') : Confined t P s s' where
  size_eq := h'.size_eq.trans h.size_eq
  get_eq u hu := (h'.get_eq u hu).trans (h.get_eq u hu)
  mem_iff n hn := (h'.mem_iff n hn).trans (h.mem_iff n hn)

omit [LinearOrder κ] in
/-- To publish for `t` writes to its record only. -/
theorem publish (t : TxnRef) (P : κ → Prop) (s : Store κ υ) (i : Nat) (op : Operation κ υ)
    (id : NodeId) (after : Option υ) : Confined t P s (s.publish t i op id after) where
  size_eq := (s.slotsOnly_publish t i op id after).size_eq
  get_eq _ hu := s.get_publish_of_ne hu i op id after
  mem_iff n _ := by rw [chain_publish]

omit [LinearOrder κ] in
/-- Deciding a transaction is confined to its own record. -/
theorem settle (t : TxnRef) (P : κ → Prop) (s : Store κ υ) (final : Status) (fake : Bool) :
    Confined t P s (s.settle t final fake) where
  size_eq := size_settle ..
  get_eq _ hu := s.get_settle_of_ne hu final fake
  mem_iff n _ := by rw [chain_settle]

omit [LinearOrder κ] in
/-- Nodes that are dropped are of the keys in question. -/
theorem drop (t : TxnRef) {p : Node κ υ → Bool} (hp : ∀ n ∈ s.chain, p n → P n.key) :
    Confined t P s (s.drop p) where
  size_eq := rfl
  get_eq _ _ := rfl
  mem_iff n hn := by
    rw [mem_chain_drop]
    exact ⟨And.left, fun hmem => ⟨hmem, Bool.eq_false_iff.mpr fun hpn => hn (hp n hmem hpn)⟩⟩

/-- **Nobody notices on other keys** what is confined to a transaction and to keys that include
those of its nodes. -/
theorem view_eq (h : Confined t P s s') (hwf : s.WellFormed) (hwf' : s'.WellFormed)
    (hown : ∀ n ∈ s.chain, n.stamp.owner = t → P n.key) (viewer : Option TxnRef) {k : κ}
    (hk : ¬ P k) : s'.view viewer k = s.view viewer k := by
  refine hwf.view_congr hwf' (fun n hn => h.mem_iff n (hn ▸ hk)) fun n hn hkey => ?_
  exact resolve_congr (h.get_eq _ fun heq => hk (hkey ▸ hown n hn heq)) viewer

/-- A key that a transaction has nothing to do with holds what it held. -/
theorem contents_eq (h : Confined t P s s') (hwf : s.WellFormed) (hwf' : s'.WellFormed)
    (hown : ∀ n ∈ s.chain, n.stamp.owner = t → P n.key) {k : κ} (hk : ¬ P k) :
    s'.contents k = s.contents k := by
  rw [← hwf.view_none, ← hwf'.view_none, h.view_eq hwf hwf' hown none hk]

end Confined

namespace WellFormed

variable {s : Store κ υ} {t : TxnRef} {P : κ → Prop}

/-- The nodes of a transaction are of keys that it mentions. -/
theorem mentions_of_owner (h : s.WellFormed) {n : Node κ υ} (hn : n ∈ s.chain)
    (hown : n.stamp.owner = t) : Mentions (s.registry.get t).ops n.key := by
  obtain ⟨op, hop, hkey⟩ := h.stamped n hn
  rw [hown, Transaction.op?_eq] at hop
  exact ⟨op, List.mem_of_getElem? hop, hkey⟩

/-- A search for a key is confined to it. -/
theorem confined_searched (s : Store κ υ) (t : TxnRef) {k : κ} (hk : P k) :
    Confined t P s (s.searched k) := by
  refine .drop t fun n _ hn => ?_
  rw [Bool.and_eq_true, decide_eq_true_eq] at hn
  exact hn.1 ▸ hk

/-- **An attempt that is not blocked** is confined to its transaction and key. -/
theorem confined_attempt (h : s.WellFormed) {i : Nat} {op : Operation κ υ} {s' : Store κ υ}
    {progress : Progress} (hattempt : s.attempt t i op = (s', progress))
    (hgo : ∀ owner resume, progress ≠ .blocked owner resume) (hP : P op.key) :
    Confined t P s s' := by
  have hsearched : Confined t P s (s.searched op.key) := confined_searched s t hP
  have hwf := h.searched op.key
  have hcases := h.attempted t i op
  rw [hattempt] at hcases
  cases hcases with
  | blocked _ _ _ _ => exact absurd rfl (hgo _ _)
  | repeated _ _ _ _ =>
      refine hsearched.trans ?_
      rw [Store.republish]
      split
      · exact .refl t P _
      · exact .publish t P _ ..
  | @stamped n after hn hkey _ _ _ =>
      have hstamped : Confined t P (s.searched op.key)
          ((s.searched op.key).stampNode t i n after) := by
        refine ⟨rfl, fun _ _ => rfl, fun m hm => ?_⟩
        rw [hwf.mem_chain_stampNode hn]
        refine ⟨fun hmem => ?_, fun hmem => Or.inl ⟨hmem, fun hid => hm ?_⟩⟩
        · refine (hmem.resolve_right ?_).1
          rintro rfl
          exact hm (hkey ▸ hP)
        · rw [hwf.eq_of_id hmem hn hid, hkey]
          exact hP
      exact (hsearched.trans hstamped).trans (.publish t P _ i op n.id after)
  | @linked c after hplace _ _ =>
      have hlinked : Confined t P (s.searched op.key)
          ((s.searched op.key).linkNode t i op.key after c) := by
        refine ⟨rfl, fun _ _ => rfl, fun m hm => ?_⟩
        rw [mem_chain_linkNode hplace.chain]
        refine ⟨fun hmem => hmem.resolve_right ?_, Or.inl⟩
        rintro rfl
        exact hm hP
      exact (hsearched.trans hlinked).trans (.publish t P _ i op _ after)
  | refused _ _ _ _ => exact hsearched
  | missing _ _ => exact hsearched

/-- A sweep is confined to the keys of the nodes of its transaction. -/
theorem confined_sweep (h : s.WellFormed) (f : Frame)
    (hown : ∀ n ∈ s.chain, n.stamp.owner = f.txn → P n.key) : Confined f.txn P s (s.sweep f) := by
  refine (h.sweep_induction (f := f) (P := fun s' => Confined f.txn P s s' ∧
    ∀ n ∈ s'.chain, n ∈ s.chain) ⟨.refl f.txn P s, fun _ hn => hn⟩ fun s' _ _ hs' id => ?_).1
  obtain ⟨hconfined, hsub⟩ := hs'
  refine ⟨hconfined.trans (.drop f.txn fun n hn hgone => ?_), fun n hn =>
    hsub n (mem_chain_drop.mp hn).1⟩
  simp only [sweepable, Bool.and_eq_true, Stamp.isOwnedBy, decide_eq_true_eq] at hgone
  exact hown n (hsub n hn) hgone.2.1

/-- **Finishing a frame** is confined to its transaction and the keys of that one's nodes. -/
theorem confined_finish (h : s.WellFormed) (f : Frame)
    (hown : ∀ n ∈ s.chain, n.stamp.owner = f.txn → P n.key) : Confined f.txn P s (s.finish f) := by
  have hsettled : ∀ final, Confined f.txn P s ((s.settle f.txn final false).sweep f) :=
    fun final => (Confined.settle f.txn P s final false).trans
      ((h.settle f.txn final false).confined_sweep f (by rwa [chain_settle]))
  rw [Store.finish]
  split
  · exact hsettled .aborted
  · split
    · exact hsettled .committed
    · exact h.confined_sweep f hown

end WellFormed

end Store

end AtomicSet
