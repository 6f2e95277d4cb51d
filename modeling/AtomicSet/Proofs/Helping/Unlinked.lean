import AtomicSet.Proofs.Helping.Serial

/-!
# What becomes of nodes

A node is linked once. From then on it is in the chain, with the same name and the same key, until
it is unlinked; then it is out of use for good: both of its marks are set, nothing is written to it
any more, and no later node of the chain has its name. None of this depends on what is asked of a
store or in which order, and neither does the shape of the chain: its keys ascend strictly, and the
live entries are what its nodes hold, those nodes left out that hold nothing.

## Main definitions

* `Store.Retains` — no node of an earlier moment is lost.
* `Store.Ordered` — the shape of the chain, and how the live entries lie in it.

## Main results

* `Store.WellFormed.retains_actAll` — no events lose a node.
* `Store.WellFormed.ordered` — the chain of a well-formed store has its shape.
* `HelpingSession.Run.keeps_order` — both hold at all moments of all runs.
-/

namespace AtomicSet

variable {κ υ : Type}

namespace Store

/-- The nodes of `s` are all there in `s'`: those of the chain are linked or unlinked, and those
that were unlinked are as they were. -/
structure Retains (s s' : Store κ υ) : Prop where
  linked : ∀ n ∈ s.chain, ∃ n' ∈ s'.chain ++ s'.unlinked, n'.id = n.id ∧ n'.key = n.key
  unlinked : s.unlinked <:+ s'.unlinked

namespace Retains

variable {s s' s'' : Store κ υ}

/-- A store whose nodes are the same retains them. -/
theorem of_eq (hchain : s'.chain = s.chain) (hunlinked : s'.unlinked = s.unlinked) :
    s.Retains s' where
  linked n hn := ⟨n, List.mem_append_left _ (hchain ▸ hn), rfl, rfl⟩
  unlinked := hunlinked ▸ List.suffix_rfl

/-- A store retains what it holds itself. -/
theorem refl (s : Store κ υ) : s.Retains s :=
  .of_eq rfl rfl

/-- What is retained up to one moment and from there to another is retained up to that one. -/
theorem trans (h : s.Retains s') (h' : s'.Retains s'') : s.Retains s'' where
  linked n hn := by
    obtain ⟨n', hn', hid, hkey⟩ := h.linked n hn
    rcases List.mem_append.mp hn' with hchain | hunlinked
    · obtain ⟨n'', hn'', hid', hkey'⟩ := h'.linked n' hchain
      exact ⟨n'', hn'', hid'.trans hid, hkey'.trans hkey⟩
    · exact ⟨n', List.mem_append_right _ (h'.unlinked.mem hunlinked), hid, hkey⟩
  unlinked := h.unlinked.trans h'.unlinked

/-- Dropped nodes are unlinked. -/
theorem drop (s : Store κ υ) (p : Node κ υ → Bool) : s.Retains (s.drop p) where
  linked n hn := by
    cases hp : p n with
    | false => exact ⟨n, List.mem_append_left _ (mem_chain_drop.mpr ⟨hn, hp⟩), rfl, rfl⟩
    | true =>
        refine ⟨n.retire, List.mem_append_right _ (List.mem_append_left _ ?_), rfl, rfl⟩
        exact List.mem_map_of_mem (List.mem_filter.mpr ⟨hn, hp⟩)
  unlinked := List.suffix_append _ _

/-- Publishing writes to no node. -/
theorem publish (s : Store κ υ) (t : TxnRef) (i : Nat) (op : Operation κ υ) (id : NodeId)
    (after : Option υ) : s.Retains (s.publish t i op id after) := by
  rw [publish_eq]
  exact .of_eq rfl rfl

/-- To note an effect writes to no node. -/
theorem noteEffect (s : Store κ υ) (t : TxnRef) (i : Nat) (id : NodeId) :
    s.Retains (s.noteEffect t i id) := by
  rw [noteEffect_eq]
  exact .of_eq rfl rfl

/-- A node keeps its name and its key when it is stamped. -/
theorem stampNode (s : Store κ υ) (t : TxnRef) (i : Nat) (n : Node κ υ) (after : Option υ) :
    s.Retains (s.stampNode t i n after) where
  linked m hm := by
    refine ⟨_, List.mem_append_left _ (List.mem_map_of_mem hm), ?_⟩
    dsimp only
    split <;> exact ⟨rfl, rfl⟩
  unlinked := List.suffix_rfl

/-- The nodes of the chain stay there when a new one is linked. -/
theorem linkNode {c : Cursor (Node κ υ)} (hc : c.chain = s.chain) (t : TxnRef) (i : Nat) (k : κ)
    (after : Option υ) : s.Retains (s.linkNode t i k after c) where
  linked n hn :=
    ⟨n, List.mem_append_left _ ((WellFormed.mem_chain_linkNode hc).mpr (Or.inl hn)), rfl, rfl⟩
  unlinked := List.suffix_rfl

/-- To decide a transaction writes to no node. -/
theorem settle (s : Store κ υ) (t : TxnRef) (final : Status) (fake : Bool) :
    s.Retains (s.settle t final fake) := by
  rw [Store.settle]
  split
  · exact .of_eq rfl rfl
  · exact .refl s

end Retains

variable [LinearOrder κ]

namespace WellFormed

variable {s : Store κ υ}

/-- An attempt retains all nodes, also those that its search unlinks. -/
theorem retains_attempt (h : s.WellFormed) (t : TxnRef) (i : Nat) (op : Operation κ υ) :
    s.Retains (s.attempt t i op).1 := by
  have hsearched : s.Retains (s.searched op.key) := .drop s _
  refine hsearched.trans ?_
  have hcases := h.attempted t i op
  generalize s.attempt t i op = result at hcases
  cases hcases with
  | blocked _ _ _ _ => exact .noteEffect ..
  | repeated _ _ _ _ =>
      rw [Store.republish]
      split
      · exact .refl _
      · exact .publish ..
  | stamped _ _ _ _ _ => exact (Retains.stampNode ..).trans (.publish ..)
  | linked hplace _ _ => exact (Retains.linkNode hplace.chain ..).trans (.publish ..)
  | refused _ _ _ _ => exact .refl _
  | missing _ _ => exact .refl _

/-- No event loses a node. -/
theorem retains_act (h : s.WellFormed) (e : Event κ υ) : s.Retains (s.act e) := by
  cases e with
  | allocate ops => exact .of_eq rfl rfl
  | attempt t i =>
      cases hop : (s.registry.get t).op? i with
      | none =>
          rw [Drive.act_attempt_of_none hop]
          exact .refl s
      | some op =>
          rw [Drive.act_attempt hop]
          exact h.retains_attempt t i op
  | settle t final fake => exact .settle ..
  | sweep f =>
      exact h.sweep_induction (P := fun s' => s.Retains s') (.refl s)
        fun s' _ _ hs' _ => hs'.trans (.drop s' _)
  | linkLate t i =>
      rcases h.act_linkLate t i with heq | ⟨k, v, c, -, hplace, heq⟩
      · rw [heq]
        exact .refl s
      · rw [heq]
        exact .linkNode hplace.chain ..
  | resetTally => exact .of_eq rfl rfl

/-- **No events lose a node.** -/
theorem retains_actAll (h : s.WellFormed) (es : List (Event κ υ)) : s.Retains (s.actAll es) := by
  induction es generalizing s with
  | nil => exact .refl s
  | cons e es ih => exact (h.retains_act e).trans (ih (h.act e))

end WellFormed

/-! ### The shape of the chain -/

/-- The keys of the chain ascend strictly, none of its nodes is marked, every node outside of it is
out of use, and the live entries are those of the nodes that hold something, in the same order. -/
structure Ordered (s : Store κ υ) : Prop where
  ascending : s.chain.Pairwise fun a b => a.key < b.key
  unmarked : ∀ n ∈ s.chain, n.linkMarked = false ∧ n.stampMarked = false
  retired : ∀ n ∈ s.unlinked, n.linkMarked = true ∧ n.stampMarked = true
  /-- No two live entries have the same key. -/
  keys_nodup : (s.entries.map Prod.fst).Nodup
  entries_ascending : s.entries.Pairwise fun a b => a.1 < b.1
  /-- The live entries are the nodes that are surveyed as holding something, -/
  keys_eq : s.entries.map Prod.fst = (s.survey.filter Prod.snd).map Prod.fst
  /-- each with what its node holds. -/
  mem_entries_iff : ∀ k v, (k, v) ∈ s.entries ↔ ∃ n ∈ s.chain, n.key = k ∧ s.liveValue n = some v

omit [LinearOrder κ] in
/-- The keys of the live entries are those of the nodes that are surveyed as holding something. -/
theorem keys_entries (s : Store κ υ) :
    s.entries.map Prod.fst = (s.survey.filter Prod.snd).map Prod.fst := by
  rw [entries, survey]
  induction s.chain with
  | nil => rfl
  | cons n chain ih =>
      rw [List.filterMap_cons, List.map_cons]
      cases hn : s.liveValue n with
      | none => simpa using ih
      | some v => simpa using ih

omit [LinearOrder κ] in
/-- A live entry is a node of the chain with what it holds. -/
theorem mem_entries_iff {s : Store κ υ} {k : κ} {v : υ} :
    (k, v) ∈ s.entries ↔ ∃ n ∈ s.chain, n.key = k ∧ s.liveValue n = some v := by
  rw [entries, List.mem_filterMap]
  refine exists_congr fun n => and_congr_right fun _ => ?_
  rw [Option.map_eq_some_iff]
  constructor
  · rintro ⟨v', hv', heq⟩
    obtain ⟨rfl, rfl⟩ := Prod.mk.inj heq
    exact ⟨rfl, hv'⟩
  · rintro ⟨rfl, hv⟩
    exact ⟨v, hv, rfl⟩

/-- The chain of a well-formed store has its shape. -/
theorem WellFormed.ordered {s : Store κ υ} (h : s.WellFormed) : s.Ordered where
  ascending := h.ascending
  unmarked := h.unmarked
  retired := h.retired
  keys_nodup :=
    List.pairwise_map.mpr (h.lists_entries.ascending.imp fun hlt => ne_of_lt hlt)
  entries_ascending := h.lists_entries.ascending
  keys_eq := s.keys_entries
  mem_entries_iff _ _ := Store.mem_entries_iff

/-- A node that was unlinked at an earlier moment is not in the chain. -/
theorem WellFormed.not_linked_again {s s' : Store κ υ} (h : s'.WellFormed) (hretains : s.Retains s')
    {n m : Node κ υ} (hn : n ∈ s.unlinked) (hm : m ∈ s'.chain) : m.id ≠ n.id := by
  have hnamed := h.named
  rw [List.map_append, List.nodup_append] at hnamed
  exact hnamed.2.2 _ (List.mem_map_of_mem hm) _ (List.mem_map_of_mem (hretains.unlinked.mem hn))

end Store

namespace HelpingSession

variable [LinearOrder κ]

/-- **The chain keeps its order, and nodes that leave it are out of use for good.** In a run of any
commands, at every moment the chain has its shape. At every later moment a node that was linked is
still linked or has both marks set, and one that was unlinked is not linked again. -/
theorem Run.keeps_order {s : HelpingSession κ υ} {es : List (Event κ υ)} (h : Run s es) :
    Store.actAll {} es = s.store ∧
      ∀ pre mid post, es = pre ++ (mid ++ post) →
        (Store.actAll {} pre : Store κ υ).Ordered ∧
        (∀ n ∈ (Store.actAll {} pre : Store κ υ).chain,
          (∃ n' ∈ (Store.actAll {} (pre ++ mid)).chain, n'.id = n.id ∧ n'.key = n.key) ∨
          ∃ n' ∈ (Store.actAll {} (pre ++ mid)).unlinked, n'.id = n.id ∧ n'.key = n.key ∧
            n'.linkMarked = true ∧ n'.stampMarked = true) ∧
        ∀ n ∈ (Store.actAll {} pre : Store κ υ).unlinked,
          n ∈ (Store.actAll {} (pre ++ mid)).unlinked ∧
          ∀ m ∈ (Store.actAll {} (pre ++ mid)).chain, m.id ≠ n.id := by
  refine ⟨h.store_eq, fun pre mid post _ => ?_⟩
  have hpre : (Store.actAll {} pre : Store κ υ).WellFormed := Store.WellFormed.fresh.actAll pre
  have hmid := hpre.actAll mid
  have hretains := hpre.retains_actAll mid
  rw [Store.actAll_append]
  refine ⟨hpre.ordered, fun n hn => ?_, fun n hn => ?_⟩
  · obtain ⟨n', hn', hid, hkey⟩ := hretains.linked n hn
    rcases List.mem_append.mp hn' with hlinked | hunlinked
    · exact Or.inl ⟨n', hlinked, hid, hkey⟩
    · exact Or.inr ⟨n', hunlinked, hid, hkey, hmid.retired n' hunlinked⟩
  · exact ⟨hretains.unlinked.mem hn, fun m hm => hmid.not_linked_again hretains hn hm⟩

/-- The node of an insertion that is aborted leaves the chain. -/
theorem keeps_order_of_aborted : ∃ s : HelpingSession Nat Nat,
    Run s [.allocate [.insert 1 10], .attempt 0 0, .settle 0 .aborted false,
      .sweep { txn := 0, next := 0, failed := true, touched := [0] }] ∧
    (Store.actAll {} [.allocate [.insert 1 10], .attempt 0 0] : Store Nat Nat).chain.map Node.id =
      [0] ∧
    (∀ n ∈ (Store.actAll {} [.allocate [.insert 1 10], .attempt 0 0] : Store Nat Nat).chain,
      (∃ n' ∈ s.store.chain, n'.id = n.id ∧ n'.key = n.key) ∨
      ∃ n' ∈ s.store.unlinked, n'.id = n.id ∧ n'.key = n.key ∧
        n'.linkMarked = true ∧ n'.stampMarked = true) := by
  have h₁ := Run.fresh.perform (.allocate [.insert (1 : Nat) (10 : Nat)])
  have h₂ := h₁.perform (.step 0 0)
  have h₃ := h₂.perform (.finish 0 0 true)
  refine ⟨_, h₃, by decide, ?_⟩
  have hmoments := (Run.keeps_order h₃).2 [.allocate [.insert 1 10], .attempt 0 0]
    [.settle 0 .aborted false, .sweep { txn := 0, next := 0, failed := true, touched := [0] }]
    [] rfl
  exact hmoments.2.1

end HelpingSession

end AtomicSet
