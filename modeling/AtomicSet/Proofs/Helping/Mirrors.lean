import AtomicSet.Proofs.Helping.Serial
import Mathlib.Data.List.Forall2

/-!
# Stores with and without ghosts

A *ghost* is a node that was linked for an insertion after its transaction was decided. This module
compares a store in which there are ghosts with one in which there are none. The one *mirrors* the
other if they have the same transactions and the same counters, every node of the second has a twin
in the first, with the same key and the same stamp, and all nodes without a twin are ghosts. Twins
have different names, for a ghost takes a name too, so a pairing tells which names stand for each
other.

Ghosts hold nothing. That of a committed transaction is stale, and a search for its key unlinks it.
That of an aborted transaction may be stamped by others, like a node that its transaction had left
empty; where there is no ghost, a new node is linked instead, and from then on the two are twins. So
whatever the two stores are asked, they are asked to do the same.

## Main definitions

* `Pairing` — which names stand for each other.
* `Registry.Mirrors`, `Store.Mirrors` — the relations.
* `Store.Ghost` — what is known of a node without a twin.

## Main results

* `Store.Mirrors.publish`, `Store.Mirrors.settle`, `Store.Mirrors.place`, `Store.Mirrors.finish` and
  their companions — the same write on both sides keeps the relation.
* `Store.Mirrors.linkLate` — so does a late insertion on the one side.
* `Store.Mirrors.entries_eq` — the live entries are the same.
-/

namespace AtomicSet

variable {κ υ : Type}

/-- Which names of nodes in one store stand for which names in another. -/
abbrev Pairing := NodeId → NodeId → Prop

namespace Pairing

/-- The pairing with one more pair. -/
def add (β : Pairing) (a a' : NodeId) : Pairing :=
  fun x x' => β x x' ∨ x = a ∧ x' = a'

/-- A pair of names that have no partners may be added. -/
theorem biUnique_add {β : Pairing} (h : Relator.BiUnique β) {a a' : NodeId} (ha : ∀ x', ¬β a x')
    (ha' : ∀ x, ¬β x a') : Relator.BiUnique (β.add a a') := by
  constructor
  · rintro x y z (hx | ⟨hx, hz⟩) (hy | ⟨hy, hz'⟩)
    · exact h.left hx hy
    · exact absurd (hz' ▸ hx) (ha' x)
    · exact absurd (hz ▸ hy) (ha' y)
    · exact hx.trans hy.symm
  · rintro x y z (hy | ⟨hx, hy⟩) (hz | ⟨hx', hz⟩)
    · exact h.right hy hz
    · exact absurd (hx' ▸ hy) (ha y)
    · exact absurd (hx ▸ hz) (ha z)
    · exact hy.trans hz.symm

/-- A pair of partners is there already. -/
theorem add_eq_self {β : Pairing} {a a' : NodeId} (h : β a a') : β.add a a' = β := by
  funext x x'
  refine propext ⟨?_, Or.inl⟩
  rintro (hx | ⟨rfl, rfl⟩)
  · exact hx
  · exact h

end Pairing

/-- The transactions of `r'` are those of `r`: they have the same operations, are decided alike, and
have the same reads and corresponding nodes on record. What is on record for `late` transactions,
which are over, may differ, but for the nodes of committed ones. -/
structure Registry.Mirrors (late : TxnRef → Prop) (β : Pairing) (r r' : Registry κ υ) : Prop where
  size_eq : r'.size = r.size
  ops_eq : ∀ t, (r'.get t).ops = (r.get t).ops
  status_eq : ∀ t, (r'.get t).status = (r.get t).status
  read_eq : ∀ t, ¬late t → ∀ i, (r'.get t).read? i = (r.get t).read? i
  /-- Which nodes are stale depends on the records of committed transactions, the late ones too. -/
  effect : ∀ t, (late t → r.status t = .committed) → ∀ i,
    Option.Rel β ((r.get t).effect? i) ((r'.get t).effect? i)
  decided : ∀ t, late t → t < r.size ∧ r.isActive t = false

namespace Registry.Mirrors

variable {late : TxnRef → Prop} {β β' : Pairing} {r r' : Registry κ υ}

/-- The same transactions are active on both sides. -/
theorem isActive_eq (h : Mirrors late β r r') (t : TxnRef) : r'.isActive t = r.isActive t := by
  rw [isActive, isActive, Transaction.isActive, Transaction.isActive, h.status_eq]

/-- A transaction has the same operation at each position on both sides. -/
theorem op?_eq (h : Mirrors late β r r') (t : TxnRef) (i : Nat) :
    (r'.get t).op? i = (r.get t).op? i :=
  Transaction.op?_congr (h.ops_eq t) i

/-- A transaction has as many operations on both sides. -/
theorem size_txn_eq (h : Mirrors late β r r') (t : TxnRef) : (r'.get t).size = (r.get t).size := by
  rw [← Transaction.ops_length, ← Transaction.ops_length, h.ops_eq]

/-- A stamp holds the same by both registries. -/
theorem content_eq (h : Mirrors late β r r') (s : Stamp κ υ) (viewer : Option TxnRef) :
    s.content r' viewer = s.content r viewer := by
  simp only [Stamp.content, status, h.status_eq]

/-- A transaction that is not late has the same reads. -/
theorem reads_eq (h : Mirrors late β r r') {t : TxnRef} (hnot : ¬late t) :
    (r'.get t).reads = (r.get t).reads := by
  rw [Transaction.reads_eq_map_range, Transaction.reads_eq_map_range, h.size_txn_eq]
  exact List.map_congr_left fun i _ => h.read_eq t hnot i

/-- A transaction that is not late has as many effects on record, for the same operations. -/
theorem effects_eq (h : Mirrors late β r r') {t : TxnRef} (hnot : ¬late t) :
    ((r'.get t).steps.map fun s => s.effect.isSome) =
      (r.get t).steps.map fun s => s.effect.isSome := by
  rw [Transaction.effects_eq_map_range, Transaction.effects_eq_map_range, h.size_txn_eq]
  refine List.map_congr_left fun i _ => ?_
  have hrel := h.effect t (fun hlate => absurd hlate hnot) i
  generalize (r.get t).effect? i = e at hrel ⊢
  generalize (r'.get t).effect? i = e' at hrel ⊢
  cases hrel with
  | none => rfl
  | some _ => rfl

/-- An active transaction is not late. -/
theorem not_late (h : Mirrors late β r r') {t : TxnRef} (hactive : r.isActive t) : ¬late t := by
  intro hlate
  rw [(h.decided t hlate).2] at hactive
  cases hactive

/-- More names may be paired. -/
theorem mono (h : Mirrors late β r r') (hβ : ∀ x x', β x x' → β' x x') : Mirrors late β' r r' where
  size_eq := h.size_eq
  ops_eq := h.ops_eq
  status_eq := h.status_eq
  read_eq := h.read_eq
  effect t ht i := by
    have hrel := h.effect t ht i
    revert hrel
    generalize (r.get t).effect? i = e
    generalize (r'.get t).effect? i = e'
    rintro (hx | _)
    · exact .some (hβ _ _ hx)
    · exact .none
  decided := h.decided

/-- A transaction that is over may be late. -/
theorem addLate (h : Mirrors late β r r') {t : TxnRef} (hlt : t < r.size)
    (hdecided : r.isActive t = false) : Mirrors (fun u => late u ∨ u = t) β r r' where
  size_eq := h.size_eq
  ops_eq := h.ops_eq
  status_eq := h.status_eq
  read_eq u hu := h.read_eq u fun hlate => hu (Or.inl hlate)
  effect u hu := h.effect u fun hlate => hu (Or.inl hlate)
  decided := by
    rintro u (hlate | rfl)
    · exact h.decided u hlate
    · exact ⟨hlt, hdecided⟩

/-- Writes to slots that put the same on record. -/
theorem of_slots (h : Mirrors late β r r') {r₁ r₁' : Registry κ υ} (hr : SlotsOnly r r₁)
    (hr' : SlotsOnly r' r₁')
    (hread : ∀ t, ¬late t → ∀ i, (r₁'.get t).read? i = (r₁.get t).read? i)
    (heffect : ∀ t, (late t → r.status t = .committed) → ∀ i,
      Option.Rel β ((r₁.get t).effect? i) ((r₁'.get t).effect? i)) : Mirrors late β r₁ r₁' where
  size_eq := (hr'.size_eq.trans h.size_eq).trans hr.size_eq.symm
  ops_eq t := ((hr'.ops_eq t).trans (h.ops_eq t)).trans (hr.ops_eq t).symm
  status_eq t := ((hr'.status_eq t).trans (h.status_eq t)).trans (hr.status_eq t).symm
  read_eq := hread
  effect t ht := heffect t fun hlate => (hr.status_eq t).symm.trans (ht hlate)
  decided t hlate := by
    rw [hr.size_eq, hr.isActive_eq]
    exact h.decided t hlate

/-- Registering the same transaction, with nothing on record. -/
theorem add (h : Mirrors late β r r') {txn : Transaction κ υ} (hempty : ∀ i, txn.effect? i = none) :
    Mirrors late β (r.add txn) (r'.add txn) := by
  have hget : ∀ t, (r.add txn).get t = if t = r.size then txn else r.get t := r.get_add txn
  have hget' : ∀ t, (r'.add txn).get t = if t = r.size then txn else r'.get t := by
    intro t
    rw [get_add, h.size_eq]
  have hold : ∀ t, late t → (r.add txn).get t = r.get t := by
    intro t hlate
    rw [hget, if_neg (Nat.ne_of_lt (h.decided t hlate).1)]
  constructor
  · rw [size_add, size_add, h.size_eq]
  · intro t
    rw [hget, hget']
    split
    · rfl
    · exact h.ops_eq t
  · intro t
    rw [hget, hget']
    split
    · rfl
    · exact h.status_eq t
  · intro t hnot i
    rw [hget, hget']
    split
    · rfl
    · exact h.read_eq t hnot i
  · intro t ht i
    rw [hget, hget']
    split
    · rw [hempty]
      exact .none
    · refine h.effect t (fun hlate => ?_) i
      rw [status, ← hold t hlate]
      exact ht hlate
  · intro t hlate
    rw [size_add, isActive, hold t hlate]
    exact ⟨Nat.lt_succ_of_lt (h.decided t hlate).1, (h.decided t hlate).2⟩

end Registry.Mirrors

namespace Store

/-- A node without a twin: it was linked late for a transaction that was decided, holds nothing, and
nothing stands for it. -/
structure Ghost (late : TxnRef → Prop) (β : Pairing) (s : Store κ υ) (n : Node κ υ) : Prop where
  late : late n.stamp.owner
  /-- There was nothing before an insertion that is aborted. -/
  empty : s.registry.status n.stamp.owner = .aborted → n.stamp.before = none
  /-- A committed insertion is on record for another node. -/
  stale : s.registry.status n.stamp.owner = .committed → s.isStale n
  unpaired : ∀ x', ¬β n.id x'

/-- The store `s'` is the store `s` without its ghosts. -/
structure Mirrors [LT κ] (late : TxnRef → Prop) (β : Pairing) (s s' : Store κ υ) : Prop where
  wellFormed : s.WellFormed
  wellFormed' : s'.WellFormed
  registry : s.registry.Mirrors late β s'.registry
  tally_eq : s'.tally = s.tally
  /-- No name stands for two. -/
  biUnique : Relator.BiUnique β
  /-- New names have no partners. -/
  bounded : ∀ x x', β x x' → x < s.nextNode ∧ x' < s'.nextNode
  /-- Every node of `s'` has a twin. -/
  covered : ∀ n' ∈ s'.chain, ∃ n ∈ s.chain, n.key = n'.key
  /-- Twins have the same stamp, and stand for each other. -/
  twin : ∀ n ∈ s.chain, ∀ n' ∈ s'.chain, n.key = n'.key → n.stamp = n'.stamp ∧ β n.id n'.id
  /-- All other nodes are ghosts. -/
  ghost : ∀ n ∈ s.chain, (∀ n' ∈ s'.chain, n'.key ≠ n.key) → Ghost late β s n

namespace Ghost

variable {late late' : TxnRef → Prop} {β β' : Pairing} {s s₁ : Store κ υ} {n : Node κ υ}

/-- A ghost that is not stale belongs to an aborted transaction. -/
theorem aborted (h : Ghost late β s n) (hdecided : s.registry.isActive n.stamp.owner = false)
    (hfresh : s.isStale n = false) : s.registry.status n.stamp.owner = .aborted := by
  rcases Registry.decided_of_not_active hdecided with hcommitted | haborted
  · rw [h.stale hcommitted] at hfresh
    cases hfresh
  · exact haborted

/-- The stamp of a ghost of an aborted transaction holds nothing for anybody. -/
theorem content_eq_none (h : Ghost late β s n)
    (haborted : s.registry.status n.stamp.owner = .aborted) (viewer : Option TxnRef) :
    n.stamp.content s.registry viewer = none := by
  rw [Stamp.content, haborted]
  exact h.empty haborted

/-- Ghosts hold nothing. -/
theorem resolve (h : Ghost late β s n) (hdecided : s.registry.isActive n.stamp.owner = false) :
    s.resolve none n = none := by
  rw [Store.resolve]
  cases hstale : s.isStale n with
  | true => rfl
  | false => exact h.content_eq_none (h.aborted hdecided hstale) none

/-- A ghost remains one while the status of its owner stays as it is and it stays stale. -/
theorem keep (h : Ghost late β s n)
    (hstatus : s₁.registry.status n.stamp.owner = s.registry.status n.stamp.owner)
    (hstale : s.registry.status n.stamp.owner = .committed → s.isStale n → s₁.isStale n) :
    Ghost late β s₁ n where
  late := h.late
  empty haborted := h.empty (hstatus.symm.trans haborted)
  stale hcommitted :=
    hstale (hstatus.symm.trans hcommitted) (h.stale (hstatus.symm.trans hcommitted))
  unpaired := h.unpaired

/-- More transactions may be late, and more names paired, if its own is not among them. -/
theorem mono (h : Ghost late β s n) (hlate : ∀ t, late t → late' t)
    (hunpaired : ∀ x', ¬β' n.id x') : Ghost late' β' s n where
  late := hlate _ h.late
  empty := h.empty
  stale := h.stale
  unpaired := hunpaired

end Ghost

/-- A node stays stale when something else is put on record. -/
theorem isStale_publish {s : Store κ υ} {t : TxnRef} {i : Nat} {op : Operation κ υ}
    (hop : (s.registry.get t).op? i = some op) {id : NodeId} (after : Option υ) {n : Node κ υ}
    (hne : n.id ≠ id) (hstale : s.isStale n) : (s.publish t i op id after).isStale n := by
  have hslots := s.slotsOnly_publish t i op id after
  simp only [isStale, Bool.and_eq_true, decide_eq_true_eq] at hstale ⊢
  obtain ⟨⟨hkind, hcommitted⟩, heffect⟩ := hstale
  refine ⟨⟨?_, ?_⟩, ?_⟩
  · rw [Transaction.kind?_congr (hslots.ops_eq _), hkind]
  · rw [hslots.status_eq, hcommitted]
  · rw [effect?_publish hop]
    split
    · cases hold : (s.registry.get n.stamp.owner).effect? n.stamp.index with
      | none => simpa using Ne.symm hne
      | some x => simpa [hold] using heffect
    · exact heffect

section Order

variable [LinearOrder κ]

namespace Mirrors

variable {late : TxnRef → Prop} {β : Pairing} {s s' : Store κ υ}

/-- Fresh stores, where nothing is paired and nobody is late. -/
theorem fresh : Mirrors (fun _ => False) (fun _ _ => False) ({} : Store κ υ) {} where
  wellFormed := .fresh
  wellFormed' := .fresh
  registry := by
    constructor
    · rfl
    · exact fun _ => rfl
    · exact fun _ => rfl
    · exact fun _ _ _ => rfl
    · intro t _ i
      rw [Registry.get_of_size_le (Nat.zero_le t)]
      exact .none
    · exact fun _ hlate => hlate.elim
  tally_eq := rfl
  biUnique := ⟨fun _ _ _ hx => hx.elim, fun _ _ _ hx => hx.elim⟩
  bounded _ _ hx := hx.elim
  covered := by simp
  twin := by simp
  ghost := by simp

/-- A node of `s'` has a twin. -/
theorem exists_twin (h : Mirrors late β s s') {n' : Node κ υ} (hn' : n' ∈ s'.chain) :
    ∃ n ∈ s.chain, n.key = n'.key ∧ n.stamp = n'.stamp ∧ β n.id n'.id := by
  obtain ⟨n, hn, hkey⟩ := h.covered n' hn'
  exact ⟨n, hn, hkey, h.twin n hn n' hn' hkey⟩

/-- The owner of a ghost is decided. -/
theorem decided_of_ghost (h : Mirrors late β s s') {n : Node κ υ} (hghost : Ghost late β s n) :
    s.registry.isActive n.stamp.owner = false :=
  (h.registry.decided _ hghost.late).2

/-- Twins are stale together. -/
theorem isStale_eq (h : Mirrors late β s s') {n n' : Node κ υ} (hn : n ∈ s.chain)
    (hn' : n' ∈ s'.chain) (hkey : n.key = n'.key) : s'.isStale n' = s.isStale n := by
  obtain ⟨hstamp, hpair⟩ := h.twin n hn n' hn' hkey
  rw [Bool.eq_iff_iff, isStale, isStale, ← hstamp]
  simp only [Bool.and_eq_true, decide_eq_true_eq, h.registry.status_eq,
    Transaction.kind?_congr (h.registry.ops_eq _)]
  refine and_congr_right fun hleft => not_congr ?_
  have heffect := h.registry.effect n.stamp.owner (fun _ => hleft.2) n.stamp.index
  generalize (s.registry.get n.stamp.owner).effect? n.stamp.index = e at heffect ⊢
  generalize (s'.registry.get n.stamp.owner).effect? n.stamp.index = e' at heffect ⊢
  cases heffect with
  | none => simp
  | @some x x' hx =>
      rw [Option.some.injEq, Option.some.injEq]
      exact (Relator.rel_eq h.biUnique hx hpair).symm

/-- Twins hold the same. -/
theorem resolve_eq (h : Mirrors late β s s') {n n' : Node κ υ} (hn : n ∈ s.chain)
    (hn' : n' ∈ s'.chain) (hkey : n.key = n'.key) (viewer : Option TxnRef) :
    s'.resolve viewer n' = s.resolve viewer n := by
  rw [resolve, resolve, h.isStale_eq hn hn' hkey, ← (h.twin n hn n' hn' hkey).1,
    h.registry.content_eq]

/-! ### Writes that leave the nodes -/

/-- What is written to the transactions on both sides must be the same, and leave the late ones
decided and their ghosts stale. -/
theorem withRegistry (h : Mirrors late β s s') {s₁ s₁' : Store κ υ} (hwf : s₁.WellFormed)
    (hwf' : s₁'.WellFormed) (hregistry : s₁.registry.Mirrors late β s₁'.registry)
    (htally : s₁'.tally = s₁.tally) (hchain : s₁.chain = s.chain) (hchain' : s₁'.chain = s'.chain)
    (hnext : s₁.nextNode = s.nextNode) (hnext' : s₁'.nextNode = s'.nextNode)
    (hghost : ∀ n ∈ s.chain, Ghost late β s n → Ghost late β s₁ n) :
    Mirrors late β s₁ s₁' where
  wellFormed := hwf
  wellFormed' := hwf'
  registry := hregistry
  tally_eq := htally
  biUnique := h.biUnique
  bounded x x' hx := by
    rw [hnext, hnext']
    exact h.bounded x x' hx
  covered := by
    rw [hchain, hchain']
    exact h.covered
  twin := by
    rw [hchain, hchain']
    exact h.twin
  ghost n hn hno := by
    rw [hchain] at hn
    rw [hchain'] at hno
    exact hghost n hn (h.ghost n hn hno)

/-- Publishing the same on both sides. -/
theorem publish (h : Mirrors late β s s') {t : TxnRef} {i : Nat} {op : Operation κ υ}
    (hop : (s.registry.get t).op? i = some op) {id id' : NodeId} (hid : β id id')
    (after : Option υ) :
    Mirrors late β (s.publish t i op id after) (s'.publish t i op id' after) := by
  have hop' : (s'.registry.get t).op? i = some op := (h.registry.op?_eq t i).trans hop
  have hslots := s.slotsOnly_publish t i op id after
  obtain ⟨hlt, hlt'⟩ := h.bounded id id' hid
  refine h.withRegistry (h.wellFormed.publish hop hlt after) (h.wellFormed'.publish hop' hlt' after)
    (h.registry.of_slots hslots (s'.slotsOnly_publish t i op id' after) ?_ ?_) ?_
    (chain_publish ..) (chain_publish ..) ?_ ?_ ?_
  · intro u hu j
    rw [read?_publish hop, read?_publish hop', h.registry.read_eq u hu j]
  · intro u hu j
    rw [effect?_publish hop, effect?_publish hop']
    have hold := h.registry.effect u hu j
    split
    · generalize (s.registry.get u).effect? j = e at hold ⊢
      generalize (s'.registry.get u).effect? j = e' at hold ⊢
      cases hold with
      | none => exact .some hid
      | some hx => exact .some hx
    · exact hold
  · rw [tally_publish, tally_publish, h.tally_eq]
  · rw [publish_eq]
  · rw [publish_eq]
  · -- The name on record has a partner, so it is not that of a ghost.
    intro n _ hghost
    refine hghost.keep (hslots.status_eq _) fun _ hstale => ?_
    refine isStale_publish hop after ?_ hstale
    rintro rfl
    exact hghost.unpaired id' hid

/-- Publishing on the one side only, for a late transaction that is aborted. -/
theorem publish_left (h : Mirrors late β s s') {t : TxnRef} {i : Nat} {op : Operation κ υ}
    (hop : (s.registry.get t).op? i = some op) (hlate : late t)
    (haborted : s.registry.status t = .aborted) {id : NodeId} (hlt : id < s.nextNode)
    (after : Option υ) : Mirrors late β (s.publish t i op id after) s' := by
  have hslots := s.slotsOnly_publish t i op id after
  have hkept : ∀ u, u ≠ t → ∀ j, ((s.publish t i op id after).registry.get u).effect? j =
      (s.registry.get u).effect? j := by
    intro u hu j
    rw [effect?_publish hop, if_neg fun heq => hu heq.1]
  refine h.withRegistry (h.wellFormed.publish hop hlt after) h.wellFormed'
    (h.registry.of_slots hslots (.refl _) ?_ ?_) ?_ (chain_publish ..) rfl ?_ rfl ?_
  · intro u hu j
    rw [read?_publish hop, if_neg, h.registry.read_eq u hu j]
    rintro ⟨rfl, -⟩
    exact hu hlate
  · intro u hu j
    have hne : u ≠ t := by
      rintro rfl
      rw [haborted] at hu
      cases hu hlate
    rw [hkept u hne]
    exact h.registry.effect u hu j
  · rw [tally_publish, h.tally_eq]
  · rw [publish_eq]
  · intro n _ hghost
    refine hghost.keep (hslots.status_eq _) fun hcommitted hstale => ?_
    have hne : n.stamp.owner ≠ t := by
      intro heq
      rw [heq, haborted] at hcommitted
      cases hcommitted
    simp only [isStale] at hstale ⊢
    rwa [Transaction.kind?_congr (hslots.ops_eq _), hslots.status_eq, hkept _ hne]

/-- Late transactions stay as they are when another one is decided. -/
theorem status_settle_of_late (h : Mirrors late β s s') {u : TxnRef} (hlate : late u) (t : TxnRef)
    (final : Status) (fake : Bool) :
    (s.settle t final fake).registry.status u = s.registry.status u := by
  rw [Registry.status, status_settle, if_neg]
  · rfl
  · rintro ⟨rfl, hactive⟩
    exact h.registry.not_late hactive hlate

/-- The registries correspond still when a transaction is decided on both sides. -/
theorem registry_settle (h : Mirrors late β s s') (t : TxnRef) (final : Status) (fake : Bool) :
    (s.settle t final fake).registry.Mirrors late β (s'.settle t final fake).registry := by
  constructor
  · rw [size_settle, size_settle, h.registry.size_eq]
  · intro u
    rw [ops_settle, ops_settle, h.registry.ops_eq]
  · intro u
    rw [status_settle, status_settle, h.registry.isActive_eq, h.registry.status_eq]
  · intro u hu i
    rw [read?_settle, read?_settle, h.registry.read_eq u hu]
  · intro u hu i
    rw [effect?_settle, effect?_settle]
    refine h.registry.effect u (fun hlate => ?_) i
    rw [← h.status_settle_of_late hlate t final fake]
    exact hu hlate
  · intro u hu
    rw [size_settle, Registry.isActive, Transaction.isActive, ← Registry.status,
      h.status_settle_of_late hu]
    exact h.registry.decided u hu

/-- Deciding the same transaction on both sides. -/
theorem settle (h : Mirrors late β s s') (t : TxnRef) (final : Status) (fake : Bool) :
    Mirrors late β (s.settle t final fake) (s'.settle t final fake) := by
  refine h.withRegistry (h.wellFormed.settle t final fake) (h.wellFormed'.settle t final fake)
    (h.registry_settle t final fake) ?_ (chain_settle ..) (chain_settle ..) (nextNode_settle ..)
    (nextNode_settle ..) ?_
  · rw [Store.settle, Store.settle, h.registry.isActive_eq]
    split
    · rw [h.tally_eq]
    · exact h.tally_eq
  · intro n _ hghost
    have hstatus := h.status_settle_of_late hghost.late t final fake
    refine hghost.keep hstatus fun hcommitted hstale => ?_
    simp only [isStale, Bool.and_eq_true, decide_eq_true_eq] at hstale ⊢
    rw [Transaction.kind?_congr (ops_settle ..), effect?_settle]
    exact ⟨⟨hstale.1.1, hstatus.trans hcommitted⟩, hstale.2⟩

/-- Registering the same transaction on both sides. -/
theorem allocate (h : Mirrors late β s s') (ops : List (Operation κ υ)) :
    Mirrors late β (s.allocate ops).1 (s'.allocate ops).1 := by
  have hget : ∀ u, u < s.registry.size →
      (s.allocate ops).1.registry.get u = s.registry.get u := by
    intro u hu
    rw [Store.allocate, Registry.get_add, if_neg (Nat.ne_of_lt hu)]
  refine h.withRegistry (h.wellFormed.allocate ops) (h.wellFormed'.allocate ops) ?_ h.tally_eq
    rfl rfl rfl rfl ?_
  · simp only [Store.allocate, h.registry.size_eq]
    exact h.registry.add (Transaction.effect?_ofOperations _ _)
  · intro n _ hghost
    have hlt := (h.registry.decided _ hghost.late).1
    refine hghost.keep ?_ fun _ hstale => ?_
    · rw [Registry.status, hget _ hlt, Registry.status]
    · simpa only [isStale, hget _ hlt] using hstale

/-- Setting the counters on both sides. -/
theorem withTally (h : Mirrors late β s s') (tally : Tally) :
    Mirrors late β { s with tally } { s' with tally } where
  wellFormed := h.wellFormed.withTally tally
  wellFormed' := h.wellFormed'.withTally tally
  registry := h.registry
  tally_eq := rfl
  biUnique := h.biUnique
  bounded := h.bounded
  covered := h.covered
  twin := h.twin
  ghost n hn hno := by
    obtain ⟨hlate, hempty, hstale, hunpaired⟩ := h.ghost n hn hno
    exact ⟨hlate, hempty, hstale, hunpaired⟩

/-! ### Writes to the nodes -/

/-- Dropping twins together, and any ghosts. -/
theorem drop (h : Mirrors late β s s') {p p' : Node κ υ → Bool}
    (hp : ∀ n ∈ s.chain, ∀ n' ∈ s'.chain, n.key = n'.key → p' n' = p n) :
    Mirrors late β (s.drop p) (s'.drop p') where
  wellFormed := h.wellFormed.drop p
  wellFormed' := h.wellFormed'.drop p'
  registry := h.registry
  tally_eq := h.tally_eq
  biUnique := h.biUnique
  bounded := h.bounded
  covered n' hn' := by
    obtain ⟨hn', hkept⟩ := mem_chain_drop.mp hn'
    obtain ⟨n, hn, hkey⟩ := h.covered n' hn'
    exact ⟨n, mem_chain_drop.mpr ⟨hn, (hp n hn n' hn' hkey).symm.trans hkept⟩, hkey⟩
  twin n hn n' hn' := h.twin n (mem_chain_drop.mp hn).1 n' (mem_chain_drop.mp hn').1
  ghost n hn hno := by
    obtain ⟨hn, hkept⟩ := mem_chain_drop.mp hn
    have hghost : Ghost late β s n := by
      refine h.ghost n hn fun n' hn' hkey => hno n' ?_ hkey
      exact mem_chain_drop.mpr ⟨hn', (hp n hn n' hn' hkey.symm).trans hkept⟩
    exact hghost.keep rfl fun _ hstale => hstale

/-- Searching for the same key. -/
theorem searched (h : Mirrors late β s s') (k : κ) :
    Mirrors late β (s.searched k) (s'.searched k) := by
  refine h.drop fun n hn n' hn' hkey => ?_
  rw [h.isStale_eq hn hn' hkey, hkey]

/-- The other nodes stay ghosts when a node is placed. -/
theorem ghost_placed {a n : Node κ υ} {s₁ : Store κ υ} (hs : s.Placed a s₁)
    (hghost : Ghost late β s n) (hn : n ∈ s₁.chain) (hkey : n.key ≠ a.key) (a' : NodeId) :
    Ghost late (β.add a.id a') s₁ n := by
  have hid : n.id ≠ a.id := by
    intro heq
    have ha := (hs.mem_iff a).mpr (Or.inr rfl)
    exact hkey (congrArg Node.key (hs.wellFormed.eq_of_id hn ha heq))
  have hghost₁ : Ghost late β s₁ n := by
    refine hghost.keep ?_ fun _ hstale => ?_
    · rw [hs.registry_eq]
    · simpa only [isStale, hs.registry_eq] using hstale
  refine hghost₁.mono (fun _ hlate => hlate) ?_
  rintro x' (hx | ⟨heq, -⟩)
  · exact hghost.unpaired x' hx
  · exact hid heq

/-- Placing nodes with the same key and stamp, which are twins from then on. -/
theorem place (h : Mirrors late β s s') {a a' : Node κ υ} {s₁ s₁' : Store κ υ}
    (hs : s.Placed a s₁) (hs' : s'.Placed a' s₁') (hkey : a.key = a'.key)
    (hstamp : a.stamp = a'.stamp) (hbiUnique : Relator.BiUnique (β.add a.id a'.id)) :
    Mirrors late (β.add a.id a'.id) s₁ s₁' where
  wellFormed := hs.wellFormed
  wellFormed' := hs'.wellFormed
  registry := by
    rw [hs.registry_eq, hs'.registry_eq]
    exact h.registry.mono fun x x' hx => Or.inl hx
  tally_eq := by rw [hs.tally_eq, hs'.tally_eq, h.tally_eq]
  biUnique := hbiUnique
  bounded := by
    rintro x x' (hx | ⟨rfl, rfl⟩)
    · obtain ⟨hlt, hlt'⟩ := h.bounded x x' hx
      exact ⟨hlt.trans_le hs.nextNode_le, hlt'.trans_le hs'.nextNode_le⟩
    · have ha := (hs.mem_iff a).mpr (Or.inr rfl)
      have ha' := (hs'.mem_iff a').mpr (Or.inr rfl)
      exact ⟨hs.wellFormed.id_lt a (List.mem_append_left _ ha),
        hs'.wellFormed.id_lt a' (List.mem_append_left _ ha')⟩
  covered n' hn' := by
    rcases (hs'.mem_iff n').mp hn' with ⟨hn', hne⟩ | rfl
    · obtain ⟨n, hn, heq⟩ := h.covered n' hn'
      refine ⟨n, (hs.mem_iff n).mpr (Or.inl ⟨hn, ?_⟩), heq⟩
      rwa [heq, hkey]
    · exact ⟨a, (hs.mem_iff a).mpr (Or.inr rfl), hkey⟩
  twin n hn n' hn' heq := by
    rcases (hs.mem_iff n).mp hn with ⟨hn, hne⟩ | rfl
    · rcases (hs'.mem_iff n').mp hn' with ⟨hn', -⟩ | rfl
      · obtain ⟨hsame, hpair⟩ := h.twin n hn n' hn' heq
        exact ⟨hsame, Or.inl hpair⟩
      · exact absurd (heq.trans hkey.symm) hne
    · rcases (hs'.mem_iff n').mp hn' with ⟨-, hne⟩ | rfl
      · exact absurd (heq.symm.trans hkey) hne
      · exact ⟨hstamp, Or.inr ⟨rfl, rfl⟩⟩
  ghost n hn hno := by
    have ha' := (hs'.mem_iff a').mpr (Or.inr rfl)
    have hkeyne : n.key ≠ a.key := fun heq => hno a' ha' (hkey.symm.trans heq.symm)
    rcases (hs.mem_iff n).mp hn with ⟨hold, -⟩ | rfl
    · have hghost : Ghost late β s n := by
        refine h.ghost n hold fun n' hn' heq => hno n' ?_ heq
        refine (hs'.mem_iff n').mpr (Or.inl ⟨hn', fun heq' => hkeyne ?_⟩)
        rw [← heq, heq', hkey]
      exact ghost_placed hs hghost hn hkeyne a'.id
    · exact absurd rfl hkeyne

/-- A node of a late insertion is a ghost: it is on record nowhere, and its name has no partner. -/
theorem ghost_linkNode (h : Mirrors late β s s') {t : TxnRef} {i : Nat} {k : κ} {v : υ}
    (hop : (s.registry.get t).op? i = some (.insert k v)) (c : Cursor (Node κ υ)) :
    Ghost (fun u => late u ∨ u = t) β (s.linkNode t i k (some v) c)
      { id := s.nextNode, key := k, stamp := ⟨t, i, none, some v⟩ } := by
  refine ⟨Or.inr rfl, fun _ => rfl, fun hcommitted => ?_, fun x' hx => ?_⟩
  · have heffect : (s.registry.get t).effect? i ≠ some s.nextNode := by
      intro heq
      exact Nat.lt_irrefl _ (h.wellFormed.effect_lt t i _ heq)
    have hkind : (s.registry.get t).kind? i = some .insert := by
      rw [Transaction.kind?, hop]
      rfl
    simp only [isStale, Bool.and_eq_true, decide_eq_true_eq]
    exact ⟨⟨hkind, hcommitted⟩, heffect⟩
  · exact Nat.lt_irrefl _ (h.bounded _ _ hx).1

/-- Linking a node for a late insertion, on the one side only. -/
theorem linkLate (h : Mirrors late β s s') {t : TxnRef} {i : Nat} {k : κ} {v : υ}
    (hop : (s.registry.get t).op? i = some (.insert k v))
    (hdecided : s.registry.isActive t = false) {c : Cursor (Node κ υ)} (hplace : s.Linking k c) :
    Mirrors (fun u => late u ∨ u = t) β (s.linkNode t i k (some v) c) s' := by
  have hplaced := h.wellFormed.placed_linkNode hop hplace (some v)
  have habsent : ∀ n' ∈ s'.chain, n'.key ≠ k := by
    intro n' hn' hkey
    obtain ⟨n, hn, heq⟩ := h.covered n' hn'
    exact hplace.absent n hn (heq.trans hkey)
  have hold : ∀ n' ∈ s'.chain, ∀ n ∈ (s.linkNode t i k (some v) c).chain, n.key = n'.key →
      n ∈ s.chain := by
    intro n' hn' n hn hkey
    rcases (hplaced.mem_iff n).mp hn with ⟨hn, -⟩ | rfl
    · exact hn
    · exact absurd hkey.symm (habsent n' hn')
  exact {
    wellFormed := hplaced.wellFormed
    wellFormed' := h.wellFormed'
    registry := h.registry.addLate (Registry.lt_size_of_op? hop) hdecided
    tally_eq := h.tally_eq
    biUnique := h.biUnique
    bounded := fun x x' hx => ⟨Nat.lt_succ_of_lt (h.bounded x x' hx).1, (h.bounded x x' hx).2⟩
    covered := fun n' hn' => by
      obtain ⟨n, hn, hkey⟩ := h.covered n' hn'
      refine ⟨n, (hplaced.mem_iff n).mpr (Or.inl ⟨hn, ?_⟩), hkey⟩
      exact hplace.absent n hn
    twin := fun n hn n' hn' hkey => h.twin n (hold n' hn' n hn hkey) n' hn' hkey
    ghost := fun n hn hno => by
      rcases (hplaced.mem_iff n).mp hn with ⟨hn, -⟩ | rfl
      · have hghost : Ghost late β (s.linkNode t i k (some v) c) n :=
          (h.ghost n hn hno).keep rfl fun _ hstale => hstale
        exact hghost.mono (fun _ hlate => Or.inl hlate) hghost.unpaired
      · exact h.ghost_linkNode hop c }

/-! ### Cleaning up -/

/-- Sweeping for a transaction of which the same nodes were touched. -/
theorem sweep (h : Mirrors late β s s') {f f' : Frame} (htxn : f'.txn = f.txn)
    (htouched : ∀ n ∈ s.chain, ∀ n' ∈ s'.chain, n.key = n'.key → n.stamp.owner = f.txn →
      (n.id ∈ f.touched ↔ n'.id ∈ f'.touched)) :
    Mirrors late β (s.sweep f) (s'.sweep f') := by
  by_cases hactive : s.registry.isActive f.txn
  · rw [Store.sweep, if_pos hactive, Store.sweep, htxn, h.registry.isActive_eq, if_pos hactive]
    exact h
  · have hdecided : s.registry.isActive f.txn = false := by simpa using hactive
    have hdecided' : s'.registry.isActive f'.txn = false := by
      rw [htxn, h.registry.isActive_eq, hdecided]
    have hdrop : Mirrors late β (s.drop (s.sweepable f.txn f.touched))
        (s'.drop (s'.sweepable f'.txn f'.touched)) := by
      refine h.drop fun n hn n' hn' hkey => ?_
      have hstamp := (h.twin n hn n' hn' hkey).1
      rw [sweepable, sweepable, h.resolve_eq hn hn' hkey, htxn, ← hstamp]
      by_cases hown : n.stamp.owner = f.txn
      · rw [decide_eq_decide.mpr (htouched n hn n' hn' hkey hown)]
      · simp [Stamp.isOwnedBy, hown]
    refine hdrop.withRegistry (h.wellFormed.sweep f) (h.wellFormed'.sweep f') ?_ ?_
      (h.wellFormed.chain_sweep hdecided) (h.wellFormed'.chain_sweep hdecided')
      (h.wellFormed.nextNode_sweep f) (h.wellFormed'.nextNode_sweep f') ?_
    · rw [registry_sweep, registry_sweep]
      exact h.registry
    · rw [h.wellFormed.tally_sweep, h.wellFormed'.tally_sweep, h.tally_eq]
    · intro n _ hghost
      refine hghost.keep ?_ fun _ hstale => ?_
      · rw [registry_sweep]
        rfl
      · rw [isStale, registry_sweep]
        exact hstale

/-- Finishing frames of the same transaction that came equally far. -/
theorem finish (h : Mirrors late β s s') {f f' : Frame} (htxn : f'.txn = f.txn)
    (hnext : f'.next = f.next) (hfailed : f'.failed = f.failed)
    (htouched : ∀ n ∈ s.chain, ∀ n' ∈ s'.chain, n.key = n'.key → n.stamp.owner = f.txn →
      (n.id ∈ f.touched ↔ n'.id ∈ f'.touched)) :
    Mirrors late β (s.finish f) (s'.finish f') := by
  rw [Store.finish, Store.finish, htxn, hnext, hfailed, h.registry.size_txn_eq]
  split
  · refine (h.settle f.txn .aborted false).sweep htxn ?_
    rw [chain_settle, chain_settle]
    exact htouched
  · split
    · refine (h.settle f.txn .committed false).sweep htxn ?_
      rw [chain_settle, chain_settle]
      exact htouched
    · exact h.sweep htxn htouched

/-- Giving frames of the same transaction up. -/
theorem giveUp (h : Mirrors late β s s') {f f' : Frame} (htxn : f'.txn = f.txn)
    (htouched : ∀ n ∈ s.chain, ∀ n' ∈ s'.chain, n.key = n'.key → n.stamp.owner = f.txn →
      (n.id ∈ f.touched ↔ n'.id ∈ f'.touched)) :
    Mirrors late β (s.giveUp f) (s'.giveUp f') := by
  rw [Store.giveUp, Store.giveUp, htxn]
  refine (h.settle f.txn .aborted true).sweep htxn ?_
  rw [chain_settle, chain_settle]
  exact htouched

/-! ### What is seen -/

/-- **Ghosts are not seen**: the two stores have the same live entries. -/
theorem entries_eq (h : Mirrors late β s s') : s'.entries = s.entries := by
  have hcontents : s'.contents = s.contents := by
    funext k
    by_cases hhas' : ∃ n' ∈ s'.chain, n'.key = k
    · obtain ⟨n', hn', rfl⟩ := hhas'
      obtain ⟨n, hn, hkey, -⟩ := h.exists_twin hn'
      rw [h.wellFormed'.contents_of_mem hn' rfl, h.wellFormed.contents_of_mem hn hkey,
        h.resolve_eq hn hn' hkey]
    · have habsent' : ∀ n' ∈ s'.chain, n'.key ≠ k := fun n' hn' hkey => hhas' ⟨n', hn', hkey⟩
      rw [contents_of_absent habsent']
      by_cases hhas : ∃ n ∈ s.chain, n.key = k
      · obtain ⟨n, hn, rfl⟩ := hhas
        have hghost := h.ghost n hn habsent'
        rw [h.wellFormed.contents_of_mem hn rfl, hghost.resolve (h.decided_of_ghost hghost)]
      · rw [contents_of_absent fun n hn hkey => hhas ⟨n, hn, hkey⟩]
  have hlists := h.wellFormed'.lists_entries
  rw [hcontents] at hlists
  exact hlists.unique h.wellFormed.lists_entries

end Mirrors

end Order

end Store

end AtomicSet
