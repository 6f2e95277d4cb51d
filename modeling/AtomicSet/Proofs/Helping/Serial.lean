import AtomicSet.Proofs.Helping.Coherence

/-!
# Commits are runs of the sequential set

The live entries of a coherent store list a map. No admissible event changes this map but the commit
of an active transaction, and that one applies the transaction's operations: they succeed on the map
before it, the map after it is what they leave, and the slots of the transaction hold what they
read.

## Main definitions

* `Store.contents` — the map that the live entries list.
* `Store.Serial` — at this event, the store changes as a serial execution would.

## Main results

* `Store.WellFormed.lists_entries` — the live entries list the map.
* `Store.Coherent.contents_settle_committed` — a commit, key by key.
* `Store.Coherent.run_settle_committed` — a commit is a run of the sequential set.
* `Store.Coherent.serial_of_admissible` — every admissible event is serial.
-/

namespace AtomicSet

open Operation

variable {κ υ : Type} [LinearOrder κ]

namespace Store

/-- The map of the live entries. -/
def contents (s : Store κ υ) : Contents κ υ :=
  fun k => (s.chain.find? fun n => n.key = k).bind s.liveValue

/-! ### Reading the map -/

/-- A key without a node holds nothing. -/
theorem contents_of_absent {s : Store κ υ} {k : κ} (h : ∀ n ∈ s.chain, n.key ≠ k) :
    s.contents k = none := by
  have hnone : s.chain.find? (fun n => n.key = k) = none := by simpa using h
  rw [contents, hnone]
  rfl

/-- The map is unchanged if the chain is, and every node holds what it held. -/
theorem contents_congr {s s' : Store κ υ} (hchain : s'.chain = s.chain)
    (h : ∀ n ∈ s.chain, s'.liveValue n = s.liveValue n) : s'.contents = s.contents := by
  funext k
  rw [contents, contents, hchain]
  cases hfind : s.chain.find? fun n => n.key = k with
  | none => rfl
  | some n => exact h n (List.mem_of_find?_eq_some hfind)

namespace WellFormed

variable {s : Store κ υ}

/-- A node of the chain holds what the snapshot sees in it, for it is not marked. -/
theorem liveValue_eq (h : s.WellFormed) {n : Node κ υ} (hn : n ∈ s.chain) :
    s.liveValue n = s.resolve none n := by
  rw [liveValue, (h.unmarked n hn).1, (h.unmarked n hn).2]
  rfl

/-- A key with a node holds what the snapshot sees in it. -/
theorem contents_of_mem (h : s.WellFormed) {n : Node κ υ} (hn : n ∈ s.chain) {k : κ}
    (hkey : n.key = k) : s.contents k = s.resolve none n := by
  rw [contents]
  cases hfind : s.chain.find? fun n => n.key = k with
  | none => exact absurd hkey (by simpa using List.find?_eq_none.mp hfind n hn)
  | some m =>
      have hmkey : m.key = k := by simpa using List.find?_some hfind
      obtain rfl := h.eq_of_key hn (List.mem_of_find?_eq_some hfind) (hkey.trans hmkey.symm)
      exact h.liveValue_eq hn

/-- **The live entries list the map.** -/
theorem lists_entries (h : s.WellFormed) : s.contents.Lists s.entries where
  ascending := by
    refine List.Pairwise.filterMap _ (fun a a' haa b hb b' hb' => ?_) h.ascending
    obtain ⟨v, -, rfl⟩ := Option.map_eq_some_iff.mp hb
    obtain ⟨v', -, rfl⟩ := Option.map_eq_some_iff.mp hb'
    exact haa
  mem_iff k v := by
    rw [entries, List.mem_filterMap]
    constructor
    · rintro ⟨n, hn, hv⟩
      obtain ⟨v', hlive, heq⟩ := Option.map_eq_some_iff.mp hv
      obtain ⟨rfl, rfl⟩ := Prod.mk.inj heq
      rw [h.contents_of_mem hn rfl, ← hlive, h.liveValue_eq hn]
    · intro hk
      obtain ⟨n, hfind, hlive⟩ := Option.bind_eq_some_iff.mp hk
      have hkey : n.key = k := by simpa using List.find?_some hfind
      exact ⟨n, List.mem_of_find?_eq_some hfind, by rw [hlive, hkey]; rfl⟩

/-- Dropping nodes that hold nothing changes nothing. -/
theorem contents_drop (h : s.WellFormed) {p : Node κ υ → Bool}
    (hp : ∀ n ∈ s.chain, p n → s.resolve none n = none) : (s.drop p).contents = s.contents := by
  funext k
  by_cases hex : ∃ n ∈ s.chain, n.key = k
  · obtain ⟨n, hn, hkey⟩ := hex
    rw [h.contents_of_mem hn hkey]
    cases hpn : p n with
    | true =>
        rw [hp n hn hpn]
        refine contents_of_absent fun m hm hmkey => ?_
        obtain ⟨hmem, hpm⟩ := mem_chain_drop.mp hm
        obtain rfl := h.eq_of_key hmem hn (hmkey.trans hkey.symm)
        rw [hpn] at hpm
        cases hpm
    | false => exact (h.drop p).contents_of_mem (mem_chain_drop.mpr ⟨hn, hpn⟩) hkey
  · rw [contents_of_absent fun n hn hkey => hex ⟨n, hn, hkey⟩,
      contents_of_absent fun n hn hkey => hex ⟨n, (mem_chain_drop.mp hn).1, hkey⟩]

/-- **A search changes nothing.** -/
theorem contents_searched (h : s.WellFormed) (k : κ) : (s.searched k).contents = s.contents := by
  refine h.contents_drop fun n _ hn => ?_
  rw [Bool.and_eq_true] at hn
  rw [resolve, if_pos hn.2]

/-- **A sweep changes nothing.** -/
theorem contents_sweep (h : s.WellFormed) (f : Frame) : (s.sweep f).contents = s.contents := by
  refine h.sweep_induction (P := fun s' => s'.contents = s.contents) rfl
    fun s' hwf _ hs' id => (hwf.contents_drop fun n _ hn => ?_).trans hs'
  simp only [sweepable, Bool.and_eq_true] at hn
  simpa using hn.2.2

end WellFormed

/-! ### What a node holds -/

omit [LinearOrder κ] in
/-- While the owner is active, a node holds what it held before. -/
theorem resolve_of_isActive {s : Store κ υ} {n : Node κ υ}
    (hactive : s.registry.isActive n.stamp.owner) : s.resolve none n = n.stamp.before := by
  rw [resolve, isStale_of_isActive hactive]
  rw [Registry.isActive_iff] at hactive
  simp [Stamp.content, Registry.status, hactive]

omit [LinearOrder κ] in
/-- Once the owner is aborted, a node holds again what it held before. -/
theorem resolve_of_aborted {s : Store κ υ} {n : Node κ υ}
    (haborted : s.registry.status n.stamp.owner = .aborted) :
    s.resolve none n = n.stamp.before := by
  have hstale : s.isStale n = false := by
    rw [Registry.status] at haborted
    simp [isStale, haborted]
  rw [resolve, hstale]
  simp [Stamp.content, haborted]

omit [LinearOrder κ] in
/-- What the next stamp keeps as the content before it is what the node holds. -/
theorem baseline_eq_resolve {s : Store κ υ} {t : TxnRef} {i : Nat} {n : Node κ υ}
    (hactive : s.registry.isActive t) (hfree : s.Free t i n) (hstale : s.isStale n = false) :
    n.stamp.baseline s.registry t = s.resolve none n := by
  rcases hfree with ⟨rfl, -⟩ | ⟨hne, -⟩
  · rw [Stamp.baseline, if_pos rfl, resolve_of_isActive hactive]
  · rw [Stamp.baseline, if_neg hne, resolve, hstale]
    rfl

omit [LinearOrder κ] in
/-- What a node holds depends on its owner's operations and status, and on the node on record. -/
theorem liveValue_congr {s s' : Store κ υ} {n : Node κ υ}
    (hops : (s'.registry.get n.stamp.owner).ops = (s.registry.get n.stamp.owner).ops)
    (hstatus : s'.registry.status n.stamp.owner = s.registry.status n.stamp.owner)
    (heffect : s.registry.status n.stamp.owner = .committed →
      (s.registry.get n.stamp.owner).kind? n.stamp.index = some .insert →
      (s'.registry.get n.stamp.owner).effect? n.stamp.index =
        (s.registry.get n.stamp.owner).effect? n.stamp.index) :
    s'.liveValue n = s.liveValue n := by
  have hstale : s'.isStale n = s.isStale n := by
    rw [Registry.status, Registry.status] at hstatus
    simp only [isStale, hstatus, Transaction.kind?_congr hops]
    by_cases hkind : (s.registry.get n.stamp.owner).kind? n.stamp.index = some .insert
    · by_cases hcommitted : (s.registry.get n.stamp.owner).status = .committed
      · rw [heffect hcommitted hkind]
      · simp [hcommitted]
    · simp [hkind]
  simp only [liveValue, resolve, hstale, Stamp.content, hstatus]

omit [LinearOrder κ] in
/-- Deciding a transaction changes nothing on nodes of others. -/
theorem liveValue_settle_of_ne (s : Store κ υ) {t : TxnRef} (final : Status) (fake : Bool)
    {n : Node κ υ} (hne : n.stamp.owner ≠ t) :
    (s.settle t final fake).liveValue n = s.liveValue n := by
  have hget : (s.settle t final fake).registry.get n.stamp.owner =
      s.registry.get n.stamp.owner := by rw [get_settle, if_neg (Ne.symm hne)]
  exact liveValue_congr (by rw [hget]) (by rw [Registry.status, hget]; rfl) fun _ _ => by rw [hget]

namespace Coherent

variable {s : Store κ υ}

/-! ### Events that change nothing -/

/-- Publishing changes nothing: what a committed transaction has on record stays. -/
theorem contents_publish (h : s.Coherent) {t : TxnRef} {i : Nat} {op : Operation κ υ}
    (hop : (s.registry.get t).op? i = some op) (id : NodeId) (after : Option υ) :
    (s.publish t i op id after).contents = s.contents := by
  have hslots := s.slotsOnly_publish t i op id after
  refine contents_congr (chain_publish ..) fun n hn => liveValue_congr (hslots.ops_eq _)
    (hslots.status_eq _) fun hcommitted hkind => ?_
  obtain ⟨op', hop', hinsert⟩ := Option.map_eq_some_iff.mp hkind
  obtain ⟨id', hid⟩ := h.done _ _ op' hcommitted hop' hinsert
  rw [hid]
  exact (WellFormed.extends_publish hop id after).effect_eq _ (h.wellFormed.owner_lt hn) _ _ hid

/-- A note of the effect of a stamp changes nothing. -/
theorem contents_noteEffect (h : s.Coherent) {n : Node κ υ} (hn : n ∈ s.chain) :
    (s.noteEffect n.stamp.owner n.stamp.index n.id).contents = s.contents := by
  obtain ⟨op, hop, -⟩ := h.wellFormed.stamped n hn
  rw [noteEffect_eq_publish hop]
  exact h.contents_publish hop n.id none

/-- Stamping changes nothing: until its owner commits, the node holds what it held. -/
theorem contents_stampNode (h : s.Coherent) {t : TxnRef} {i : Nat} {op : Operation κ υ}
    (hop : (s.registry.get t).op? i = some op) (hactive : s.registry.isActive t) {n : Node κ υ}
    (hn : n ∈ s.chain) (hkey : n.key = op.key) (hfree : s.Free t i n) (hstale : s.isStale n = false)
    (after : Option υ) : (s.stampNode t i n after).contents = s.contents := by
  have hwf := h.wellFormed.stampNode hop hn hkey after
  have hmem : ∀ m, m ∈ (s.stampNode t i n after).chain ↔ (m ∈ s.chain ∧ m.id ≠ n.id) ∨
      m = { n with stamp := ⟨t, i, n.stamp.baseline s.registry t, after⟩ } :=
    fun m => h.wellFormed.mem_chain_stampNode hn
  funext k
  by_cases hex : ∃ m ∈ s.chain, m.key = k
  · obtain ⟨m, hm, hmkey⟩ := hex
    rw [h.wellFormed.contents_of_mem hm hmkey]
    by_cases hid : m.id = n.id
    · obtain rfl := h.wellFormed.eq_of_id hm hn hid
      rw [hwf.contents_of_mem ((hmem _).mpr (Or.inr rfl)) hmkey, resolve_of_isActive hactive]
      exact baseline_eq_resolve hactive hfree hstale
    · exact hwf.contents_of_mem ((hmem m).mpr (Or.inl ⟨hm, hid⟩)) hmkey
  · rw [contents_of_absent fun m hm hmkey => hex ⟨m, hm, hmkey⟩]
    refine contents_of_absent fun m hm hmkey => ?_
    rcases (hmem m).mp hm with ⟨hm, -⟩ | rfl
    · exact hex ⟨m, hm, hmkey⟩
    · exact hex ⟨n, hn, hmkey⟩

/-- Linking a node for an insertion changes nothing: while its owner is active it holds nothing,
and if its owner is committed already it is stale. -/
theorem contents_linkNode (h : s.Coherent) {c : Cursor (Node κ υ)} {t : TxnRef} {i : Nat}
    {op : Operation κ υ} (hplace : s.Linking op.key c)
    (hop : (s.registry.get t).op? i = some op) (hinsert : op.kind = .insert) (after : Option υ) :
    (s.linkNode t i op.key after c).contents = s.contents := by
  have hwf := h.wellFormed.linkNode hplace.chain hop hplace.room after
  have hmem : ∀ m, m ∈ (s.linkNode t i op.key after c).chain ↔
      m ∈ s.chain ∨ m = { id := s.nextNode, key := op.key, stamp := ⟨t, i, none, after⟩ } :=
    fun m => WellFormed.mem_chain_linkNode hplace.chain
  funext k
  by_cases hex : ∃ m ∈ s.chain, m.key = k
  · obtain ⟨m, hm, hmkey⟩ := hex
    rw [h.wellFormed.contents_of_mem hm hmkey,
      hwf.contents_of_mem ((hmem m).mpr (Or.inl hm)) hmkey]
    rfl
  · rw [contents_of_absent fun m hm hmkey => hex ⟨m, hm, hmkey⟩]
    by_cases hkey : op.key = k
    · rw [hwf.contents_of_mem ((hmem _).mpr (Or.inr rfl)) hkey]
      cases hstatus : s.registry.status t with
      | active => exact resolve_of_isActive (Registry.isActive_iff.mpr hstatus)
      | aborted => exact resolve_of_aborted hstatus
      | committed =>
          obtain ⟨id, hid⟩ := h.done t i op hstatus hop hinsert
          have hne : id ≠ s.nextNode := Nat.ne_of_lt (h.wellFormed.effect_lt t i id hid)
          have hkind : (s.registry.get t).kind? i = some .insert := by
            rw [Transaction.kind?, hop, Option.map_some, hinsert]
          rw [Registry.status] at hstatus
          rw [resolve, if_pos]
          simp [isStale, Store.linkNode, hkind, hstatus, hid, hne]
    · refine contents_of_absent fun m hm hmkey => ?_
      rcases (hmem m).mp hm with hm | rfl
      · exact hex ⟨m, hm, hmkey⟩
      · exact hkey hmkey

/-- **An attempt changes nothing.** -/
theorem contents_attempt (h : s.Coherent) {t : TxnRef} {i : Nat} {op : Operation κ υ}
    (hop : (s.registry.get t).op? i = some op)
    (hreached : s.registry.isActive t → s.Reached t i) :
    (s.attempt t i op).1.contents = s.contents := by
  have hs := h.searched op.key
  have hreached : s.registry.isActive t → (s.searched op.key).Reached t i := fun hactive =>
    reached_searched hactive (hreached hactive) op.key
  have hcases := h.wellFormed.attempted t i op
  rw [← h.wellFormed.contents_searched op.key]
  generalize s.attempt t i op = result at hcases
  cases hcases with
  | blocked hn _ _ _ => exact hs.contents_noteEffect hn
  | repeated hn _ _ _ =>
      simp only [republish]
      split
      · rfl
      · exact hs.contents_publish hop _ _
  | @stamped n after hn hkey hfree hactive hafter =>
      have hstale := not_isStale_of_mem_searched hn hkey
      have hstamped := hs.stampNode hop hactive (hreached hactive) hn hkey hfree hafter
      rw [hstamped.contents_publish hop]
      exact hs.contents_stampNode hop hactive hn hkey hfree hstale after
  | @linked c after hplace _ hafter =>
      have hinsert := kind_of_after?_none hafter
      rw [(hs.linkNode hplace hop hreached hafter).contents_publish hop]
      exact hs.contents_linkNode hplace hop hinsert after
  | refused _ _ _ _ => rfl
  | missing _ _ => rfl

/-- Aborting a transaction changes nothing. -/
theorem contents_settle_aborted (s : Store κ υ) (t : TxnRef) (fake : Bool) :
    (s.settle t .aborted fake).contents = s.contents := by
  by_cases hactive : s.registry.isActive t
  · refine contents_congr (chain_settle ..) fun n _ => ?_
    by_cases hown : n.stamp.owner = t
    · have haborted : (s.settle t .aborted fake).registry.status n.stamp.owner = .aborted := by
        rw [Registry.status, status_settle, if_pos ⟨hown, hactive⟩]
      rw [liveValue, liveValue, resolve_of_aborted haborted, resolve_of_isActive (hown ▸ hactive)]
    · exact s.liveValue_settle_of_ne .aborted fake hown
  · rw [Bool.not_eq_true] at hactive
    rw [settle_of_not_active hactive]

/-- Registering a transaction changes nothing. -/
theorem contents_allocate (h : s.WellFormed) (ops : List (Operation κ υ)) :
    (s.allocate ops).1.contents = s.contents := by
  refine contents_congr rfl fun n hn => ?_
  have hget : (s.allocate ops).1.registry.get n.stamp.owner = s.registry.get n.stamp.owner := by
    rw [Store.allocate, Registry.get_add, if_neg (Nat.ne_of_lt (h.owner_lt hn))]
  exact liveValue_congr (by rw [hget]) (by rw [Registry.status, hget]; rfl) fun _ _ => by rw [hget]

/-! ### Commits -/

/-- The insertions of a transaction that has performed all of its operations are on record for the
nodes that carry its stamps. -/
theorem effect_of_reached (h : s.Coherent) {n : Node κ υ} (hn : n ∈ s.chain)
    (hactive : s.registry.isActive n.stamp.owner)
    (hreached : s.Reached n.stamp.owner (s.registry.get n.stamp.owner).size) {i : Nat}
    (hi : i ≤ n.stamp.index) {op : Operation κ υ}
    (hop : (s.registry.get n.stamp.owner).op? i = some op) (hkey : op.key = n.key)
    (hinsert : op.kind = .insert) : (s.registry.get n.stamp.owner).effect? i = some n.id := by
  obtain ⟨id, hid⟩ := (hreached i (Transaction.lt_size_of_op? hop) op hop).2.1 hinsert
  rw [hid, (h.faithful n hn hactive).effect_eq i hi op id hop hkey hid]

/-- No node of a transaction that commits is stale. -/
theorem isStale_settle_committed (h : s.Coherent) {n : Node κ υ} (hn : n ∈ s.chain) (fake : Bool)
    (hactive : s.registry.isActive n.stamp.owner)
    (hreached : s.Reached n.stamp.owner (s.registry.get n.stamp.owner).size) :
    (s.settle n.stamp.owner .committed fake).isStale n = false := by
  obtain ⟨op, hop, hkey⟩ := h.wellFormed.stamped n hn
  by_cases hinsert : op.kind = .insert
  · have heffect := h.effect_of_reached hn hactive hreached (Nat.le_refl _) hop hkey hinsert
    simp [isStale, heffect]
  · have hkind : ((s.settle n.stamp.owner .committed fake).registry.get
        n.stamp.owner).kind? n.stamp.index ≠ some .insert := by
      rw [Transaction.kind?_congr (ops_settle ..), Transaction.kind?, hop]
      simpa using hinsert
    simp [isStale, hkind]

/-- A node of a transaction that commits holds what the transaction left on it. -/
theorem resolve_settle_committed (h : s.Coherent) {n : Node κ υ} (hn : n ∈ s.chain) (fake : Bool)
    (hactive : s.registry.isActive n.stamp.owner)
    (hreached : s.Reached n.stamp.owner (s.registry.get n.stamp.owner).size) :
    (s.settle n.stamp.owner .committed fake).resolve none n = n.stamp.after := by
  have hstatus : (s.settle n.stamp.owner .committed fake).registry.status n.stamp.owner =
      .committed := by
    rw [Registry.status, status_settle, if_pos ⟨rfl, hactive⟩]
  rw [resolve, h.isStale_settle_committed hn fake hactive hreached]
  simp [Stamp.content, hstatus]

/-- **A commit, key by key**: the operations of the transaction are replayed. -/
theorem contents_settle_committed (h : s.Coherent) {t : TxnRef} (fake : Bool)
    (hactive : s.registry.isActive t) (hreached : s.Reached t (s.registry.get t).size) (k : κ) :
    replay k (s.registry.get t).ops (s.contents k) =
      some ((s.settle t .committed fake).contents k) := by
  have hwf := h.wellFormed.settle t .committed fake
  by_cases hex : ∃ n ∈ s.chain, n.key = k
  · obtain ⟨n, hn, rfl⟩ := hex
    have hn' : n ∈ (s.settle t .committed fake).chain := by rwa [chain_settle]
    rw [h.wellFormed.contents_of_mem hn rfl, hwf.contents_of_mem hn' rfl]
    by_cases hown : n.stamp.owner = t
    · subst hown
      obtain ⟨op, hop, -⟩ := h.wellFormed.stamped n hn
      have hall := h.replay_of_owned hn hactive (Transaction.lt_size_of_op? hop) hreached.performed
      rw [← Transaction.ops_length, List.take_length] at hall
      rw [resolve_of_isActive hactive, hall, h.resolve_settle_committed hn fake hactive hreached]
    · have hsame := h.replay_of_not_owned hreached.performed hn hown (s.resolve none n)
      rw [← Transaction.ops_length, List.take_length] at hsame
      rw [hsame, ← h.wellFormed.liveValue_eq hn, ← hwf.liveValue_eq hn',
        s.liveValue_settle_of_ne .committed fake hown]
  · rw [contents_of_absent fun n hn hkey => hex ⟨n, hn, hkey⟩,
      contents_of_absent fun n hn hkey => hex ⟨n, by rwa [chain_settle] at hn, hkey⟩]
    have habsent := replay_of_absent hreached.performed (fun n hn hkey => hex ⟨n, hn, hkey⟩) none
    rwa [← Transaction.ops_length, List.take_length] at habsent

/-- The slots of a transaction that performed all of its operations hold what a run reads. -/
theorem reads_eq (h : s.Coherent) {t : TxnRef} (hactive : s.registry.isActive t)
    (hreached : s.Reached t (s.registry.get t).size) :
    (s.registry.get t).reads = s.contents.readsOf (s.registry.get t).ops := by
  refine List.ext_getElem? fun i => ?_
  rw [Contents.readsOf, List.getElem?_mapIdx, ← Transaction.op?_eq]
  cases hop : (s.registry.get t).op? i with
  | none =>
      have hstep : (s.registry.get t).steps[i]? = none := by simpa [Transaction.op?] using hop
      simp [Transaction.reads, hstep]
  | some op =>
      obtain ⟨step, hstep, rfl⟩ := Option.map_eq_some_iff.mp hop
      have hread : (s.registry.get t).read? i = step.read := by
        rw [Transaction.read?, hstep, Option.bind_some]
      rw [Transaction.reads, List.getElem?_map, hstep, Option.map_some, Option.map_some]
      congr 1
      by_cases hfind : step.op.isFind
      · obtain ⟨hperformed, hpublished⟩ := hreached i (Transaction.lt_size_of_op? hop) _ hop
        obtain ⟨v, hv⟩ := hpublished.2 hfind
        obtain ⟨n, hn, hkey, rfl, hle⟩ := hperformed
        rw [readOf, if_pos hfind, h.wellFormed.contents_of_mem hn hkey, resolve_of_isActive hactive,
          ← hkey, (h.faithful n hn hactive).read_eq i hle _ v hop hkey.symm hv, ← hread, hv]
        rfl
      · rw [readOf, if_neg hfind]
        cases hv : step.read with
        | none => rfl
        | some v =>
            obtain ⟨op', hop', hfind'⟩ := h.wellFormed.read_find t i v (hread.trans hv)
            rw [hop] at hop'
            exact absurd (Option.some.inj hop' ▸ hfind') hfind

/-- **A commit is a run of the sequential set**: the operations succeed on the map before it, the
map after it is what they leave, and the slots hold what they read. -/
theorem run_settle_committed (h : s.Coherent) {t : TxnRef} (fake : Bool)
    (hactive : s.registry.isActive t) (hreached : s.Reached t (s.registry.get t).size) :
    s.contents.run (s.registry.get t).ops =
      .ok ((s.settle t .committed fake).contents, (s.registry.get t).reads) :=
  (Contents.run_eq_ok_iff ..).mpr
    ⟨h.contents_settle_committed fake hactive hreached, h.reads_eq hactive hreached⟩

end Coherent

/-! ### Every event -/

/-- At this event the live entries change as in a serial execution. -/
structure Serial (s : Store κ υ) (e : Event κ υ) : Prop where
  /-- When a transaction commits, its operations succeed on the live entries before; the live
  entries after are what they leave, and its slots hold what they read. -/
  commit : ∀ t, s.registry.isActive t → (s.act e).registry.status t = .committed →
    ∃ m m' : Contents κ υ, m.Lists s.entries ∧
      m.run ((s.act e).registry.get t).ops = .ok (m', ((s.act e).registry.get t).reads) ∧
      m'.Lists (s.act e).entries
  /-- When none does, the live entries stay. -/
  quiet : (∀ t, s.registry.isActive t → (s.act e).registry.status t ≠ .committed) →
    (s.act e).entries = s.entries

/-- Only one event commits an active transaction. -/
theorem WellFormed.eq_settle_of_committed {s : Store κ υ} (h : s.WellFormed) {e : Event κ υ}
    {t : TxnRef} (hactive : s.registry.isActive t)
    (hcommitted : (s.act e).registry.status t = .committed) :
    ∃ fake, e = .settle t .committed fake := by
  have hne : (s.act e).registry.status t ≠ .active := by
    rw [hcommitted]
    decide
  obtain ⟨fake, heq⟩ := h.eq_settle_of_status_ne hactive hne
  exact ⟨fake, hcommitted ▸ heq⟩

namespace Coherent

variable {s : Store κ υ}

/-- **Only commits change the map.** -/
theorem contents_act (h : s.Coherent) {e : Event κ υ} (he : s.Admissible e)
    (hquiet : ∀ t, s.registry.isActive t → (s.act e).registry.status t ≠ .committed) :
    (s.act e).contents = s.contents := by
  cases e with
  | allocate ops => exact contents_allocate h.wellFormed ops
  | attempt t i =>
      cases hop : (s.registry.get t).op? i with
      | none => rw [Drive.act_attempt_of_none hop]
      | some op =>
          rw [Drive.act_attempt hop]
          exact h.contents_attempt hop he
  | settle t final fake =>
      by_cases hactive : s.registry.isActive t
      · have hne := hquiet t hactive
        rw [Registry.status, Store.act, status_settle, if_pos ⟨rfl, hactive⟩] at hne
        cases final with
        | active => exact absurd rfl he.1
        | committed => exact absurd rfl hne
        | aborted => exact contents_settle_aborted s t fake
      · rw [Bool.not_eq_true] at hactive
        rw [Store.act, settle_of_not_active hactive]
  | sweep f => exact h.wellFormed.contents_sweep f
  | linkLate t i =>
      rcases h.wellFormed.act_linkLate t i with heq | ⟨k, v, c, hop, hplace, heq⟩
      · rw [heq]
      · have hplace : s.Linking (Operation.insert k v).key c := hplace
        rw [heq]
        exact h.contents_linkNode hplace hop rfl (some v)
  | resetTally => rfl

/-- **Every admissible event is serial.** -/
theorem serial_of_admissible (h : s.Coherent) {e : Event κ υ} (he : s.Admissible e) :
    s.Serial e where
  commit t hactive hcommitted := by
    obtain ⟨fake, rfl⟩ := h.wellFormed.eq_settle_of_committed hactive hcommitted
    have hrun := h.run_settle_committed fake hactive (he.2 rfl hactive)
    have hreads : ((s.settle t .committed fake).registry.get t).reads =
        (s.registry.get t).reads := by
      rw [get_settle, if_pos rfl, Transaction.finalize]
      split <;> rfl
    refine ⟨s.contents, _, h.wellFormed.lists_entries, ?_, (h.act he).wellFormed.lists_entries⟩
    rw [Store.act, ops_settle, hreads]
    exact hrun
  quiet hquiet := by
    have hlists := (h.act he).wellFormed.lists_entries
    rw [h.contents_act he hquiet] at hlists
    exact hlists.unique h.wellFormed.lists_entries

end Coherent

end Store

end AtomicSet
