import AtomicSet.Proofs.Helping.WellFormed

/-!
# What every event does

An attempt has six endings, and a late thread two. `Attempted` lists the endings of an attempt with
all that is known in each of them, and `Linking` what is known when a node is linked; all that is
said about single events below is said by going through these lists.

## Main definitions

* `Store.Free` — a node that an attempt may stamp.
* `Store.Linking` — a place in the chain where a new node for a key fits.
* `Store.Attempted` — the endings of an attempt.

## Main results

* `Store.WellFormed.attempted` — these are all endings.
* `Store.WellFormed.placed_stampNode`, `Store.WellFormed.placed_linkNode` — a stamp is put on the
  node of a key, old or new.
* `Store.WellFormed.linkLate_cases`, `Store.WellFormed.act_linkLate` — what a late thread does.
* `Store.WellFormed.sweep_induction`, `Store.WellFormed.chain_sweep` — what a sweep does.
* `Store.WellFormed.act` — every event keeps a store well-formed.
* `Store.WellFormed.eq_settle_of_status_ne`, `Store.WellFormed.tally_act` — only one kind of event
  decides a transaction, and only that one counts.
-/

namespace AtomicSet

namespace Store

variable {κ υ : Type} [LinearOrder κ]

/-- The node may be stamped for the operation of `t` at position `i`: it carries an earlier
operation of `t`, or its owner is decided. -/
def Free (s : Store κ υ) (t : TxnRef) (i : Nat) (n : Node κ υ) : Prop :=
  n.stamp.owner = t ∧ n.stamp.index < i ∨
    n.stamp.owner ≠ t ∧ s.registry.isActive n.stamp.owner = false

/-- No node of the chain has the key, and the cursor splits the chain where one fits. -/
structure Linking (s : Store κ υ) (k : κ) (c : Cursor (Node κ υ)) : Prop where
  chain : c.chain = s.chain
  absent : ∀ n ∈ s.chain, n.key ≠ k
  room : ∀ n : Node κ υ, n.key = k → (c.before ++ n :: c.rest).Pairwise fun a b => a.key < b.key

/-- The endings of an attempt at the operation `op` of `t` at position `i`, where `s` is the store
after the search. -/
inductive Attempted (s : Store κ υ) (t : TxnRef) (i : Nat) (op : Operation κ υ) :
    Store κ υ × Progress → Prop where
  /-- Another active transaction owns the node. -/
  | blocked {n : Node κ υ} (mem : n ∈ s.chain) (key : n.key = op.key)
      (foreign : n.stamp.owner ≠ t) (active : s.registry.isActive n.stamp.owner) :
      Attempted s t i op (s.noteEffect n.stamp.owner n.stamp.index n.id,
        .blocked n.stamp.owner (n.stamp.index + 1))
  /-- The operation, or a later one of `t` on this key, was performed before. -/
  | repeated {n : Node κ υ} (mem : n ∈ s.chain) (key : n.key = op.key)
      (own : n.stamp.owner = t) (le : i ≤ n.stamp.index) :
      Attempted s t i op (s.republish t i op n, .repeated n.id)
  /-- The precondition holds of the node of the key. -/
  | stamped {n : Node κ υ} {after : Option υ} (mem : n ∈ s.chain) (key : n.key = op.key)
      (free : s.Free t i n) (active : s.registry.isActive t)
      (succeeds : op.after? (n.stamp.content s.registry (some t)) = some after) :
      Attempted s t i op ((s.stampNode t i n after).publish t i op n.id after, .applied n.id)
  /-- The key has no node, and the precondition holds of its absence. -/
  | linked {c : Cursor (Node κ υ)} {after : Option υ} (place : s.Linking op.key c)
      (active : s.registry.isActive t) (succeeds : op.after? none = some after) :
      Attempted s t i op
        ((s.linkNode t i op.key after c).publish t i op s.nextNode after, .applied s.nextNode)
  /-- The precondition fails of the node of the key, or the transaction is over. -/
  | refused {n : Node κ υ} (mem : n ∈ s.chain) (key : n.key = op.key) (free : s.Free t i n)
      (fails : s.registry.isActive t → op.after? (n.stamp.content s.registry (some t)) = none) :
      Attempted s t i op (s, .refused)
  /-- The key has no node, and the precondition fails of its absence, or the transaction is over. -/
  | missing (absent : ∀ n ∈ s.chain, n.key ≠ op.key)
      (fails : s.registry.isActive t → op.after? none = none) :
      Attempted s t i op (s, .refused)

/-- An attempt on a node of the key. -/
theorem attempted_attemptOn {s : Store κ υ} {n : Node κ υ} (hn : n ∈ s.chain) {t : TxnRef}
    {i : Nat} {op : Operation κ υ} (hkey : n.key = op.key) :
    Attempted s t i op (s.attemptOn t i op n) := by
  rw [attemptOn]
  by_cases hblocks : n.stamp.blocks s.registry t
  · rw [if_pos hblocks]
    simp only [Stamp.blocks, decide_not, Bool.and_eq_true, Bool.not_eq_true',
      decide_eq_false_iff_not] at hblocks
    exact .blocked hn hkey hblocks.1 hblocks.2
  rw [if_neg hblocks]
  by_cases hcovers : n.stamp.covers t i
  · rw [if_pos hcovers]
    simp only [Stamp.covers, Bool.and_eq_true, decide_eq_true_eq] at hcovers
    exact .repeated hn hkey hcovers.1 hcovers.2
  rw [if_neg hcovers]
  have hfree : s.Free t i n := by
    simp only [Stamp.blocks, Stamp.covers, Bool.and_eq_true, decide_eq_true_eq, not_and,
      Bool.not_eq_true, Nat.not_le] at hblocks hcovers
    by_cases hown : n.stamp.owner = t
    · exact Or.inl ⟨hown, hcovers hown⟩
    · exact Or.inr ⟨hown, hblocks hown⟩
  by_cases hactive : s.registry.isActive t
  · rw [if_pos hactive]
    cases hafter : op.after? (n.stamp.content s.registry (some t)) with
    | none => exact .refused hn hkey hfree fun _ => hafter
    | some after => exact .stamped hn hkey hfree hactive hafter
  · rw [if_neg hactive]
    exact .refused hn hkey hfree fun h => absurd h hactive

omit [LinearOrder κ] in
/-- Sweeping leaves what the nodes hold. -/
theorem resolve_sweep [LT κ] [DecidableLT κ] (s : Store κ υ) (f : Frame) (viewer : Option TxnRef)
    (n : Node κ υ) : (s.sweep f).resolve viewer n = s.resolve viewer n := by
  rw [resolve, resolve, isStale, isStale, registry_sweep]

namespace WellFormed

variable {s : Store κ υ}

/-- A well-formed store stays so when a key is searched. -/
theorem searched (h : s.WellFormed) (k : κ) : (s.searched k).WellFormed :=
  h.drop _

/-- A search that misses its key finds the place where a node for it fits. -/
theorem linking_seek (h : s.WellFormed) {k : κ}
    (hmiss : (s.seek k).hit? Node.key k = none) : (s.searched k).Linking k (s.seek k) where
  chain := h.chain_seek k
  absent := h.hit?_seek_eq_none_iff.mp hmiss
  room _ hn := ascending_of_miss h.ascending hmiss hn

/-- Where a search finds no node of its key, a new one can be linked. -/
theorem linking_locate (h : s.WellFormed) {k : κ}
    (hmiss : (locate Node.key Node.linkMarked k s.chain).hit? Node.key k = none) :
    s.Linking k (locate Node.key Node.linkMarked k s.chain) where
  chain := (h.afterSearch_locate k).2
  absent := by
    rw [hit?_locate_eq_none_iff h.ascending, (h.afterSearch_locate k).2] at hmiss
    exact hmiss
  room _ hn := ascending_of_miss h.ascending hmiss hn

/-- Stamping a node replaces it. -/
theorem placed_stampNode (h : s.WellFormed) {t : TxnRef} {i : Nat}
    {op : Operation κ υ} (hop : (s.registry.get t).op? i = some op) {n : Node κ υ}
    (hn : n ∈ s.chain) (hkey : n.key = op.key) (after : Option υ) :
    s.Placed { n with stamp := ⟨t, i, n.stamp.baseline s.registry t, after⟩ }
      (s.stampNode t i n after) where
  wellFormed := h.stampNode hop hn hkey after
  registry_eq := rfl
  tally_eq := rfl
  nextNode_le := Nat.le_refl _
  mem_iff m := by
    rw [h.mem_chain_stampNode hn]
    refine or_congr_left (and_congr_right fun hm => not_congr ?_)
    constructor
    · intro hid
      rw [h.eq_of_id hm hn hid]
    · intro heq
      rw [h.eq_of_key hm hn heq]

/-- Linking a node for a key that has none adds it. -/
theorem placed_linkNode (h : s.WellFormed) {c : Cursor (Node κ υ)}
    {t : TxnRef} {i : Nat} {op : Operation κ υ} (hop : (s.registry.get t).op? i = some op)
    (hplace : s.Linking op.key c) (after : Option υ) :
    s.Placed { id := s.nextNode, key := op.key, stamp := ⟨t, i, none, after⟩ }
      (s.linkNode t i op.key after c) where
  wellFormed := h.linkNode hplace.chain hop hplace.room after
  registry_eq := rfl
  tally_eq := rfl
  nextNode_le := Nat.le_succ _
  mem_iff m := by
    rw [mem_chain_linkNode hplace.chain]
    refine or_congr_left ?_
    constructor
    · intro hm
      exact ⟨hm, hplace.absent m hm⟩
    · exact And.left

/-- **An attempt has these endings.** -/
theorem attempted (h : s.WellFormed) (t : TxnRef) (i : Nat) (op : Operation κ υ) :
    Attempted (s.searched op.key) t i op (s.attempt t i op) := by
  rw [attempt]
  simp only [h.afterSearch_seek]
  cases hhit : (s.seek op.key).hit? Node.key op.key with
  | some n =>
      obtain ⟨hn, hkey⟩ := h.hit?_seek_eq_some_iff.mp hhit
      exact attempted_attemptOn hn hkey
  | none =>
      have hplace := h.linking_seek hhit
      simp only [attemptAt]
      by_cases hactive : (s.searched op.key).registry.isActive t
      · rw [if_pos hactive]
        cases hafter : op.after? (none : Option υ) with
        | none => exact .missing hplace.absent fun _ => hafter
        | some after => exact .linked hplace hactive hafter
      · rw [if_neg hactive]
        exact .missing hplace.absent fun h => absurd h hactive

/-- The nodes after an attempt are nodes from before it, but for the one that the operation was
applied to, which carries its stamp now. -/
theorem applied_of_mem_chain_attempt (h : s.WellFormed) {t : TxnRef} {i : Nat}
    {op : Operation κ υ} {s' : Store κ υ} {progress : Progress}
    (hattempt : s.attempt t i op = (s', progress)) {n : Node κ υ} (hn : n ∈ s'.chain) :
    n ∈ s.chain ∨ (n.stamp.owner = t ∧ n.stamp.index = i) ∧ s.registry.isActive t ∧
      progress = .applied n.id := by
  have hold : ∀ m ∈ (s.searched op.key).chain, m ∈ s.chain := fun m hm => (mem_chain_drop.mp hm).1
  have hcases := h.attempted t i op
  rw [hattempt] at hcases
  cases hcases with
  | blocked _ _ _ _ => exact Or.inl (hold n (by simpa using hn))
  | repeated _ _ _ _ => exact Or.inl (hold n (by simpa using hn))
  | @stamped m after hm _ _ hactive _ =>
      rw [chain_publish, (h.searched op.key).mem_chain_stampNode hm] at hn
      rcases hn with ⟨hn, -⟩ | rfl
      · exact Or.inl (hold n hn)
      · exact Or.inr ⟨⟨rfl, rfl⟩, hactive, rfl⟩
  | linked hplace hactive _ =>
      rw [chain_publish, mem_chain_linkNode hplace.chain] at hn
      rcases hn with hn | rfl
      · exact Or.inl (hold n hn)
      · exact Or.inr ⟨⟨rfl, rfl⟩, hactive, rfl⟩
  | refused _ _ _ _ => exact Or.inl (hold n hn)
  | missing _ _ => exact Or.inl (hold n hn)

/-- The nodes after an attempt are nodes from before it, but for one that now carries the stamp of
the operation. -/
theorem stamp_of_mem_chain_attempt (h : s.WellFormed) {t : TxnRef} {i : Nat} {op : Operation κ υ}
    {s' : Store κ υ} {progress : Progress} (hattempt : s.attempt t i op = (s', progress))
    {n : Node κ υ} (hn : n ∈ s'.chain) :
    n ∈ s.chain ∨ (n.stamp.owner = t ∧ n.stamp.index = i) ∧ progress.node? = some n.id := by
  refine (h.applied_of_mem_chain_attempt hattempt hn).imp_right fun ⟨hstamp, _, happlied⟩ => ?_
  rw [happlied]
  exact ⟨hstamp, rfl⟩

/-- An attempt stamps at most the one node that it came upon. -/
theorem mem_chain_attempt (h : s.WellFormed) {t : TxnRef} {i : Nat} {op : Operation κ υ}
    {s' : Store κ υ} {progress : Progress} (hattempt : s.attempt t i op = (s', progress))
    {n : Node κ υ} (hn : n ∈ s'.chain) :
    n ∈ s.chain ∨ n.stamp.owner = t ∧ progress.node? = some n.id :=
  (h.stamp_of_mem_chain_attempt hattempt hn).imp_right fun hnew => ⟨hnew.1.1, hnew.2⟩

/-- An attempt counts nothing. -/
theorem tally_attempt (h : s.WellFormed) (t : TxnRef) (i : Nat) (op : Operation κ υ) :
    (s.attempt t i op).1.tally = s.tally := by
  have hcases := h.attempted t i op
  generalize s.attempt t i op = result at hcases
  cases hcases with
  | blocked _ _ _ _ => exact tally_noteEffect ..
  | repeated _ _ _ _ =>
      rw [Store.republish]
      split
      · rfl
      · exact tally_publish ..
  | stamped _ _ _ _ _ => exact tally_publish ..
  | linked _ _ _ => exact tally_publish ..
  | refused _ _ _ _ => rfl
  | missing _ _ => rfl

/-- The endings of a late thread: there is no such operation, there is nothing to do, or it links a
node for an insertion where its key has none. -/
theorem linkLate_cases (h : s.WellFormed) (t : TxnRef) (i : Nat) :
    (∃ fault, HelpingSession.linkLate s t i = .error fault) ∨
      HelpingSession.linkLate s t i = .ok (s, false) ∨
      ∃ k v c, (s.registry.get t).op? i = some (.insert k v) ∧ s.Linking k c ∧
        HelpingSession.linkLate s t i = .ok (s.linkNode t i k (some v) c, true) := by
  rw [HelpingSession.linkLate]
  cases hstep : (s.registry.get t).stepAt i with
  | error fault => exact Or.inl ⟨fault, rfl⟩
  | ok step =>
      refine Or.inr ?_
      have hop := Drive.op?_of_stepAt hstep
      cases hstepop : step.op with
      | find k => exact Or.inl (by simp only [hstepop])
      | delete k => exact Or.inl (by simp only [hstepop])
      | insert k v =>
          rw [hstepop] at hop
          simp only [hstepop, (h.afterSearch_locate k).1]
          cases hhit : (locate Node.key Node.linkMarked k s.chain).hit? Node.key k with
          | some n => exact Or.inl rfl
          | none => exact Or.inr ⟨k, v, _, hop, h.linking_locate hhit, rfl⟩

/-- **A late thread** links a node for an insertion where its key has none, or does nothing. -/
theorem act_linkLate (h : s.WellFormed) (t : TxnRef) (i : Nat) :
    s.act (.linkLate t i) = s ∨
      ∃ k v c, (s.registry.get t).op? i = some (.insert k v) ∧ s.Linking k c ∧
        s.act (.linkLate t i) = s.linkNode t i k (some v) c := by
  rw [Store.act]
  rcases h.linkLate_cases t i with ⟨fault, heq⟩ | heq | ⟨k, v, c, hop, hplace, heq⟩
  · rw [heq]
    exact Or.inl rfl
  · rw [heq]
    exact Or.inl rfl
  · rw [heq]
    exact Or.inr ⟨k, v, c, hop, hplace, rfl⟩

/-- A thread that is late writes to no transaction. -/
theorem registry_linkLate (h : s.WellFormed) (t : TxnRef) (i : Nat) :
    (s.act (.linkLate t i)).registry = s.registry := by
  rcases h.act_linkLate t i with heq | ⟨k, v, c, -, -, heq⟩
  · rw [heq]
  · rw [heq]
    rfl

/-! ### Sweeping -/

/-- What dropping the sweepable nodes keeps, a sweep keeps. -/
theorem sweep_induction (h : s.WellFormed) {f : Frame} {P : Store κ υ → Prop} (hs : P s)
    (hdrop : ∀ s' : Store κ υ, s'.WellFormed → s'.registry.isActive f.txn = false → P s' →
      ∀ id, P (s'.drop (s'.sweepable f.txn [id]))) : P (s.sweep f) := by
  have hfold : ∀ (ids : List NodeId) (s' : Store κ υ), s'.WellFormed →
      s'.registry.isActive f.txn = false → P s' → P (ids.foldl (sweepNode f.txn) s') := by
    intro ids
    induction ids with
    | nil => exact fun s' _ _ hs' => hs'
    | cons id ids ih =>
        intro s' hwf hdecided hs'
        rw [List.foldl_cons, hwf.sweepNode_eq]
        exact ih _ (hwf.drop _) hdecided (hdrop s' hwf hdecided hs' id)
  rw [Store.sweep]
  cases hdecided : s.registry.isActive f.txn with
  | true => exact hs
  | false => exact hfold f.touched s h hdecided hs

/-- A well-formed store stays so when the nodes of a frame are cleaned up. -/
theorem sweep (h : s.WellFormed) (f : Frame) : (s.sweep f).WellFormed :=
  h.sweep_induction h fun _ hwf _ _ _ => hwf.drop _

/-- Sweeping counts nothing. -/
theorem tally_sweep (h : s.WellFormed) (f : Frame) : (s.sweep f).tally = s.tally :=
  h.sweep_induction (P := fun s' => s'.tally = s.tally) rfl fun _ _ _ htally _ => htally

/-- Sweeping gives no names. -/
theorem nextNode_sweep (h : s.WellFormed) (f : Frame) : (s.sweep f).nextNode = s.nextNode :=
  h.sweep_induction (P := fun s' => s'.nextNode = s.nextNode) rfl fun _ _ _ hnext _ => hnext

/-- A sweep adds no nodes. -/
theorem mem_of_mem_sweep (h : s.WellFormed) {f : Frame} {n : Node κ υ}
    (hn : n ∈ (s.sweep f).chain) : n ∈ s.chain :=
  h.sweep_induction (P := fun s' => ∀ m ∈ s'.chain, m ∈ s.chain) (fun _ hm => hm)
    (fun _ _ _ hs' _ m hm => hs' m (mem_chain_drop.mp hm).1) n hn

/-- Giving a victim up brings no node into the chain. -/
theorem mem_of_mem_giveUp (h : s.WellFormed) {f : Frame} {n : Node κ υ}
    (hn : n ∈ (s.giveUp f).chain) : n ∈ s.chain := by
  have hmem := (h.settle f.txn .aborted true).mem_of_mem_sweep hn
  rwa [chain_settle] at hmem

/-- Neither does finishing a frame. -/
theorem mem_of_mem_finish (h : s.WellFormed) {f : Frame} {n : Node κ υ}
    (hn : n ∈ (s.finish f).chain) : n ∈ s.chain := by
  rw [finish] at hn
  split at hn
  · have hmem := (h.settle f.txn .aborted false).mem_of_mem_sweep hn
    rwa [chain_settle] at hmem
  · split at hn
    · have hmem := (h.settle f.txn .committed false).mem_of_mem_sweep hn
      rwa [chain_settle] at hmem
    · exact h.mem_of_mem_sweep hn

/-- **A sweep for a decided transaction** takes out the nodes it touched that are its own and hold
nothing. -/
theorem chain_sweep (h : s.WellFormed) {f : Frame} (hdecided : s.registry.isActive f.txn = false) :
    (s.sweep f).chain = s.chain.filter fun n => !s.sweepable f.txn f.touched n := by
  have hfold : ∀ (ids : List NodeId) (s' : Store κ υ), s'.WellFormed →
      (ids.foldl (sweepNode f.txn) s').chain =
        s'.chain.filter fun n => !s'.sweepable f.txn ids n := by
    intro ids
    induction ids with
    | nil =>
        intro s' _
        exact (List.filter_eq_self.mpr fun n _ => by simp [sweepable]).symm
    | cons id ids ih =>
        intro s' hwf
        rw [List.foldl_cons, hwf.sweepNode_eq, ih _ (hwf.drop _)]
        show (s'.chain.filter fun n => !s'.sweepable f.txn [id] n).filter
          (fun n => !s'.sweepable f.txn ids n) = _
        rw [List.filter_filter]
        refine List.filter_congr fun n _ => ?_
        simp only [sweepable, List.mem_cons, Bool.decide_or]
        cases decide (n.id = id) <;> cases decide (n.id ∈ ids) <;>
          cases n.stamp.isOwnedBy f.txn && (s'.resolve none n).isNone <;> rfl
  rw [Store.sweep, if_neg (by simp [hdecided])]
  exact hfold f.touched s h

/-! ### Every event -/

/-- A well-formed store stays so when an operation is attempted. -/
theorem attempt (h : s.WellFormed) {t : TxnRef} {i : Nat} {op : Operation κ υ}
    (hop : (s.registry.get t).op? i = some op) : (s.attempt t i op).1.WellFormed := by
  have hwf := h.searched op.key
  have hcases := h.attempted t i op
  generalize s.attempt t i op = result at hcases
  cases hcases with
  | blocked hn _ _ _ => exact hwf.noteEffect _ _ (hwf.id_lt _ (List.mem_append_left _ hn))
  | repeated hn _ _ _ => exact hwf.republish hop hn
  | @stamped n after hn hkey _ _ _ =>
      exact (hwf.stampNode hop hn hkey after).publish hop
        (hwf.id_lt n (List.mem_append_left _ hn)) after
  | @linked c after hplace _ _ =>
      exact (hwf.linkNode hplace.chain hop hplace.room after).publish hop (Nat.lt_succ_self _) after
  | refused _ _ _ _ => exact hwf
  | missing _ _ => exact hwf

/-- **Every event keeps a store well-formed.** -/
theorem act (h : s.WellFormed) (e : Event κ υ) : (s.act e).WellFormed := by
  cases e with
  | allocate ops => exact h.allocate ops
  | attempt t i =>
      cases hop : (s.registry.get t).op? i with
      | none =>
          rw [Drive.act_attempt_of_none hop]
          exact h
      | some op =>
          rw [Drive.act_attempt hop]
          exact h.attempt hop
  | settle t final fake => exact h.settle t final fake
  | sweep f => exact h.sweep f
  | linkLate t i =>
      rcases h.act_linkLate t i with heq | ⟨k, v, c, hop, hplace, heq⟩
      · rw [heq]
        exact h
      · rw [heq]
        exact h.linkNode hplace.chain hop hplace.room _
  | resetTally => exact h.withTally {}

/-- A well-formed store stays so whatever happens. -/
theorem actAll (h : s.WellFormed) (es : List (Event κ υ)) : (s.actAll es).WellFormed := by
  induction es generalizing s with
  | nil => exact h
  | cons e es ih => exact ih (h.act e)

/-- A well-formed store stays so when a frame is finished. -/
theorem finish (h : s.WellFormed) (f : Frame) : (s.finish f).WellFormed := by
  rw [← s.actAll_finishEvents f]
  exact h.actAll _

/-- To finish a frame is not to give it up. -/
theorem fakeAborts_finish (h : s.WellFormed) (f : Frame) :
    (s.finish f).tally.fakeAborts = s.tally.fakeAborts := by
  have hsettled : ∀ final, ((s.settle f.txn final false).sweep f).tally.fakeAborts =
      s.tally.fakeAborts := fun final => by
    rw [(h.settle f.txn final false).tally_sweep, Store.settle]
    split
    · dsimp only
      split <;> rfl
    · rfl
  rw [Store.finish]
  split
  · exact hsettled .aborted
  · split
    · exact hsettled .committed
    · rw [h.tally_sweep]

/-- Only one event decides an active transaction. -/
theorem eq_settle_of_status_ne (h : s.WellFormed) {e : Event κ υ} {t : TxnRef}
    (hactive : s.registry.isActive t) (hne : (s.act e).registry.status t ≠ .active) :
    ∃ fake, e = .settle t ((s.act e).registry.status t) fake := by
  have hstatus : s.registry.status t = .active := Registry.isActive_iff.mp hactive
  have hsame : ∀ {r : Registry κ υ}, (s.act e).registry = r → r.status t ≠ s.registry.status t :=
    fun hr heq => hne (by rw [hr, heq, hstatus])
  cases e with
  | allocate ops =>
      refine absurd ?_ (hsame rfl)
      rw [Registry.status, Store.act, Store.allocate, Registry.get_add,
        if_neg (Nat.ne_of_lt (Registry.lt_size_of_isActive hactive))]
      rfl
  | attempt u i =>
      refine absurd ?_ (hsame rfl)
      rw [Store.act, attemptStep]
      cases (s.registry.get u).stepAt i with
      | error fault => rfl
      | ok step => exact (s.slotsOnly_attempt u i step.op).status_eq t
  | settle u final fake =>
      obtain ⟨rfl, hfinal⟩ := eq_of_status_settle hactive hne rfl
      exact ⟨fake, by rw [hfinal]⟩
  | sweep f => exact absurd rfl (hsame (registry_sweep ..))
  | linkLate u i => exact absurd rfl (hsame (h.registry_linkLate u i))
  | resetTally => exact absurd rfl (hsame rfl)

/-- Only deciding a transaction counts something, apart from a reset of the counters. -/
theorem tally_act (h : s.WellFormed) {e : Event κ υ} (hreset : e ≠ .resetTally)
    (hsettle : ∀ t final fake, e = .settle t final fake → s.registry.isActive t = false) :
    (s.act e).tally = s.tally := by
  cases e with
  | allocate ops => rfl
  | attempt t i =>
      cases hop : (s.registry.get t).op? i with
      | none => rw [Drive.act_attempt_of_none hop]
      | some op =>
          rw [Drive.act_attempt hop]
          exact h.tally_attempt t i op
  | settle t final fake => rw [Store.act, settle_of_not_active (hsettle t final fake rfl)]
  | sweep f => exact h.tally_sweep f
  | linkLate t i =>
      rcases h.act_linkLate t i with heq | ⟨k, v, c, -, -, heq⟩
      · rw [heq]
      · rw [heq]
        rfl
  | resetTally => exact absurd rfl hreset

end WellFormed

end Store

/-- **Every reachable session has a well-formed store.** -/
theorem HelpingSession.Reachable.wellFormed {κ υ : Type} [LinearOrder κ] {s : HelpingSession κ υ}
    (h : s.Reachable) : s.store.WellFormed := by
  induction h with
  | fresh => exact Store.WellFormed.fresh
  | @perform s _ c ih =>
      rw [← s.actAll_events c]
      exact ih.actAll _

/-- In every round of a thread the store is well-formed. -/
theorem Drive.wellFormed_of_advance {κ υ : Type} [LinearOrder κ] {d d' : Drive κ υ}
    (h : d.store.WellFormed) (hadvance : d.advance = some d') : d'.store.WellFormed := by
  rw [← actAll_events hadvance]
  exact h.actAll _

end AtomicSet
