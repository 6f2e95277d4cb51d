import AtomicSet.Proofs.Helping.Mirrors
import AtomicSet.Proofs.Helping.Rounds

/-!
# Threads in step

The same attempt on two stores that mirror each other comes to the same, and they mirror each other
after it. So two threads that drive the same transactions, one on each store, stay in step: they
attempt the same operations, push the same transactions, break the same cycles and end in the same
round. They pair more and more names on the way, where one links a node and the other links one as
well or stamps a ghost.

## Main definitions

* `Progress.Mirrors` — attempts that came to the same.
* `Frame.Mirrors`, `Drive.Mirrors` — threads in step.

## Main results

* `Store.Mirrors.attempt` — attempts come to the same.
* `Drive.Mirrors.advance`, `Drive.Mirrors.run` — threads stay in step, round by round and to the
  end.
* `Drive.mem_chain_of_run` — threads put no stamps of transactions that were decided before.
-/

namespace AtomicSet

variable {κ υ : Type}

/-- Attempts that came to the same, on nodes that stand for each other. -/
inductive Progress.Mirrors (β : Pairing) : Progress → Progress → Prop where
  | applied {n n' : NodeId} (node : β n n') : Progress.Mirrors β (.applied n) (.applied n')
  | repeated {n n' : NodeId} (node : β n n') : Progress.Mirrors β (.repeated n) (.repeated n')
  | refused : Progress.Mirrors β .refused .refused
  | blocked (owner : TxnRef) (resume : Nat) :
    Progress.Mirrors β (.blocked owner resume) (.blocked owner resume)

namespace Store.Mirrors

variable [LinearOrder κ] {late : TxnRef → Prop} {β : Pairing} {s s' : Store κ υ}

/-! ### Attempts -/

/-- An attempt on twins comes to the same. -/
theorem attemptOn (h : Mirrors late β s s') {t : TxnRef} {i : Nat} {op : Operation κ υ}
    (hop : (s.registry.get t).op? i = some op) {n n' : Node κ υ} (hn : n ∈ s.chain)
    (hn' : n' ∈ s'.chain) (hkey : n.key = op.key) (hkey' : n'.key = op.key) :
    Mirrors late β (s.attemptOn t i op n).1 (s'.attemptOn t i op n').1 ∧
      Progress.Mirrors β (s.attemptOn t i op n).2 (s'.attemptOn t i op n').2 := by
  obtain ⟨hstamp, hpair⟩ := h.twin n hn n' hn' (hkey.trans hkey'.symm)
  have hop' : (s'.registry.get t).op? i = some op := (h.registry.op?_eq t i).trans hop
  have hblocks : n'.stamp.blocks s'.registry t = n.stamp.blocks s.registry t := by
    rw [Stamp.blocks, Stamp.blocks, ← hstamp, h.registry.isActive_eq]
  rw [Store.attemptOn, Store.attemptOn, hblocks, ← hstamp, h.registry.isActive_eq,
    h.registry.content_eq]
  split
  · obtain ⟨op₀, hop₀, -⟩ := h.wellFormed.stamped n hn
    rw [noteEffect_eq_publish hop₀, noteEffect_eq_publish ((h.registry.op?_eq ..).trans hop₀)]
    exact ⟨h.publish hop₀ hpair none, .blocked _ _⟩
  split
  · refine ⟨?_, .repeated hpair⟩
    rw [Store.republish, Store.republish, ← hstamp]
    split
    · exact h
    · exact h.publish hop hpair _
  split
  · cases hafter : op.after? (n.stamp.content s.registry (some t)) with
    | none => exact ⟨h, .refused⟩
    | some after =>
        have hbaseline : n'.stamp.baseline s'.registry t = n.stamp.baseline s.registry t := by
          rw [Stamp.baseline, Stamp.baseline, ← hstamp, h.registry.content_eq]
        have hplaced := h.wellFormed.placed_stampNode hop hn hkey after
        have hplaced' := h.wellFormed'.placed_stampNode hop' hn' hkey' after
        rw [hbaseline] at hplaced'
        have hbiUnique : Relator.BiUnique (β.add n.id n'.id) := by
          rw [Pairing.add_eq_self hpair]
          exact h.biUnique
        have hstamped := h.place hplaced hplaced' (hkey.trans hkey'.symm) rfl hbiUnique
        simp only [Pairing.add_eq_self hpair] at hstamped
        exact ⟨hstamped.publish hop hpair after, .applied hpair⟩
  · exact ⟨h, .refused⟩

/-- An attempt where the key has no node comes to the same. -/
theorem attemptAt (h : Mirrors late β s s') {t : TxnRef} {i : Nat} {op : Operation κ υ}
    (hop : (s.registry.get t).op? i = some op) {c c' : Cursor (Node κ υ)}
    (hplace : s.Linking op.key c) (hplace' : s'.Linking op.key c') :
    ∃ β' : Pairing, (∀ x x', β x x' → β' x x') ∧
      Mirrors late β' (s.attemptAt t i op c).1 (s'.attemptAt t i op c').1 ∧
      Progress.Mirrors β' (s.attemptAt t i op c).2 (s'.attemptAt t i op c').2 := by
  have hop' : (s'.registry.get t).op? i = some op := (h.registry.op?_eq t i).trans hop
  rw [Store.attemptAt, Store.attemptAt, h.registry.isActive_eq]
  split
  · cases op.after? none with
    | none => exact ⟨β, fun _ _ hx => hx, h, .refused⟩
    | some after =>
        have hnew : ∀ x', ¬β s.nextNode x' := fun x' hx => Nat.lt_irrefl _ (h.bounded _ _ hx).1
        have hnew' : ∀ x, ¬β x s'.nextNode := fun x hx => Nat.lt_irrefl _ (h.bounded _ _ hx).2
        have hpair : β.add s.nextNode s'.nextNode s.nextNode s'.nextNode := Or.inr ⟨rfl, rfl⟩
        have hlinked := h.place (h.wellFormed.placed_linkNode hop hplace after)
          (h.wellFormed'.placed_linkNode hop' hplace' after) rfl rfl
          (Pairing.biUnique_add h.biUnique hnew hnew')
        have hpublished := hlinked.publish hop hpair after
        refine ⟨β.add s.nextNode s'.nextNode, fun x x' hx => Or.inl hx, hpublished, ?_⟩
        exact .applied hpair
  · exact ⟨β, fun _ _ hx => hx, h, .refused⟩

/-- An attempt on a ghost of an aborted transaction comes to what it comes to where the key has no
node. Only for the ghost's own transaction there is something to repeat, and not so without it. -/
theorem attemptOn_ghost (h : Mirrors late β s s') {t : TxnRef} {i : Nat} {op : Operation κ υ}
    (hop : (s.registry.get t).op? i = some op) {n : Node κ υ} (hn : n ∈ s.chain)
    (hkey : n.key = op.key) (hghost : Ghost late β s n) (hfresh : s.isStale n = false)
    {c' : Cursor (Node κ υ)} (hplace' : s'.Linking op.key c') :
    ∃ β' : Pairing, (∀ x x', β x x' → β' x x') ∧
      Mirrors late β' (s.attemptOn t i op n).1 (s'.attemptAt t i op c').1 ∧
      (Progress.Mirrors β' (s.attemptOn t i op n).2 (s'.attemptAt t i op c').2 ∨
        late t ∧ ∃ x, (∀ x', ¬β' x x') ∧ (s.attemptOn t i op n).2 = .repeated x ∧
          (s'.attemptAt t i op c').2 = .refused) := by
  have hop' : (s'.registry.get t).op? i = some op := (h.registry.op?_eq t i).trans hop
  have hdecided := h.decided_of_ghost hghost
  -- The search has taken out the stale node of this key, if there was one.
  have haborted := hghost.aborted hdecided hfresh
  have hcontent := hghost.content_eq_none haborted
  have hblocks : n.stamp.blocks s.registry t = false := by
    rw [Stamp.blocks, hdecided, Bool.and_false]
  rw [Store.attemptOn, Store.attemptAt, hblocks, if_neg Bool.false_ne_true,
    h.registry.isActive_eq, hcontent]
  by_cases hcovers : n.stamp.covers t i
  · have hown : n.stamp.owner = t := by
      simp only [Stamp.covers, Bool.and_eq_true, decide_eq_true_eq] at hcovers
      exact hcovers.1
    rw [hown] at hdecided haborted
    rw [if_pos hcovers, hdecided, if_neg Bool.false_ne_true]
    refine ⟨β, fun _ _ hx => hx, ?_, Or.inr ⟨hown ▸ hghost.late, _, hghost.unpaired, rfl, rfl⟩⟩
    dsimp only
    rw [Store.republish]
    split
    · exact h
    · exact h.publish_left hop (hown ▸ hghost.late) haborted
        (h.wellFormed.id_lt n (List.mem_append_left _ hn)) _
  rw [if_neg hcovers]
  by_cases hactive : s.registry.isActive t
  · rw [if_pos hactive, if_pos hactive]
    cases op.after? none with
    | none => exact ⟨β, fun _ _ hx => hx, h, Or.inl .refused⟩
    | some after =>
        have hne : n.stamp.owner ≠ t := by
          rintro rfl
          rw [hactive] at hdecided
          cases hdecided
        have hbaseline : n.stamp.baseline s.registry t = none := by
          rw [Stamp.baseline, if_neg hne, hcontent]
        -- The ghost that is stamped and the node that is linked are twins from now on.
        have hnew' : ∀ x, ¬β x s'.nextNode := fun x hx => Nat.lt_irrefl _ (h.bounded _ _ hx).2
        have hpair : β.add n.id s'.nextNode n.id s'.nextNode := Or.inr ⟨rfl, rfl⟩
        have hplaced := h.wellFormed.placed_stampNode hop hn hkey after
        rw [hbaseline] at hplaced
        have hadopted := h.place hplaced (h.wellFormed'.placed_linkNode hop' hplace' after) hkey rfl
          (Pairing.biUnique_add h.biUnique hghost.unpaired hnew')
        have hpublished := hadopted.publish hop hpair after
        refine ⟨β.add n.id s'.nextNode, fun x x' hx => Or.inl hx, hpublished, Or.inl ?_⟩
        exact .applied hpair
  · rw [if_neg hactive, if_neg hactive]
    exact ⟨β, fun _ _ hx => hx, h, Or.inl .refused⟩

/-- **The same attempt comes to the same.** Only a late transaction may find a ghost of its own, and
repeat on it what it is refused where there is none. -/
theorem attempt (h : Mirrors late β s s') {t : TxnRef} {i : Nat} {op : Operation κ υ}
    (hop : (s.registry.get t).op? i = some op) :
    ∃ β' : Pairing, (∀ x x', β x x' → β' x x') ∧
      Mirrors late β' (s.attempt t i op).1 (s'.attempt t i op).1 ∧
      (Progress.Mirrors β' (s.attempt t i op).2 (s'.attempt t i op).2 ∨
        late t ∧ ∃ x, (∀ x', ¬β' x x') ∧ (s.attempt t i op).2 = .repeated x ∧
          (s'.attempt t i op).2 = .refused) := by
  have hwf := h.wellFormed
  have hwf' := h.wellFormed'
  have hsearched := h.searched op.key
  rw [Store.attempt, Store.attempt]
  simp only [hwf.afterSearch_seek, hwf'.afterSearch_seek]
  cases hhit' : (s'.seek op.key).hit? Node.key op.key with
  | some n' =>
      obtain ⟨hn', hkey'⟩ := hwf'.hit?_seek_eq_some_iff.mp hhit'
      obtain ⟨n, hn, hkey, -⟩ := hsearched.exists_twin hn'
      have hhit : (s.seek op.key).hit? Node.key op.key = some n :=
        hwf.hit?_seek_eq_some_iff.mpr ⟨hn, hkey.trans hkey'⟩
      simp only [hhit]
      obtain ⟨hstore, hprogress⟩ := hsearched.attemptOn hop hn hn' (hkey.trans hkey') hkey'
      exact ⟨β, fun _ _ hx => hx, hstore, Or.inl hprogress⟩
  | none =>
      have hplace' := hwf'.linking_seek hhit'
      cases hhit : (s.seek op.key).hit? Node.key op.key with
      | none =>
          obtain ⟨β', hβ, hstore, hprogress⟩ :=
            hsearched.attemptAt hop (hwf.linking_seek hhit) hplace'
          exact ⟨β', hβ, hstore, Or.inl hprogress⟩
      | some n =>
          obtain ⟨hn, hkey⟩ := hwf.hit?_seek_eq_some_iff.mp hhit
          have hghost : Ghost late β (s.searched op.key) n := by
            refine hsearched.ghost n hn fun n' hn' => ?_
            rw [hkey]
            exact hplace'.absent n' hn'
          exact hsearched.attemptOn_ghost hop hn hkey hghost
            (not_isStale_of_mem_searched hn hkey) hplace'

end Store.Mirrors

/-! ### Frames and stacks -/

/-- Frames of the same transaction that came equally far, and touched corresponding nodes. -/
structure Frame.Mirrors (β : Pairing) (f f' : Frame) : Prop where
  txn_eq : f'.txn = f.txn
  next_eq : f'.next = f.next
  failed_eq : f'.failed = f.failed
  touched : List.Forall₂ β f.touched f'.touched

namespace Frame.Mirrors

variable {late : TxnRef → Prop} {β β' : Pairing} {f f' : Frame} {r r' : Registry κ υ}

/-- Frames correspond still when more nodes do. -/
theorem mono (h : Frame.Mirrors β f f') (hβ : ∀ x x', β x x' → β' x x') :
    Frame.Mirrors β' f f' where
  txn_eq := h.txn_eq
  next_eq := h.next_eq
  failed_eq := h.failed_eq
  touched := h.touched.imp hβ

/-- They have the same operation to perform next. -/
theorem pending?_eq (h : Frame.Mirrors β f f') (hr : r.Mirrors late β r') :
    f'.pending? r' = f.pending? r := by
  rw [pending?, pending?, h.txn_eq, h.next_eq, h.failed_eq, hr.isActive_eq, hr.op?_eq]

end Frame.Mirrors

namespace Stack

variable {β : Pairing} {st st' : Stack}

/-- The position of a transaction depends on the transactions of the frames only. -/
theorem position_congr (h : st'.frames.map Frame.txn = st.frames.map Frame.txn) (t : TxnRef) :
    st'.position t = st.position t := by
  have hposition : ∀ st : Stack, st.position t =
      (st.frames.map Frame.txn).reverse.findIdx? fun u => u = t := by
    intro st
    rw [← List.map_reverse, List.findIdx?_map]
    rfl
  rw [hposition, hposition, h]

/-- So does the victim of a cycle. -/
theorem victim_congr (h : st'.frames.map Frame.txn = st.frames.map Frame.txn) (idOf : TxnRef → Nat)
    (start : Nat) : st'.victim idOf start = st.victim idOf start := by
  have hids : ∀ st : Stack, ((st.fromBottom.drop start).map fun f => idOf f.txn) =
      ((st.frames.map Frame.txn).reverse.drop start).map idOf := by
    intro st
    rw [← List.map_reverse, List.map_drop, List.map_drop, List.map_map]
    rfl
  rw [victim, victim, hids, hids, h]

/-- Corresponding frames are of the same transactions. -/
theorem txns_eq {fs fs' : List Frame} (h : List.Forall₂ (Frame.Mirrors β) fs fs') :
    fs'.map Frame.txn = fs.map Frame.txn := by
  induction h with
  | nil => rfl
  | cons hf _ ih => rw [List.map_cons, List.map_cons, hf.txn_eq, ih]

/-- Stacks of the same transactions are cut at the same height. -/
theorem cut?_mirrors (h : List.Forall₂ (Frame.Mirrors β) st.frames st'.frames)
    (idOf : TxnRef → Nat) (t : TxnRef) :
    Option.Rel (fun c c' => Frame.Mirrors β c.1 c'.1 ∧
        List.Forall₂ (Frame.Mirrors β) c.2.frames c'.2.frames)
      (st.cut? idOf t) (st'.cut? idOf t) := by
  have hbottom : List.Forall₂ (Frame.Mirrors β) st.fromBottom st'.fromBottom := List.rel_reverse h
  rw [cut?, cut?, position_congr (txns_eq h)]
  cases st.position t with
  | none => exact .none
  | some start =>
      rw [Option.bind_some, Option.bind_some, victim_congr (txns_eq h)]
      generalize st.victim idOf start = pos
      rw [unwind?, unwind?, List.splitAt_eq, List.splitAt_eq]
      have hbelow := List.rel_reverse (List.forall₂_take pos hbottom)
      have habove := List.forall₂_drop pos hbottom
      generalize st.fromBottom.drop pos = above, st'.fromBottom.drop pos = above' at habove ⊢
      cases habove with
      | nil => exact .none
      | cons hf _ => exact .some ⟨hf, hbelow⟩

end Stack

/-! ### Threads -/

variable [LinearOrder κ]

/-- Transactions have the same identifiers. -/
theorem Store.Mirrors.id_eq {late : TxnRef → Prop} {β : Pairing} {s s' : Store κ υ}
    (h : s.Mirrors late β s') (t : TxnRef) : (s'.registry.get t).id = (s.registry.get t).id := by
  by_cases hlt : t < s.registry.size
  · rw [h.wellFormed.numbered t hlt, h.wellFormed'.numbered t (h.registry.size_eq ▸ hlt)]
  · rw [Registry.get_of_size_le (Nat.not_lt.mp hlt),
      Registry.get_of_size_le (h.registry.size_eq.trans_le (Nat.not_lt.mp hlt))]

namespace Drive

/-- Threads that drive the same transactions, on stores that mirror each other. -/
structure Mirrors (late : TxnRef → Prop) (β : Pairing) (d d' : Drive κ υ) : Prop where
  store : d.store.Mirrors late β d'.store
  frames : List.Forall₂ (Frame.Mirrors β) d.stack.frames d'.stack.frames

namespace Mirrors

variable {late : TxnRef → Prop} {β : Pairing} {d d' : Drive κ υ}

/-- Threads that have just been set to work are in step. -/
theorem ofRoot {s s' : Store κ υ} (h : s.Mirrors late β s') (t : TxnRef) :
    Mirrors late β ⟨s, .ofRoot t⟩ ⟨s', .ofRoot t⟩ where
  store := h
  frames := .cons ⟨rfl, rfl, rfl, .nil⟩ .nil

/-- Nodes of a frame are touched on both sides or on neither. -/
theorem touched_iff {s s' : Store κ υ} (h : s.Mirrors late β s') {f f' : Frame}
    (hf : Frame.Mirrors β f f') : ∀ n ∈ s.chain, ∀ n' ∈ s'.chain, n.key = n'.key →
      n.stamp.owner = f.txn → (n.id ∈ f.touched ↔ n'.id ∈ f'.touched) := by
  intro n hn n' hn' hkey _
  exact List.rel_mem h.biUnique (h.twin n hn n' hn' hkey).2 hf.touched

/-- The same transaction has to be driven first. -/
theorem help (h : Mirrors late β d d') (owner : TxnRef) (resume : Nat) :
    Mirrors late β (d.help owner resume) (d'.help owner resume) := by
  have hids : (fun t => (d'.store.registry.get t).id) = fun t => (d.store.registry.get t).id :=
    funext h.store.id_eq
  have hcut := Stack.cut?_mirrors h.frames (fun t => (d.store.registry.get t).id) owner
  rw [Drive.help, Drive.help, hids]
  generalize d.stack.cut? (fun t => (d.store.registry.get t).id) owner = c at hcut ⊢
  generalize d'.stack.cut? (fun t => (d.store.registry.get t).id) owner = c' at hcut ⊢
  cases hcut with
  | none => exact ⟨h.store, .cons ⟨rfl, rfl, rfl, .nil⟩ h.frames⟩
  | @some c c' hrel =>
      obtain ⟨victim, below⟩ := c
      obtain ⟨victim', below'⟩ := c'
      obtain ⟨hvictim, hbelow⟩ := hrel
      have hstore : (d.store.giveUp victim).Mirrors late β (d'.store.giveUp victim') :=
        h.store.giveUp hvictim.txn_eq (touched_iff h.store hvictim)
      dsimp only
      generalize d.store.giveUp victim = s at hstore ⊢
      generalize d'.store.giveUp victim' = s' at hstore ⊢
      exact ⟨hstore, hbelow⟩

/-- A round on an operation that is pending. -/
theorem perform {s s' : Store κ υ} (h : s.Mirrors late β s') {f f' : Frame}
    (hf : Frame.Mirrors β f f') {below below' : List Frame}
    (hbelow : List.Forall₂ (Frame.Mirrors β) below below') {op : Operation κ υ}
    (hpending : f.pending? s.registry = some op) :
    ∃ β' : Pairing, (∀ x x', β x x' → β' x x') ∧
      Mirrors late β' (Drive.perform s f below op) (Drive.perform s' f' below' op) := by
  obtain ⟨-, hactive, hop⟩ := Frame.pending?_eq_some_iff.mp hpending
  obtain ⟨β', hβ, hstore, hprogress⟩ := h.attempt hop
  -- What is pending is an operation of an active transaction, which is not late.
  have hprogress := hprogress.resolve_right fun hlate => h.registry.not_late hactive hlate.1
  have hf' := hf.mono hβ
  have hbelow' := hbelow.imp fun _ _ hg => hg.mono hβ
  refine ⟨β', hβ, ?_⟩
  rw [Drive.perform, Drive.perform, hf.txn_eq, hf.next_eq]
  generalize s.attempt f.txn f.next op = result at hstore hprogress ⊢
  generalize s'.attempt f.txn f.next op = result' at hstore hprogress ⊢
  obtain ⟨s₁, progress⟩ := result
  obtain ⟨s₁', progress'⟩ := result'
  have happend : ∀ n n', β' n n' →
      Frame.Mirrors β' { f with next := f.next + 1, touched := f.touched ++ [n] }
        { f' with txn := f.txn, next := f.next + 1, touched := f'.touched ++ [n'] } := by
    intro n n' hn
    exact ⟨rfl, rfl, hf.failed_eq, List.rel_append hf'.touched (.cons hn .nil)⟩
  cases hprogress with
  | applied hn => exact ⟨hstore, .cons (happend _ _ hn) hbelow'⟩
  | repeated hn => exact ⟨hstore, .cons (happend _ _ hn) hbelow'⟩
  | refused => exact ⟨hstore, .cons ⟨rfl, rfl, rfl, hf'.touched⟩ hbelow'⟩
  | blocked owner resume => exact help ⟨hstore, .cons hf' hbelow'⟩ owner resume

/-- **Threads stay in step**: both make a round, or neither does. -/
theorem advance (h : Mirrors late β d d') : d.advance = none ∧ d'.advance = none ∨
    ∃ d₁ d₁' β', d.advance = some d₁ ∧ d'.advance = some d₁' ∧ (∀ x x', β x x' → β' x x') ∧
      Mirrors late β' d₁ d₁' := by
  obtain ⟨s, ⟨frames⟩⟩ := d
  obtain ⟨s', ⟨frames'⟩⟩ := d'
  obtain ⟨hstore, hframes⟩ := h
  cases hframes with
  | nil => exact Or.inl ⟨rfl, rfl⟩
  | @cons f f' below below' hf hbelow =>
      right
      rw [Drive.advance, Drive.advance]
      simp only [hf.pending?_eq hstore.registry]
      cases hpending : f.pending? s.registry with
      | none =>
          refine ⟨_, _, β, rfl, rfl, fun _ _ hx => hx, ?_, hbelow⟩
          exact hstore.finish hf.txn_eq hf.next_eq hf.failed_eq (touched_iff hstore hf)
      | some op =>
          obtain ⟨β', hβ, hperform⟩ := perform hstore hf hbelow hpending
          exact ⟨_, _, β', rfl, rfl, hβ, hperform⟩

/-- **Threads in step come to the same end.** -/
theorem run (h : Mirrors late β d d') : ∃ β' : Pairing, (∀ x x', β x x' → β' x x') ∧
    d.run.Mirrors late β' d'.run := by
  induction d using rounds_induction generalizing β d' with
  | last d hlast =>
      rcases h.advance with ⟨-, hlast'⟩ | ⟨d₁, _, _, hsome, -⟩
      · rw [run_of_none hlast, run_of_none hlast']
        exact ⟨β, fun _ _ hx => hx, h.store⟩
      · cases hlast.symm.trans hsome
  | round d d₁ hround ih =>
      rcases h.advance with ⟨hlast, -⟩ | ⟨d₂, d₁', β₁, hsome, hsome', hβ₁, hnext⟩
      · cases hlast.symm.trans hround
      · obtain rfl := Option.some.inj (hround.symm.trans hsome)
        obtain ⟨β', hβ', hrun⟩ := ih hnext
        rw [run_of_some hround, run_of_some hsome']
        exact ⟨β', fun x x' hx => hβ' x x' (hβ₁ x x' hx), hrun⟩

end Mirrors

/-! ### Transactions that were decided before -/

/-- A round puts stamps of active transactions only. -/
theorem mem_chain_of_advance {d d' : Drive κ υ} (h : d.store.WellFormed)
    (hadvance : d.advance = some d') {n : Node κ υ} (hn : n ∈ d'.store.chain) :
    n ∈ d.store.chain ∨ d.store.registry.isActive n.stamp.owner := by
  obtain ⟨f, below, -, hround⟩ := round_of_advance hadvance
  have hattempted : ∀ {op : Operation κ υ} {s' : Store κ υ} {progress : Progress},
      d.store.attempt f.txn f.next op = (s', progress) → n ∈ s'.chain →
        n ∈ d.store.chain ∨ d.store.registry.isActive n.stamp.owner := by
    intro op s' progress hattempt hmem
    rcases h.applied_of_mem_chain_attempt hattempt hmem with hold | ⟨⟨howner, -⟩, hactive, -⟩
    · exact Or.inl hold
    · exact Or.inr (howner ▸ hactive)
  cases hround with
  | finished _ => exact Or.inl (h.mem_of_mem_finish hn)
  | performed _ hattempt _ => exact hattempted hattempt hn
  | failed _ hattempt => exact hattempted hattempt hn
  | pushed _ hattempt _ => exact hattempted hattempt hn
  | @unwound op s' owner resume victim rest hpending hattempt _ =>
      have hwf' : s'.WellFormed := by
        have := h.attempt (Frame.pending?_eq_some_iff.mp hpending).2.2
        rwa [hattempt] at this
      dsimp only at hn
      exact hattempted hattempt (hwf'.mem_of_mem_giveUp hn)

/-- **A thread leaves no new stamps** of transactions that were decided when it set to work. -/
theorem mem_chain_of_run {d : Drive κ υ} (h : d.store.WellFormed) {n : Node κ υ}
    (hn : n ∈ d.run.chain) (hlt : n.stamp.owner < d.store.registry.size)
    (hdecided : d.store.registry.isActive n.stamp.owner = false) : n ∈ d.store.chain := by
  induction d using rounds_induction with
  | last d hlast =>
      rw [run_of_none hlast] at hn
      exact hn
  | round d d' hround ih =>
      rw [run_of_some hround] at hn
      have hextends := h.extends_actAll d.events
      rw [actAll_events hround] at hextends
      have hdecided' : d'.store.registry.isActive n.stamp.owner = false := by
        rw [← Bool.not_eq_true] at hdecided ⊢
        exact fun hactive => hdecided (hextends.isActive_of_isActive hlt hactive)
      have hmem := ih (wellFormed_of_advance h hround) hn (hlt.trans_le hextends.size_le) hdecided'
      rcases mem_chain_of_advance h hround hmem with hold | hactive
      · exact hold
      · rw [hdecided] at hactive
        cases hactive

end Drive

end AtomicSet
