import AtomicSet.Proofs.Helping.Footprint
import AtomicSet.Proofs.Helping.Rounds

/-!
# Transactions on keys of their own

A transaction that mentions no key on which another active transaction has a node is never blocked.
Each of its operations does on the store what it does on the map of the live entries, whatever else
is done to the store in the meantime, as long as that is confined to other keys. In the end it is
committed with the reads of the map, or aborted at the operation at which the map fails.

Nothing is asked of the store but that it is well-formed: stale nodes and nodes without a record,
which earlier transactions may have left there, do not matter.

## Main definitions

* `Store.Working` — a transaction has performed its first operations.
* `Store.Over` — it was carried out.
* `Store.Quiescent` — no transaction is active.

## Main results

* `Store.Working.of_confined`, `Store.Over.of_confined` — what others do on other keys does not
  matter.
* `Store.Working.attempt` — the next operation succeeds or fails as on the map.
* `Store.Working.finish` — the transaction is carried out.
* `Store.Over.same` — the map decides how it ends.
* `Store.over_execute` — so it is if the transaction is executed alone.
-/

namespace AtomicSet

open Operation

variable {κ υ : Type} [LinearOrder κ]

namespace Store

/-- The active transaction `t` with the operations `ops` has performed those in front of the
position `i`, as on the map `m`. -/
structure Working (m : Contents κ υ) (t : TxnRef) (ops : List (Operation κ υ)) (i : Nat)
    (s : Store κ υ) : Prop where
  active : s.registry.isActive t
  ops_eq : (s.registry.get t).ops = ops
  le : i ≤ ops.length
  /-- On its keys there are only nodes of its own and of transactions that are over. -/
  unshared : ∀ n ∈ s.chain, Mentions ops n.key → n.stamp.owner ≠ t →
    s.registry.isActive n.stamp.owner = false
  index_lt : ∀ n ∈ s.chain, n.stamp.owner = t → n.stamp.index < i
  /-- Its insertions are on record for the nodes that carry them, -/
  recorded : ∀ n ∈ s.chain, n.stamp.owner = t →
    (s.registry.get t).kind? n.stamp.index = some .insert →
    (s.registry.get t).effect? n.stamp.index = some n.id
  /-- and those to come are not on record. -/
  unrecorded : ∀ j, i ≤ j → (s.registry.get t).effect? j = none
  /-- The live entries are those of the map, -/
  contents_eq : ∀ k, Mentions ops k → s.contents k = m k
  /-- and the transaction sees, and has read, what the operations leave of them. -/
  run : ∃ m' reads, m.run (ops.take i) = .ok (m', reads) ∧
    (∀ k, Mentions ops k → s.view (some t) k = m' k) ∧
    ∀ j, (s.registry.get t).read? j = reads[j]?.join

/-- The transaction `t` with the operations `ops` was carried out as on the map `m`. -/
inductive Over (m : Contents κ υ) (t : TxnRef) (ops : List (Operation κ υ)) (s : Store κ υ) :
    Prop where
  | committed {m' : Contents κ υ} {reads : List (Option υ)} (run : m.run ops = .ok (m', reads))
      (ops_eq : (s.registry.get t).ops = ops) (status_eq : s.registry.status t = .committed)
      (reads_eq : (s.registry.get t).reads = reads)
      (contents_eq : ∀ k, Mentions ops k → s.contents k = m' k)
  | aborted {i : Nat} {m' : Contents κ υ} {reads : List (Option υ)} (run : m.run ops = .error i)
      (run_take : m.run (ops.take i) = .ok (m', reads))
      (ops_eq : (s.registry.get t).ops = ops) (status_eq : s.registry.status t = .aborted)
      (reads_eq : (s.registry.get t).reads = reads ++ List.replicate (ops.length - i) none)
      (contents_eq : ∀ k, Mentions ops k → s.contents k = m k)

/-! ### Confined changes -/

section Confined

variable {m : Contents κ υ} {t u : TxnRef} {ops : List (Operation κ υ)} {i : Nat}
  {s s' : Store κ υ} {P : κ → Prop}

/-- **What is done for others on other keys** does not matter to a transaction at work, -/
theorem Working.of_confined (h : Working m t ops i s) (hconfined : Confined u P s s')
    (hwf : s.WellFormed) (hwf' : s'.WellFormed)
    (hown : ∀ n ∈ s.chain, n.stamp.owner = u → P n.key) (hne : t ≠ u)
    (hdisjoint : ∀ k, Mentions ops k → ¬ P k) : Working m t ops i s' := by
  have hget := hconfined.get_eq t hne
  have hmem : ∀ n ∈ s'.chain, n.stamp.owner = t → n ∈ s.chain := by
    intro n hn hnt
    refine (hconfined.mem_iff n (hdisjoint _ ?_)).mp hn
    rw [← h.ops_eq, ← hget]
    exact hwf'.mentions_of_owner hn hnt
  refine ⟨?_, hget ▸ h.ops_eq, h.le, fun n hn hk hnt => ?_, fun n hn hnt =>
    h.index_lt n (hmem n hn hnt) hnt, fun n hn hnt => ?_, ?_, fun k hk => ?_, ?_⟩
  · rw [Registry.isActive, hget]
    exact h.active
  · have hold := (hconfined.mem_iff n (hdisjoint _ hk)).mp hn
    have hnu : n.stamp.owner ≠ u := fun heq => hdisjoint _ hk (hown n hold heq)
    rw [Registry.isActive, hconfined.get_eq _ hnu]
    exact h.unshared n hold hk hnt
  · rw [hget]
    exact h.recorded n (hmem n hn hnt) hnt
  · rw [hget]
    exact h.unrecorded
  · rw [hconfined.contents_eq hwf hwf' hown (hdisjoint k hk)]
    exact h.contents_eq k hk
  · obtain ⟨m', reads, hrun, hview, hreads⟩ := h.run
    refine ⟨m', reads, hrun, fun k hk => ?_, by rwa [hget]⟩
    rw [hconfined.view_eq hwf hwf' hown (some t) (hdisjoint k hk)]
    exact hview k hk

/-- nor to one that was carried out. -/
theorem Over.of_confined (h : Over m t ops s) (hconfined : Confined u P s s')
    (hwf : s.WellFormed) (hwf' : s'.WellFormed)
    (hown : ∀ n ∈ s.chain, n.stamp.owner = u → P n.key) (hne : t ≠ u)
    (hdisjoint : ∀ k, Mentions ops k → ¬ P k) : Over m t ops s' := by
  have hget := hconfined.get_eq t hne
  have hcontents : ∀ k, Mentions ops k → s'.contents k = s.contents k := fun k hk =>
    hconfined.contents_eq hwf hwf' hown (hdisjoint k hk)
  cases h with
  | committed hrun hops hstatus hreads hheld =>
      rw [Registry.status] at hstatus
      exact .committed hrun (hget ▸ hops) (by rw [Registry.status, hget, hstatus]) (hget ▸ hreads)
        fun k hk => (hcontents k hk).trans (hheld k hk)
  | aborted hrun htake hops hstatus hreads hheld =>
      rw [Registry.status] at hstatus
      exact .aborted hrun htake (hget ▸ hops) (by rw [Registry.status, hget, hstatus])
        (hget ▸ hreads) fun k hk => (hcontents k hk).trans (hheld k hk)

end Confined

/-! ### The next operation -/

namespace WellFormed

variable {s : Store κ υ}

/-- A search shows nobody anything else. -/
theorem view_searched (h : s.WellFormed) (k : κ) (viewer : Option TxnRef) (x : κ) :
    (s.searched k).view viewer x = s.view viewer x := by
  by_cases hex : ∃ n ∈ s.chain, n.key = x
  · obtain ⟨n, hn, rfl⟩ := hex
    rw [h.view_of_mem hn]
    by_cases hgone : (decide (n.key = k) && s.isStale n) = true
    · have hstale := (Bool.and_eq_true_iff.mp hgone).2
      rw [resolve, if_pos hstale]
      refine view_of_absent (fun a ha hkey => ?_) viewer
      obtain ⟨hmem, hkept⟩ := mem_chain_drop.mp ha
      rw [h.eq_of_key hmem hn hkey, hgone] at hkept
      cases hkept
    · rw [Bool.not_eq_true] at hgone
      exact (h.searched k).view_of_mem (mem_chain_drop.mpr ⟨hn, hgone⟩) viewer
  · have hgone : ∀ n ∈ (s.searched k).chain, n.key ≠ x := fun n hn hkey =>
      hex ⟨n, (mem_chain_drop.mp hn).1, hkey⟩
    rw [view_of_absent hgone, view_of_absent fun n hn hkey => hex ⟨n, hn, hkey⟩]

end WellFormed

/-- What a stamp leaves: its transaction sees the operation, and nobody else does. -/
theorem Placed.view_eq {s s₁ s' : Store κ υ} {a : Node κ υ} (h : s.Placed a s₁)
    (hwf : s.WellFormed) (hwf' : s'.WellFormed) (hchain : s'.chain = s₁.chain)
    (hactive : s.registry.isActive a.stamp.owner) (hactive' : s'.registry.isActive a.stamp.owner)
    (hget : ∀ u, u ≠ a.stamp.owner → s'.registry.get u = s.registry.get u) :
    s'.view (some a.stamp.owner) a.key = a.stamp.after ∧ s'.contents a.key = a.stamp.before ∧
      ∀ viewer x, x ≠ a.key → s'.view viewer x = s.view viewer x := by
  have ha : a ∈ s'.chain := hchain ▸ (h.mem_iff a).mpr (Or.inr rfl)
  refine ⟨?_, ?_, fun viewer x hx => ?_⟩
  · rw [hwf'.view_of_mem ha, resolve_owner hactive']
  · rw [hwf'.contents_of_mem ha rfl, resolve_of_isActive hactive']
  · refine hwf.view_congr hwf' (fun n hn => ?_) fun n _ _ => ?_
    · rw [hchain, h.mem_iff]
      refine ⟨fun hmem => (hmem.resolve_right ?_).1, fun hmem => Or.inl ⟨hmem, hn ▸ hx⟩⟩
      rintro rfl
      exact hx hn.symm
    · by_cases hown : n.stamp.owner = a.stamp.owner
      · exact resolve_congr_of_isActive (hown ▸ hactive) (hown ▸ hactive') viewer
      · exact resolve_congr (hget _ hown) viewer

section Publish

variable {s : Store κ υ} {t : TxnRef} {i : Nat} {op : Operation κ υ}

omit [LinearOrder κ] in
/-- The effect of an operation that has none on record yet is. -/
theorem effect?_publish_next (hop : (s.registry.get t).op? i = some op) (id : NodeId)
    (after : Option υ) (hnone : (s.registry.get t).effect? i = none) (j : Nat) :
    ((s.publish t i op id after).registry.get t).effect? j =
      if j = i ∧ op.kind = .insert then some id else (s.registry.get t).effect? j := by
  rw [effect?_publish hop]
  by_cases hj : j = i ∧ op.kind = .insert
  · rw [if_pos hj, if_pos ⟨rfl, hj⟩, hj.1, hnone, Option.none_or]
  · rw [if_neg hj, if_neg fun hall => hj hall.2]

omit [LinearOrder κ] in
/-- What the next operation has read comes after the reads so far. -/
theorem read?_publish_next (hop : (s.registry.get t).op? i = some op) (id : NodeId)
    (after : Option υ) {reads : List (Option υ)} (hlength : reads.length = i)
    (hreads : ∀ j, (s.registry.get t).read? j = reads[j]?.join) (j : Nat) :
    ((s.publish t i op id after).registry.get t).read? j =
      (reads ++ [op.readOf after])[j]?.join := by
  rw [read?_publish hop, hreads]
  rcases Nat.lt_trichotomy j i with hj | rfl | hj
  · rw [if_neg fun hall => by omega, List.getElem?_append_left (by omega)]
  · have hnone : reads[j]? = none := List.getElem?_eq_none_iff.mpr hlength.le
    rw [hnone, List.getElem?_append_right hlength.le, hlength, Nat.sub_self]
    by_cases hfind : op.isFind <;> simp [hfind, readOf]
  · have hnone : reads[j]? = none := List.getElem?_eq_none_iff.mpr (by omega)
    have hnone' : (reads ++ [op.readOf after])[j]? = none :=
      List.getElem?_eq_none_iff.mpr (by rw [List.length_append, List.length_singleton]; omega)
    rw [if_neg fun hall => by omega, hnone, hnone']

end Publish

namespace Working

variable {m : Contents κ υ} {t : TxnRef} {ops : List (Operation κ υ)} {i : Nat} {s s' : Store κ υ}
  {op : Operation κ υ}

/-- The operation at a position is the one of the list. -/
theorem op?_eq (h : Working m t ops i s) : (s.registry.get t).op? i = ops[i]? := by
  rw [Transaction.op?_eq, h.ops_eq]

/-- A search does not disturb a transaction at work. -/
theorem searched (h : Working m t ops i s) (hwf : s.WellFormed) (k : κ) :
    Working m t ops i (s.searched k) where
  active := h.active
  ops_eq := h.ops_eq
  le := h.le
  unshared n hn := h.unshared n (mem_chain_drop.mp hn).1
  index_lt n hn := h.index_lt n (mem_chain_drop.mp hn).1
  recorded n hn := h.recorded n (mem_chain_drop.mp hn).1
  unrecorded := h.unrecorded
  contents_eq x hx := by
    rw [hwf.contents_searched]
    exact h.contents_eq x hx
  run := by
    obtain ⟨m', reads, hrun, hview, hreads⟩ := h.run
    exact ⟨m', reads, hrun, fun x hx => (hwf.view_searched k (some t) x).trans (hview x hx), hreads⟩

/-- The stamp of the next operation is put where it belongs, and the operation is published: it has
succeeded, as it does on the map. -/
theorem placed (h : Working m t ops i s) (hwf : s.WellFormed) (hop : ops[i]? = some op)
    {after : Option υ} (hafter : op.after? (s.view (some t) op.key) = some after)
    {s₁ : Store κ υ} {a : Node κ υ} (hplaced : s.Placed a s₁) (hkey : a.key = op.key)
    (hstamp : a.stamp = ⟨t, i, s.contents op.key, after⟩) :
    Working m t ops (i + 1) (s₁.publish t i op a.id after) := by
  obtain ⟨id, key, stamp, stampMarked, linkMarked⟩ := a
  obtain rfl : key = op.key := hkey
  obtain rfl : stamp = ⟨t, i, s.contents op.key, after⟩ := hstamp
  have hmentions : Mentions ops op.key := ⟨op, List.mem_of_getElem? hop, rfl⟩
  have hlt : i < ops.length := (List.getElem?_eq_some_iff.mp hop).1
  have hop₁ : (s₁.registry.get t).op? i = some op := by rw [hplaced.registry_eq, h.op?_eq, hop]
  have hwf' : (s₁.publish t i op id after).WellFormed :=
    hplaced.wellFormed.publish hop₁ (hplaced.wellFormed.id_lt _
      (List.mem_append_left _ ((hplaced.mem_iff _).mpr (Or.inr rfl)))) after
  have hslots := s₁.slotsOnly_publish t i op id after
  rw [hplaced.registry_eq] at hslots
  have hactive : (s₁.publish t i op id after).registry.isActive t := by
    rw [hslots.isActive_eq]
    exact h.active
  obtain ⟨hnew, hheld, hother⟩ :=
    hplaced.view_eq hwf hwf' (chain_publish ..) h.active hactive fun u hu => by
      rw [s₁.get_publish_of_ne hu, hplaced.registry_eq]
  have heffect := effect?_publish_next hop₁ id after
    (by rw [hplaced.registry_eq]; exact h.unrecorded i (Nat.le_refl i))
  rw [hplaced.registry_eq] at heffect
  -- The nodes are those from before, and the one with the stamp.
  have hmem : ∀ n ∈ (s₁.publish t i op id after).chain, n ∈ s.chain ∨
      n = ⟨id, op.key, ⟨t, i, s.contents op.key, after⟩, stampMarked, linkMarked⟩ := fun n hn => by
    rw [chain_publish, hplaced.mem_iff] at hn
    exact hn.imp_left And.left
  refine ⟨hactive, (hslots.ops_eq t).trans h.ops_eq, hlt, fun n hn hnkey hnt => ?_,
    fun n hn hnt => ?_, fun n hn hnt hkind => ?_, fun j hj => ?_, fun k hk => ?_, ?_⟩
  · rcases hmem n hn with hold | rfl
    · rw [hslots.isActive_eq]
      exact h.unshared n hold hnkey hnt
    · exact absurd rfl hnt
  · rcases hmem n hn with hold | rfl
    · exact Nat.lt_succ_of_lt (h.index_lt n hold hnt)
    · exact Nat.lt_succ_self i
  · rw [Transaction.kind?_congr (hslots.ops_eq t)] at hkind
    rw [heffect]
    rcases hmem n hn with hold | rfl
    · rw [if_neg fun hall => Nat.ne_of_lt (h.index_lt n hold hnt) hall.1]
      exact h.recorded n hold hnt hkind
    · rw [Transaction.kind?, h.op?_eq, hop] at hkind
      rw [if_pos ⟨rfl, Option.some.inj hkind⟩]
  · rw [heffect, if_neg fun hall => by omega]
    exact h.unrecorded j (by omega)
  · by_cases hx : k = op.key
    · rw [hx, hheld]
      exact h.contents_eq _ hmentions
    · rw [← hwf'.view_none, hother none k hx, hwf.view_none]
      exact h.contents_eq k hk
  · obtain ⟨m', reads, hrun, hview, hreads⟩ := h.run
    rw [hview _ hmentions] at hafter
    have hlength := Contents.length_of_run hrun
    rw [List.length_take, Nat.min_eq_left h.le] at hlength
    rw [← hplaced.registry_eq] at hreads
    refine ⟨m'.set op.key after, reads ++ [op.readOf after], Contents.run_take_succ hrun hop hafter,
      fun k hk => ?_, read?_publish_next hop₁ id after hlength hreads⟩
    by_cases hx : k = op.key
    · rw [hx, hnew, Contents.set_self]
    · rw [hother (some t) k hx, Contents.set_of_ne m' hx]
      exact hview k hk

/-- The operation that fails is the first one that does on the map. -/
theorem run_eq_error (h : Working m t ops i s) (hop : ops[i]? = some op)
    (hfails : op.after? (s.view (some t) op.key) = none) : m.run ops = .error i := by
  obtain ⟨m', reads, hrun, hview, -⟩ := h.run
  rw [hview _ ⟨op, List.mem_of_getElem? hop, rfl⟩] at hfails
  exact Contents.run_eq_error hop ((Contents.run_eq_ok_iff ..).mp hrun).1 hfails

/-- **The next operation** succeeds, or it fails as it does on the map; nothing blocks it. -/
theorem attempt (h : Working m t ops i s) (hwf : s.WellFormed) (hop : ops[i]? = some op)
    {progress : Progress} (hattempt : s.attempt t i op = (s', progress)) :
    (∃ id, progress = .applied id ∧ Working m t ops (i + 1) s') ∨
      progress = .refused ∧ m.run ops = .error i ∧ Working m t ops i s' := by
  have hwf₁ := hwf.searched op.key
  have h₁ := h.searched hwf op.key
  have hop' : (s.registry.get t).op? i = some op := h.op?_eq.trans hop
  have hkey : Mentions ops op.key := ⟨op, List.mem_of_getElem? hop, rfl⟩
  -- On a node that is there to stay, the transaction sees what the stamp says.
  have hcontent : ∀ n ∈ (s.searched op.key).chain, n.key = op.key →
      (s.searched op.key).view (some t) op.key =
        n.stamp.content (s.searched op.key).registry (some t) := by
    intro n hn hnkey
    have hview := hwf₁.view_of_mem hn (some t)
    rw [hnkey, resolve, not_isStale_of_mem_searched hn hnkey] at hview
    exact hview
  have hcases := hwf.attempted t i op
  rw [hattempt] at hcases
  cases hcases with
  | @blocked n hn hnkey hforeign hactive =>
      have hover := h₁.unshared n hn (hnkey ▸ hkey) hforeign
      rw [hactive] at hover
      cases hover
  | @repeated n hn hnkey hown hle =>
      exact absurd (h₁.index_lt n hn hown) (Nat.not_lt.mpr hle)
  | @stamped n after hn hnkey hfree hactive hafter =>
      rw [← hcontent n hn hnkey] at hafter
      have hbefore : n.stamp.baseline (s.searched op.key).registry t =
          (s.searched op.key).contents op.key := by
        rw [baseline_eq_resolve hactive hfree (not_isStale_of_mem_searched hn hnkey),
          hwf₁.contents_of_mem hn hnkey]
      have hplaced := hwf₁.placed_stampNode hop' hn hnkey after
      have hnext := h₁.placed hwf₁ hop hafter hplaced hnkey (by rw [hbefore])
      exact Or.inl ⟨n.id, rfl, hnext⟩
  | @linked c after hplace hactive hafter =>
      rw [← view_of_absent hplace.absent (some t)] at hafter
      have hplaced := hwf₁.placed_linkNode hop' hplace after
      have hnext := h₁.placed hwf₁ hop hafter hplaced rfl
        (by rw [contents_of_absent hplace.absent])
      exact Or.inl ⟨_, rfl, hnext⟩
  | @refused n hn hnkey hfree hfails =>
      have hnone := hfails h.active
      rw [← hcontent n hn hnkey] at hnone
      exact Or.inr ⟨rfl, h₁.run_eq_error hop hnone, h₁⟩
  | missing habsent hfails =>
      have hnone := hfails h.active
      rw [← view_of_absent habsent (some t)] at hnone
      exact Or.inr ⟨rfl, h₁.run_eq_error hop hnone, h₁⟩

/-! ### The end -/

/-- What the transaction has read, and nothing at the positions to come. -/
theorem reads_eq (h : Working m t ops i s) {reads : List (Option υ)} (hlength : reads.length = i)
    (hreads : ∀ j, (s.registry.get t).read? j = reads[j]?.join) :
    (s.registry.get t).reads = reads ++ List.replicate (ops.length - i) none := by
  have hsize : (s.registry.get t).size = ops.length := by
    rw [← Transaction.ops_length, h.ops_eq]
  refine List.ext_getElem? fun j => ?_
  rw [Transaction.reads_eq_map_range, hsize, List.getElem?_map]
  by_cases hj : j < ops.length
  · rw [List.getElem?_range hj, Option.map_some, hreads]
    by_cases hji : j < i
    · rw [List.getElem?_append_left (by omega), List.getElem?_eq_getElem (by omega)]
      rfl
    · have hnone : reads[j]? = none := List.getElem?_eq_none_iff.mpr (by omega)
      rw [List.getElem?_append_right (by omega), List.getElem?_replicate_of_lt (by omega), hnone]
      rfl
  · have hle := h.le
    rw [List.getElem?_eq_none_iff.mpr (by rw [List.length_range]; omega),
      List.getElem?_eq_none_iff.mpr (by rw [List.length_append, List.length_replicate]; omega)]
    rfl

/-- Once the transaction commits, everybody sees what it saw. -/
theorem contents_settle_committed (h : Working m t ops i s) (hwf : s.WellFormed) (fake : Bool)
    (k : κ) : (s.settle t .committed fake).contents k = s.view (some t) k := by
  have hwf' := hwf.settle t .committed fake
  by_cases hex : ∃ n ∈ s.chain, n.key = k
  · obtain ⟨n, hn, rfl⟩ := hex
    have hn' : n ∈ (s.settle t .committed fake).chain := by rwa [chain_settle]
    rw [hwf'.contents_of_mem hn' rfl, hwf.view_of_mem hn]
    by_cases hown : n.stamp.owner = t
    · have hstatus : ((s.settle t .committed fake).registry.get n.stamp.owner).status =
          .committed := by
        rw [status_settle, if_pos ⟨hown, h.active⟩]
      have hstale : (s.settle t .committed fake).isStale n = false := by
        rw [isStale, hown, Transaction.kind?_congr (ops_settle ..), effect?_settle]
        by_cases hkind : (s.registry.get t).kind? n.stamp.index = some .insert
        · simp [h.recorded n hn hown hkind]
        · simp [hkind]
      have hseen := resolve_owner (n := n) (hown ▸ h.active)
      rw [hown] at hseen
      rw [hseen, resolve, hstale]
      simp [Stamp.content, Registry.status, hstatus]
    · rw [resolve_congr (s.get_settle_of_ne hown .committed fake), resolve_eq_of_not_owned
        fun heq => absurd heq hown]
  · have habsent : ∀ n ∈ s.chain, n.key ≠ k := fun n hn hkey => hex ⟨n, hn, hkey⟩
    rw [contents_of_absent (by rwa [chain_settle]), view_of_absent habsent]

/-- **A transaction that has performed everything, or that has failed,** is carried out once its
frame is finished. -/
theorem finish {f : Frame} (h : Working m f.txn ops i s) (hwf : s.WellFormed)
    (hend : f.failed = true ∧ m.run ops = .error i ∨
      f.failed = false ∧ f.next = i ∧ ops.length ≤ i) : Over m f.txn ops (s.finish f) := by
  obtain ⟨m', reads, hrun, hview, hreads⟩ := h.run
  have hlength := Contents.length_of_run hrun
  rw [List.length_take, Nat.min_eq_left h.le] at hlength
  have hget : ∀ final, ((s.settle f.txn final false).sweep f).registry.get f.txn =
      { s.registry.get f.txn with status := final } := fun final => by
    rw [registry_sweep, get_settle, if_pos rfl, Transaction.finalize]
    exact if_pos h.active
  have hops : ∀ final, (((s.settle f.txn final false).sweep f).registry.get f.txn).ops = ops :=
    fun final => by
      rw [hget]
      exact h.ops_eq
  have hreads' : ∀ final, (((s.settle f.txn final false).sweep f).registry.get f.txn).reads =
      reads ++ List.replicate (ops.length - i) none := fun final => by
    rw [hget]
    exact h.reads_eq hlength hreads
  rw [Store.finish]
  rcases hend with ⟨hfailed, herror⟩ | ⟨hfailed, hnext, hall⟩
  · rw [if_pos hfailed]
    refine .aborted herror hrun (hops _) (by rw [Registry.status, hget]) (hreads' _) fun k hk => ?_
    rw [(hwf.settle f.txn .aborted false).contents_sweep, Coherent.contents_settle_aborted]
    exact h.contents_eq k hk
  · have hi : i = ops.length := Nat.le_antisymm h.le hall
    have hsize : (s.registry.get f.txn).size ≤ f.next := by
      rw [← Transaction.ops_length, h.ops_eq, hnext]
      exact hall
    rw [if_neg (by rw [hfailed]; exact Bool.false_ne_true), if_pos hsize]
    rw [hi, List.take_length] at hrun
    refine .committed hrun (hops _) (by rw [Registry.status, hget]) ?_ fun k hk => ?_
    · rw [hreads', hi, Nat.sub_self, List.replicate_zero, List.append_nil]
    · rw [(hwf.settle f.txn .committed false).contents_sweep, h.contents_settle_committed hwf]
      exact hview k hk

end Working

/-! ### How it ends -/

omit [LinearOrder κ] in
/-- The outcome tells whether a transaction is committed. -/
theorem isCommitted_outcome_iff (s : Store κ υ) (t : TxnRef) :
    (s.outcome t).isCommitted ↔ s.registry.status t = .committed := by
  rw [outcome, Registry.status]
  by_cases hstatus : (s.registry.get t).status = .committed
  · rw [if_pos hstatus, Outcome.isCommitted]
    exact iff_of_true (Code.isCommitted_ofCommitted _) hstatus
  · rw [if_neg hstatus]
    exact iff_of_false Bool.false_ne_true hstatus

namespace Over

variable {m : Contents κ υ} {t u : TxnRef} {ops : List (Operation κ υ)} {s s' : Store κ υ}

/-- A transaction that is over has the operations that it had. -/
theorem ops_eq (h : Over m t ops s) : (s.registry.get t).ops = ops := by
  cases h with
  | committed _ hops _ _ _ => exact hops
  | aborted _ _ hops _ _ _ => exact hops

/-- A transaction that is over is not active. -/
theorem not_isActive (h : Over m t ops s) : s.registry.isActive t = false := by
  rw [Bool.eq_false_iff]
  intro hactive
  rw [Registry.isActive_iff] at hactive
  cases h with
  | committed _ _ hstatus _ _ => cases hactive.symm.trans hstatus
  | aborted _ _ _ hstatus _ _ => cases hactive.symm.trans hstatus

/-- If its operations succeed on the map, the transaction is committed with the same reads, and
leaves what they leave. -/
theorem of_run_eq_ok (h : Over m t ops s) {m' : Contents κ υ} {reads : List (Option υ)}
    (hrun : m.run ops = .ok (m', reads)) : s.outcome t = ⟨.ofCommitted ops, reads⟩ ∧
      ∀ k, Mentions ops k → s.contents k = m' k := by
  cases h with
  | committed hrun' hops hstatus hreads hcontents =>
      obtain ⟨rfl, rfl⟩ := Prod.mk.inj (Except.ok.inj (hrun.symm.trans hrun'))
      rw [Registry.status] at hstatus
      rw [outcome, if_pos hstatus, hops, hreads]
      exact ⟨rfl, hcontents⟩
  | aborted hrun' _ _ _ _ _ => cases hrun.symm.trans hrun'

/-- The transaction is committed exactly if its operations succeed on the map. -/
theorem status_eq_committed_iff (h : Over m t ops s) :
    s.registry.status t = .committed ↔ ∃ m' reads, m.run ops = .ok (m', reads) := by
  cases h with
  | committed hrun _ hstatus _ _ => exact iff_of_true hstatus ⟨_, _, hrun⟩
  | aborted hrun _ _ hstatus _ _ =>
      rw [hstatus, hrun]
      exact iff_of_false Status.noConfusion fun ⟨_, _, hok⟩ => by cases hok

/-- **The map decides** the status of the transaction, what it has read, and its outcome. -/
theorem same (h : Over m t ops s) (h' : Over m u ops s') :
    s'.registry.status u = s.registry.status t ∧
      (s'.registry.get u).reads = (s.registry.get t).reads ∧ s'.outcome u = s.outcome t := by
  cases h with
  | committed hrun hops hstatus hreads _ =>
      cases h' with
      | committed hrun' hops' hstatus' hreads' _ =>
          obtain ⟨-, rfl⟩ := Prod.mk.inj (Except.ok.inj (hrun.symm.trans hrun'))
          refine ⟨hstatus'.trans hstatus.symm, hreads'.trans hreads.symm, ?_⟩
          rw [Registry.status] at hstatus hstatus'
          rw [outcome, outcome, if_pos hstatus, if_pos hstatus', hops, hops', hreads, hreads']
      | aborted hrun' _ _ _ _ _ => cases hrun.symm.trans hrun'
  | aborted hrun htake hops hstatus hreads _ =>
      cases h' with
      | committed hrun' _ _ _ _ => cases hrun.symm.trans hrun'
      | aborted hrun' htake' hops' hstatus' hreads' _ =>
          obtain rfl := Except.error.inj (hrun.symm.trans hrun')
          obtain ⟨-, rfl⟩ := Prod.mk.inj (Except.ok.inj (htake.symm.trans htake'))
          refine ⟨hstatus'.trans hstatus.symm, hreads'.trans hreads.symm, ?_⟩
          rw [Registry.status] at hstatus hstatus'
          have hne : (s.registry.get t).status ≠ .committed := by
            rw [hstatus]
            decide
          have hne' : (s'.registry.get u).status ≠ .committed := by
            rw [hstatus']
            decide
          rw [outcome, outcome, if_neg hne, if_neg hne', ← Transaction.ops_length,
            ← Transaction.ops_length, hops, hops']

end Over

/-! ### Transactions that are executed alone -/

/-- A transaction that was registered, in a store in which all owners of nodes are over. -/
theorem Working.start {s : Store κ υ} (hwf : s.WellFormed) {t : TxnRef} {id : Nat}
    {ops : List (Operation κ υ)} (hget : s.registry.get t = .ofOperations id ops)
    (hover : ∀ n ∈ s.chain, n.stamp.owner ≠ t ∧ s.registry.isActive n.stamp.owner = false) :
    Working s.contents t ops 0 s where
  active := by
    rw [Registry.isActive, hget]
    rfl
  ops_eq := by rw [hget, Transaction.ops_ofOperations]
  le := Nat.zero_le _
  unshared n hn _ _ := (hover n hn).2
  index_lt n hn hown := absurd hown (hover n hn).1
  recorded n hn hown := absurd hown (hover n hn).1
  unrecorded j _ := by rw [hget, Transaction.effect?_ofOperations]
  contents_eq _ _ := rfl
  run := by
    refine ⟨s.contents, [], rfl, fun k _ => ?_, fun j => ?_⟩
    · by_cases hex : ∃ n ∈ s.chain, n.key = k
      · obtain ⟨n, hn, rfl⟩ := hex
        rw [hwf.view_of_mem hn, hwf.contents_of_mem hn rfl,
          resolve_eq_of_not_owned fun hown => absurd hown (hover n hn).1]
      · rw [view_of_absent fun n hn hkey => hex ⟨n, hn, hkey⟩,
          contents_of_absent fun n hn hkey => hex ⟨n, hn, hkey⟩]
    · rw [hget, Transaction.read?_ofOperations]
      rfl

/-- **The loop** carries a transaction out that nothing blocks. -/
theorem Working.run_loop {m : Contents κ υ} {ops : List (Operation κ υ)} {i : Nat} {s : Store κ υ}
    {f : Frame} (h : Working m f.txn ops i s) (hwf : s.WellFormed)
    (hf : f.failed = true ∧ m.run ops = .error i ∨ f.failed = false ∧ f.next = i) :
    Over m f.txn ops (Drive.run ⟨s, ⟨[f]⟩⟩) ∧ (Drive.run ⟨s, ⟨[f]⟩⟩).WellFormed ∧
      Confined f.txn (Mentions ops) s (Drive.run ⟨s, ⟨[f]⟩⟩) := by
  generalize hd : (⟨s, ⟨[f]⟩⟩ : Drive κ υ) = d
  induction d using Drive.rounds_induction generalizing s f i with
  | last d hnone =>
      subst hd
      cases Drive.advance_eq_none_iff.mp hnone
  | round d d' hadvance ih =>
      subst hd
      rw [Drive.run_of_some hadvance]
      obtain ⟨g, below, hframes, hround⟩ := Drive.round_of_advance hadvance
      obtain ⟨rfl, rfl⟩ := List.cons.inj hframes
      -- Whatever is attempted, the transaction is at work and its operation is the next one.
      have hnext : ∀ op, f.pending? s.registry = some op →
          f.failed = false ∧ Working m f.txn ops f.next s ∧ ops[f.next]? = some op := by
        intro op hpending
        obtain ⟨hfailed, -, hop⟩ := Frame.pending?_eq_some_iff.mp hpending
        obtain ⟨-, rfl⟩ := hf.resolve_left fun hfail => by
          rw [hfailed] at hfail
          cases hfail.1
        exact ⟨hfailed, h, h.op?_eq.symm.trans hop⟩
      have hfree : ∀ {op s' owner resume}, f.pending? s.registry = some op →
          s.attempt f.txn f.next op = (s', .blocked owner resume) → False := by
        intro op s' owner resume hpending hattempt
        obtain ⟨-, hw, hop⟩ := hnext op hpending
        rcases hw.attempt hwf hop hattempt with ⟨id, happlied, -⟩ | ⟨hrefused, -, -⟩
        · cases happlied
        · cases hrefused
      cases hround with
      | finished hdone =>
          have hend : f.failed = true ∧ m.run ops = .error i ∨
              f.failed = false ∧ f.next = i ∧ ops.length ≤ i := by
            refine hf.imp_right fun hgoing => ?_
            obtain ⟨hfailed, rfl⟩ := hgoing
            refine ⟨hfailed, rfl, ?_⟩
            simpa [Frame.pending?, hfailed, h.active, h.op?_eq] using hdone
          rw [Drive.run_of_none rfl]
          exact ⟨h.finish hwf hend, hwf.finish f, hwf.confined_finish f fun n hn hown =>
            h.ops_eq ▸ hwf.mentions_of_owner hn hown⟩
      | @performed op s' progress n hpending hattempt hnode =>
          obtain ⟨hfailed, hw, hop⟩ := hnext op hpending
          have hwf' := hwf.attempt (hw.op?_eq.trans hop)
          rw [hattempt] at hwf'
          rcases hw.attempt hwf hop hattempt with ⟨id, rfl, hw'⟩ | ⟨rfl, -, -⟩
          · have hconfined' := hwf.confined_attempt (P := Mentions ops) hattempt (by simp)
              ⟨op, List.mem_of_getElem? hop, rfl⟩
            obtain ⟨hover, hwf'', hconfined⟩ := ih
              (f := { f with next := f.next + 1, touched := f.touched ++ [n] })
              hw' hwf' (Or.inr ⟨hfailed, rfl⟩) rfl
            exact ⟨hover, hwf'', hconfined'.trans hconfined⟩
          · cases hnode
      | @failed op s' hpending hattempt =>
          obtain ⟨hfailed, hw, hop⟩ := hnext op hpending
          have hwf' := hwf.attempt (hw.op?_eq.trans hop)
          rw [hattempt] at hwf'
          rcases hw.attempt hwf hop hattempt with ⟨id, happlied, -⟩ | ⟨-, herror, hw'⟩
          · cases happlied
          · have hconfined' := hwf.confined_attempt (P := Mentions ops) hattempt (by simp)
              ⟨op, List.mem_of_getElem? hop, rfl⟩
            obtain ⟨hover, hwf'', hconfined⟩ := ih (f := { f with failed := true })
              hw' hwf' (Or.inl ⟨rfl, herror⟩) rfl
            exact ⟨hover, hwf'', hconfined'.trans hconfined⟩
      | pushed hpending hattempt _ => exact (hfree hpending hattempt).elim
      | unwound hpending hattempt _ => exact (hfree hpending hattempt).elim

/-- No transaction is active. -/
def Quiescent (s : Store κ υ) : Prop :=
  ∀ t, s.registry.isActive t = false

section Execute

variable {s : Store κ υ} (hwf : s.WellFormed) (hquiet : s.Quiescent) (ops : List (Operation κ υ))

include hwf hquiet

/-- **A transaction that is executed while no other is active** is carried out as on the map of the
live entries. -/
theorem over_execute : Over s.contents s.registry.size ops (s.execute ops).1 ∧
    (s.execute ops).1.WellFormed ∧
    Confined s.registry.size (Mentions ops) (s.allocate ops).1 (s.execute ops).1 := by
  have hwf₁ := hwf.allocate ops
  have hget : ∀ t, (s.allocate ops).1.registry.get t =
      if t = s.registry.size then .ofOperations s.registry.size ops else s.registry.get t :=
    fun t => Registry.get_add ..
  have hwork : Working (s.allocate ops).1.contents s.registry.size ops 0 (s.allocate ops).1 := by
    refine .start hwf₁ ((hget _).trans (if_pos rfl)) fun n hn => ?_
    have hne : n.stamp.owner ≠ s.registry.size := Nat.ne_of_lt (hwf.owner_lt hn)
    refine ⟨hne, ?_⟩
    rw [Registry.isActive, hget, if_neg hne]
    exact hquiet _
  rw [Coherent.contents_allocate hwf] at hwork
  exact hwork.run_loop (f := { txn := s.registry.size, next := 0 }) hwf₁ (Or.inr ⟨rfl, rfl⟩)

/-- No transaction is active after it. -/
theorem quiescent_execute : (s.execute ops).1.Quiescent := by
  obtain ⟨hover, -, hconfined⟩ := over_execute hwf hquiet ops
  intro t
  by_cases ht : t = s.registry.size
  · rw [ht]
    exact hover.not_isActive
  · rw [Registry.isActive, hconfined.get_eq t ht, allocate, Registry.get_add, if_neg ht]
    exact hquiet t

/-- If its operations succeed on the map, the live entries are those of the map after them. -/
theorem contents_execute {m' : Contents κ υ} {reads : List (Option υ)}
    (hrun : s.contents.run ops = .ok (m', reads)) : (s.execute ops).1.contents = m' := by
  obtain ⟨hover, hwf', hconfined⟩ := over_execute hwf hquiet ops
  funext k
  by_cases hk : Mentions ops k
  · exact (hover.of_run_eq_ok hrun).2 k hk
  · rw [hconfined.contents_eq (hwf.allocate ops) hwf' (fun n hn hown =>
        absurd hown (Nat.ne_of_lt (hwf.owner_lt hn))) hk,
      Coherent.contents_allocate hwf, Contents.run_of_ne hrun fun op hop hkey => hk ⟨op, hop, hkey⟩]

end Execute

end Store

end AtomicSet
