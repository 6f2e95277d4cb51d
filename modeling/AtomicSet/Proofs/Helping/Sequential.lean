import AtomicSet.Proofs.Helping.Orderly

/-!
# Transactions one after another

While every other transaction is over, nothing blocks a thread. It performs its operations in order
and each succeeds or fails as it does on the map, so the transaction is committed exactly if it runs
on the map as a whole. The thread knows every node that carries its stamp, and sweeps those that
hold nothing in the end. So the chain is left with nodes that hold something, whatever stamps of
earlier transactions they carry.

## Main definitions

* `Store.Rests` — every transaction is over, every node holds something, and the live entries are
  those of a map.
* `Drive.Alone` — a frame drives the only active transaction.

## Main results

* `Store.Coherent.run_eq_error_of_refused` — an operation that is refused fails on the map.
* `Drive.Alone.advance` — a round for the only active transaction.
* `Store.Rests.execute_of_run_eq_ok`, `Store.Rests.execute_of_run_eq_error` — whole transactions.
* `Store.Rests.survey_eq` — the chain has no other nodes than those of the live entries.
-/

namespace AtomicSet

open Operation

variable {κ υ : Type} [LinearOrder κ]

namespace Store

/-! ### Refusals -/

namespace Coherent

variable {s : Store κ υ}

/-- The operations that a transaction has performed succeed on the live entries. -/
theorem exists_replay (h : s.Coherent) {t : TxnRef} {i : Nat} (hactive : s.registry.isActive t)
    (hreached : s.Reached t i) (k : κ) :
    ∃ held, replay k ((s.registry.get t).ops.take i) (s.contents k) = some held := by
  by_cases hex : ∃ n ∈ s.chain, n.key = k
  · obtain ⟨n, hn, rfl⟩ := hex
    rw [h.wellFormed.contents_of_mem hn rfl]
    by_cases hown : n.stamp.owner = t
    · subst hown
      rw [resolve_of_isActive hactive]
      by_cases hlt : n.stamp.index < i
      · have hreplay := h.replay_of_reached hactive hreached hn (Or.inl ⟨rfl, hlt⟩)
        rw [Stamp.baseline, if_pos rfl] at hreplay
        exact ⟨_, hreplay⟩
      · have hle : i ≤ n.stamp.index + 1 := by omega
        exact replay_take_of_le hle (h.faithful n hn hactive).replays
    · exact ⟨_, h.replay_of_not_owned hreached.performed hn hown _⟩
  · rw [contents_of_absent fun n hn hkey => hex ⟨n, hn, hkey⟩]
    exact ⟨none, replay_of_absent hreached.performed (fun n hn hkey => hex ⟨n, hn, hkey⟩) none⟩

/-- **An operation that is refused** is the first one of its transaction that fails on the live
entries. -/
theorem run_eq_error_of_refused (h : s.Coherent) {t : TxnRef} {i : Nat} {op : Operation κ υ}
    {s' : Store κ υ} (hop : (s.registry.get t).op? i = some op)
    (hactive : s.registry.isActive t) (hreached : s.Reached t i)
    (hattempt : s.attempt t i op = (s', .refused)) :
    s.contents.run (s.registry.get t).ops = .error i := by
  have hs := h.searched op.key
  have hreached : (s.searched op.key).Reached t i := reached_searched hactive hreached op.key
  have hcontents := h.wellFormed.contents_searched op.key
  -- What each key holds when the operation is refused.
  choose m hm using hs.exists_replay hactive hreached
  have hfails : op.after? (m op.key) = none := by
    have hcases := h.wellFormed.attempted t i op
    rw [hattempt] at hcases
    cases hcases with
    | @refused n hn hkey hfree hfails =>
        have hstale := not_isStale_of_mem_searched hn hkey
        have hreplay := hs.replay_of_reached hactive hreached hn hfree
        rw [baseline_eq_resolve (s := s.searched op.key) hactive hfree hstale, hkey,
          ← hs.wellFormed.contents_of_mem hn hkey, hm op.key] at hreplay
        rw [Option.some.inj hreplay]
        exact hfails hactive
    | missing habsent hfails =>
        have hreplay := hm op.key
        rw [contents_of_absent habsent, replay_of_absent hreached.performed habsent] at hreplay
        rw [← Option.some.inj hreplay]
        exact hfails hactive
  rw [Transaction.op?_eq] at hop
  rw [← hcontents]
  exact Contents.run_eq_error hop hm hfails

end Coherent

/-! ### Stores at rest -/

omit [LinearOrder κ] in
/-- Where every node holds something, the nodes are those of the live entries. -/
theorem survey_eq_of_live {s : Store κ υ} (h : ∀ n ∈ s.chain, (s.liveValue n).isSome) :
    s.survey = s.entries.map fun e => (e.1, true) := by
  rw [survey, entries]
  generalize s.chain = chain at h
  induction chain with
  | nil => rfl
  | cons n chain ih =>
      obtain ⟨v, hv⟩ := Option.isSome_iff_exists.mp (h n List.mem_cons_self)
      have hrest := ih fun n' hn' => h n' (List.mem_cons_of_mem n hn')
      rw [List.map_cons, hrest, List.filterMap_cons, hv]
      rfl

/-- Every transaction is over, every node holds something, and the live entries are those of the
map. -/
structure Rests (s : Store κ υ) (m : Contents κ υ) : Prop where
  coherent : s.Coherent
  recorded : s.Recorded
  decided : ∀ t, s.registry.isActive t = false
  live : ∀ n ∈ s.chain, (s.resolve none n).isSome
  contents_eq : s.contents = m

namespace Rests

variable {s : Store κ υ} {m : Contents κ υ}

/-- A new store is at rest and holds nothing. -/
theorem fresh : ({} : Store κ υ).Rests Contents.empty where
  coherent := .fresh
  recorded n hn := by cases hn
  decided t := by
    rw [Registry.isActive, Registry.get_of_size_le (Nat.zero_le t)]
    rfl
  live n hn := by cases hn
  contents_eq := rfl

/-- A store at rest lists the entries of its map. -/
theorem lists_entries (h : s.Rests m) : m.Lists s.entries :=
  h.contents_eq ▸ h.coherent.wellFormed.lists_entries

end Rests

end Store

namespace Drive

/-! ### The only active transaction -/

/-- In the store `s`, which lists the map `m` and has the counters `c`, the frame `f` drives the
only active transaction, with the operations `ops`. -/
structure Alone (m : Contents κ υ) (c : Tally) (ops : List (Operation κ υ)) (s : Store κ υ)
    (f : Frame) : Prop where
  orderly : Orderly ⟨s, ⟨[f]⟩⟩
  active : s.registry.isActive f.txn
  decided : ∀ t, t ≠ f.txn → s.registry.isActive t = false
  /-- The nodes of other transactions hold something. -/
  live : ∀ n ∈ s.chain, n.stamp.owner ≠ f.txn → (s.resolve none n).isSome
  /-- The thread knows the nodes of its own transaction. -/
  touched : ∀ n ∈ s.chain, n.stamp.owner = f.txn → n.id ∈ f.touched
  /-- The thread fails where the map does. -/
  failed : f.failed → ∃ i, m.run ops = .error i
  contents_eq : s.contents = m
  tally_eq : s.tally = c
  ops_eq : (s.registry.get f.txn).ops = ops

/-- The transaction `t` with the operations `ops` is over in the store `s`, where it was carried out
as on the map `m`; the counters were `c` before it. -/
inductive Carried (m : Contents κ υ) (c : Tally) (ops : List (Operation κ υ)) (s : Store κ υ)
    (t : TxnRef) : Prop where
  | committed {m' : Contents κ υ} {reads : List (Option υ)} (run : m.run ops = .ok (m', reads))
      (rests : s.Rests m') (outcome : s.outcome t = ⟨.ofCommitted ops, reads⟩)
      (tally : s.tally = c.commit)
  | aborted {i : Nat} (run : m.run ops = .error i) (rests : s.Rests m)
      (outcome : s.outcome t = .aborted .fail ops.length) (tally : s.tally = c.abort false)

namespace Alone

variable {m : Contents κ υ} {c : Tally} {ops : List (Operation κ υ)} {s s' : Store κ υ}
  {f f' : Frame} {op : Operation κ υ} {progress : Progress}

/-- Nothing blocks the only active transaction. -/
theorem not_blocked (h : Alone m c ops s f) (hpending : f.pending? s.registry = some op)
    {owner : TxnRef} {resume : Nat}
    (hattempt : s.attempt f.txn f.next op = (s', .blocked owner resume)) : False := by
  have hwaits : s.Waits f owner :=
    h.orderly.coherent.wellFormed.waits_iff_blocked.mpr ⟨op, resume, hpending, by rw [hattempt]⟩
  obtain ⟨-, -, -, -, -, -, hne, hactive⟩ := hwaits
  rw [h.decided owner hne] at hactive
  cases hactive

/-- An attempt that is noted in the frame keeps the invariant. -/
theorem attempt (h : Alone m c ops s f) (hpending : f.pending? s.registry = some op)
    (hattempt : s.attempt f.txn f.next op = (s', progress)) (horderly : Orderly ⟨s', ⟨[f']⟩⟩)
    (htxn : f'.txn = f.txn)
    (htouched : ∀ id, id ∈ f.touched ∨ progress.node? = some id → id ∈ f'.touched)
    (hfailed : f'.failed → progress = .refused) : Alone m c ops s' f' := by
  have hcoherent := h.orderly.coherent
  obtain ⟨hgo, hactive, hop⟩ := Frame.pending?_eq_some_iff.mp hpending
  have hreached := h.orderly.reached f List.mem_cons_self hgo hactive
  have hslots := slotsOnly_of_attempt hattempt
  have hcontents := hcoherent.contents_attempt hop fun _ => hreached
  have htally := hcoherent.wellFormed.tally_attempt f.txn f.next op
  rw [hattempt] at hcontents htally
  have hmem : ∀ n ∈ s'.chain, n ∈ s.chain ∨ n.stamp.owner = f.txn ∧ progress.node? = some n.id :=
    fun n hn => hcoherent.wellFormed.mem_chain_attempt hattempt hn
  have hops : (s'.registry.get f.txn).ops = ops := (hslots.ops_eq f.txn).trans h.ops_eq
  refine ⟨horderly, ?_, fun t ht => ?_, fun n hn hne => ?_, fun n hn hown => ?_, fun hfail => ?_,
    hcontents.trans h.contents_eq, htally.trans h.tally_eq, htxn ▸ hops⟩
  · rw [htxn, hslots.isActive_eq]
    exact h.active
  · rw [hslots.isActive_eq]
    exact h.decided t (htxn ▸ ht)
  · rw [htxn] at hne
    rcases hmem n hn with hold | ⟨hown, -⟩
    · rw [← horderly.coherent.wellFormed.contents_of_mem hn rfl, hcontents,
        hcoherent.wellFormed.contents_of_mem hold rfl]
      exact h.live n hold hne
    · exact absurd hown hne
  · rw [htxn] at hown
    rcases hmem n hn with hold | ⟨-, hnode⟩
    · exact htouched n.id (Or.inl (h.touched n hold hown))
    · exact htouched n.id (Or.inr hnode)
  · rw [hfailed hfail] at hattempt
    rw [← h.contents_eq, ← h.ops_eq]
    exact ⟨f.next, hcoherent.run_eq_error_of_refused hop hactive hreached hattempt⟩

/-- **A round for the only active transaction** is one more attempt, or the end. -/
theorem advance {d' : Drive κ υ} (h : Alone m c ops s f)
    (hadvance : Drive.advance ⟨s, ⟨[f]⟩⟩ = some d') :
    (∃ s' f', d' = ⟨s', ⟨[f']⟩⟩ ∧ f'.txn = f.txn ∧ Alone m c ops s' f') ∨
      f.pending? s.registry = none ∧ d' = ⟨s.finish f, ⟨[]⟩⟩ := by
  have horderly := h.orderly.advance hadvance
  obtain ⟨g, below, hframes, hround⟩ := round_of_advance hadvance
  obtain ⟨rfl, rfl⟩ := List.cons.inj hframes
  cases hround with
  | finished hdone => exact Or.inr ⟨hdone, rfl⟩
  | @performed op s' progress n hpending hattempt hnode =>
      refine Or.inl ⟨s', _, rfl, rfl, h.attempt hpending hattempt horderly rfl ?_ fun hfailed => ?_⟩
      · rintro id (hold | hnew)
        · exact List.mem_append_left _ hold
        · rw [hnode] at hnew
          exact List.mem_append_right _ (List.mem_singleton.mpr (Option.some.inj hnew).symm)
      · rw [(Frame.pending?_eq_some_iff.mp hpending).1] at hfailed
        cases hfailed
  | @failed op s' hpending hattempt =>
      refine Or.inl ⟨s', _, rfl, rfl, h.attempt hpending hattempt horderly rfl ?_ fun _ => rfl⟩
      rintro id (hold | hnew)
      · exact hold
      · cases hnew
  | pushed hpending hattempt _ => exact (h.not_blocked hpending hattempt).elim
  | unwound hpending hattempt _ => exact (h.not_blocked hpending hattempt).elim

/-- Once its transaction is decided, the thread leaves a store at rest. -/
theorem rests_sweep (h : Alone m c ops s f) {final : Status} (hfinal : final ≠ .active)
    (hreached : final = .committed → s.Reached f.txn (s.registry.get f.txn).size) :
    ((s.settle f.txn final false).sweep f).Rests (s.settle f.txn final false).contents := by
  have hcoherent := h.orderly.coherent
  have hsettled : (s.settle f.txn final false).Coherent :=
    hcoherent.settle false hfinal fun heq _ => hreached heq
  have hrecorded := h.orderly.recorded.actAll hcoherent.wellFormed
    [.settle f.txn final false, .sweep f]
  have hdecided : ∀ t, (s.settle f.txn final false).registry.isActive t = false := by
    intro t
    rw [Store.isActive_settle hfinal]
    by_cases ht : t = f.txn
    · simp [ht]
    · rw [h.decided t ht, Bool.and_false]
  refine ⟨hsettled.sweep f, hrecorded, fun t => ?_, fun n hn => ?_,
    hsettled.wellFormed.contents_sweep f⟩
  · rw [Store.registry_sweep]
    exact hdecided t
  · rw [hsettled.wellFormed.chain_sweep (hdecided f.txn), List.mem_filter] at hn
    obtain ⟨hn, hkept⟩ := hn
    have hold : n ∈ s.chain := by rwa [Store.chain_settle] at hn
    rw [Store.resolve_sweep]
    by_cases hown : n.stamp.owner = f.txn
    · simpa [Store.sweepable, Stamp.isOwnedBy, hown, h.touched n hold hown] using hkept
    · rw [← hsettled.wellFormed.liveValue_eq hn, s.liveValue_settle_of_ne final false hown,
        hcoherent.wellFormed.liveValue_eq hold]
      exact h.live n hold hown

/-- **The last round** decides the transaction as the map does. -/
theorem finish (h : Alone m c ops s f) (hdone : f.pending? s.registry = none) :
    Carried m c ops (s.finish f) f.txn := by
  have hcoherent := h.orderly.coherent
  have hwf : ∀ final, (s.settle f.txn final false).WellFormed := fun final =>
    hcoherent.wellFormed.settle f.txn final false
  have hget : ∀ final, ((s.settle f.txn final false).sweep f).registry.get f.txn =
      { s.registry.get f.txn with status := final } := fun final => by
    rw [Store.registry_sweep, Store.get_settle, if_pos rfl, Transaction.finalize]
    exact if_pos h.active
  rw [Store.finish]
  by_cases hfailed : f.failed
  · rw [if_pos hfailed]
    obtain ⟨i, hrun⟩ := h.failed hfailed
    have hne : Status.aborted ≠ .active := by decide
    have hrests := h.rests_sweep hne fun heq => by cases heq
    rw [Store.Coherent.contents_settle_aborted, h.contents_eq] at hrests
    refine .aborted hrun hrests ?_ ?_
    · rw [Store.outcome, hget, ← h.ops_eq, Transaction.ops_length]
      rfl
    · rw [(hwf .aborted).tally_sweep, Store.tally_settle h.active, ← h.tally_eq]
      rfl
  · rw [if_neg hfailed]
    have hle : (s.registry.get f.txn).size ≤ f.next := by
      simpa [Frame.pending?, hfailed, h.active, Transaction.op?_eq_none_iff] using hdone
    rw [if_pos hle]
    have hreached : s.Reached f.txn (s.registry.get f.txn).size :=
      (h.orderly.reached f List.mem_cons_self (by simpa using hfailed) h.active).of_le hle
    have hrun := hcoherent.run_settle_committed false h.active hreached
    rw [h.contents_eq, h.ops_eq] at hrun
    refine .committed hrun (h.rests_sweep (by decide) fun _ => hreached) ?_ ?_
    · rw [Store.outcome, hget, ← h.ops_eq]
      rfl
    · rw [(hwf .committed).tally_sweep, Store.tally_settle h.active, ← h.tally_eq]
      rfl

/-- **The loop** carries the only active transaction out. -/
theorem run (h : Alone m c ops s f) : Carried m c ops (Drive.run ⟨s, ⟨[f]⟩⟩) f.txn := by
  generalize hd : (⟨s, ⟨[f]⟩⟩ : Drive κ υ) = d
  induction d using rounds_induction generalizing s f with
  | last d hnone =>
      subst hd
      cases advance_eq_none_iff.mp hnone
  | round d d' hadvance ih =>
      subst hd
      rw [run_of_some hadvance]
      rcases h.advance hadvance with ⟨s', f', rfl, htxn, h'⟩ | ⟨hdone, rfl⟩
      · rw [← htxn]
        exact ih h' rfl
      · rw [run_of_none rfl]
        exact h.finish hdone

end Alone

end Drive

namespace Store.Rests

variable {s : Store κ υ} {m : Contents κ υ}

/-! ### Whole transactions -/

/-- A transaction that is registered in a store at rest is the only active one. -/
theorem alone (h : s.Rests m) (ops : List (Operation κ υ)) :
    Drive.Alone m s.tally ops (s.allocate ops).1 { txn := s.registry.size, next := 0 } := by
  have hwf := h.coherent.wellFormed
  have hcoherent := h.coherent.allocate ops
  have hcontents := (Coherent.contents_allocate hwf ops).trans h.contents_eq
  have hget : ∀ t, (s.allocate ops).1.registry.get t =
      if t = s.registry.size then .ofOperations s.registry.size ops else s.registry.get t :=
    fun t => Registry.get_add ..
  refine ⟨.ofRoot hcoherent (h.recorded.act hwf (.allocate ops)) _, ?_, fun t ht => ?_,
    fun n hn _ => ?_, fun n hn hown => ?_, nofun, hcontents, rfl, ?_⟩
  · rw [Registry.isActive, hget, if_pos rfl]
    rfl
  · rw [Registry.isActive, hget, if_neg ht]
    exact h.decided t
  · have hold : n ∈ s.chain := hn
    rw [← hcoherent.wellFormed.contents_of_mem hn rfl, hcontents, ← h.contents_eq,
      hwf.contents_of_mem hold rfl]
    exact h.live n hold
  · exact absurd hown (Nat.ne_of_lt (hwf.owner_lt hn))
  · rw [hget, if_pos rfl, Transaction.ops_ofOperations]

/-- **A transaction that succeeds on the map** commits, and the live entries are those of the map
after it. -/
theorem execute_of_run_eq_ok (h : s.Rests m) {ops : List (Operation κ υ)} {m' : Contents κ υ}
    {reads : List (Option υ)} (hrun : m.run ops = .ok (m', reads)) :
    ∃ s', s.execute ops = (s', ⟨.ofCommitted ops, reads⟩) ∧ s'.Rests m' ∧
      s'.tally = s.tally.commit := by
  cases (h.alone ops).run with
  | committed hrun' hrests houtcome htally =>
      obtain ⟨rfl, rfl⟩ := Prod.mk.inj (Except.ok.inj (hrun.symm.trans hrun'))
      exact ⟨_, Prod.ext rfl houtcome, hrests, htally⟩
  | aborted hrun' _ _ _ => cases hrun.symm.trans hrun'

/-- **A transaction that fails on the map** is aborted, and leaves no trace but in the counters. -/
theorem execute_of_run_eq_error (h : s.Rests m) {ops : List (Operation κ υ)} {j : Nat}
    (hrun : m.run ops = .error j) :
    ∃ s', s.execute ops = (s', .aborted .fail ops.length) ∧ s'.Rests m ∧
      s'.tally = s.tally.abort false := by
  cases (h.alone ops).run with
  | committed hrun' _ _ _ => cases hrun.symm.trans hrun'
  | aborted _ hrests houtcome htally => exact ⟨_, Prod.ext rfl houtcome, hrests, htally⟩

end Store.Rests

end AtomicSet
