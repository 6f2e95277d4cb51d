import AtomicSet.Proofs.Helping.Counting
import AtomicSet.Proofs.Helping.Legal
import AtomicSet.Proofs.Helping.Sequential

/-!
# Calls on a single key are exact

A lookup, an insertion or a deletion is a transaction of one operation. Before its thread gets to
that operation it may have to drive any number of stalled transactions to their end, and to break
cycles among them. Until then its own transaction owns no node, so nobody can wait for it: it is in
no cycle and never a victim. When its turn comes, the operation is performed on the live entries of
that moment, or refused by them, and nothing happens between this and the end of the call.

## Main definitions

* `Drive.Waiting` — a thread whose only operation is still to be performed.
* `Drive.Answered` — how the loop of such a thread ends.
* `HelpingSession.call` — the call that performs a single operation.
* `HelpingSession.RefusedWhile` — the operation of a call is refused at a certain moment.
* `HelpingSession.SingleKeyExact` — what the three calls do, and what their answers say.

## Main results

* `Drive.Waiting.not_victim` — the transaction of such a thread is not the victim of a cycle.
* `Drive.Waiting.advance` — every round helps others, or attempts the operation.
* `Drive.Waiting.answered` — how the loop ends.
* `HelpingSession.Legal.call_cases` — what a call does to its key.
* `HelpingSession.Legal.single_key_exact` — the three calls, with their answers.
-/

namespace AtomicSet

variable {κ υ : Type} [LinearOrder κ]

namespace Drive

/-- The thread drives the transaction `t`, whose only operation `op` it has not performed yet. It
may be helping others. -/
structure Waiting (t : TxnRef) (op : Operation κ υ) (d : Drive κ υ) : Prop where
  sound : d.Sound
  orderly : d.Orderly
  bottom : ∃ above, d.stack.frames = above ++ [{ txn := t, next := 0 }]
  ops_eq : (d.store.registry.get t).ops = [op]
  /-- No node carries a stamp of `t`. -/
  unstamped : ∀ n ∈ d.store.chain, n.stamp.owner ≠ t

namespace Waiting

variable {t : TxnRef} {op : Operation κ υ}

/-- A waiting thread has its own transaction at the bottom, at its only operation. -/
theorem mem_frames {d : Drive κ υ} (h : Waiting t op d) :
    { txn := t, next := 0 } ∈ d.stack.frames := by
  obtain ⟨above, hframes⟩ := h.bottom
  simp [hframes]

/-- A waiting thread has a round to go. -/
theorem advance_ne_none {d : Drive κ υ} (h : Waiting t op d) : d.advance ≠ none := by
  rw [ne_eq, advance_eq_none_iff]
  exact List.ne_nil_of_mem h.mem_frames

/-- The transaction of a waiting thread is active. -/
theorem isActive {d : Drive κ υ} (h : Waiting t op d) : d.store.registry.isActive t :=
  h.sound.active _ h.mem_frames

/-- The operation of a waiting thread is the one that it was called with. -/
theorem op?_eq {d : Drive κ υ} (h : Waiting t op d) :
    (d.store.registry.get t).op? 0 = some op := by
  rw [Transaction.op?_eq, h.ops_eq]
  rfl

/-- Nobody is blocked by `t`. -/
theorem ne_of_blocked {s s' : Store κ υ} {f : Frame} {below : List Frame}
    (h : Waiting t op ⟨s, ⟨f :: below⟩⟩) {op' : Operation κ υ}
    (hpending : f.pending? s.registry = some op') {owner : TxnRef} {resume : Nat}
    (hattempt : s.attempt f.txn f.next op' = (s', .blocked owner resume)) : owner ≠ t := by
  have hwaits : s.Waits f owner :=
    h.sound.wellFormed.waits_iff_blocked.mpr ⟨op', resume, hpending, by rw [hattempt]⟩
  obtain ⟨-, n, -, hn, -, rfl, -⟩ := hwaits
  exact h.unstamped n hn

/-- **`t` is never the victim of a cycle**: as nobody waits for it, no cycle starts at its frame,
which is the lowest one. -/
theorem not_victim {s s' : Store κ υ} {f : Frame} {below : List Frame}
    (h : Waiting t op ⟨s, ⟨f :: below⟩⟩) {op' : Operation κ υ}
    (hpending : f.pending? s.registry = some op') {owner : TxnRef} {resume start : Nat}
    (hattempt : s.attempt f.txn f.next op' = (s', .blocked owner resume))
    (hposition : Stack.position ⟨f :: below⟩ owner = some start) {victim : Frame} {d' : Drive κ υ}
    (hbreaks : Breaks s' ⟨f :: below⟩ start victim d') : victim.txn ≠ t := by
  intro hvictim
  obtain ⟨above, hframes⟩ := h.bottom
  have hbottom : Stack.fromBottom ⟨f :: below⟩ = { txn := t, next := 0 } :: above.reverse := by
    rw [Stack.fromBottom]
    dsimp only at hframes ⊢
    rw [hframes]
    simp
  obtain ⟨p, hp, hget, -⟩ := hbreaks.cut
  have hzero : p = 0 := h.sound.eq_of_txn_eq hget (q := 0) (by rw [hbottom]; rfl) hvictim
  obtain rfl : start = 0 := by omega
  obtain ⟨g, hg, howner⟩ := Stack.frame_of_position hposition
  rw [hbottom, List.getElem?_cons_zero, Option.some.injEq] at hg
  rw [← hg] at howner
  exact h.ne_of_blocked hpending hattempt howner.symm

/-- What a round leaves on the stack, if it keeps the lowest frame and does not stamp for `t`. -/
theorem of_advance {d d' : Drive κ υ} (h : Waiting t op d) (hadvance : d.advance = some d')
    (hbottom : ∃ above, d'.stack.frames = above ++ [{ txn := t, next := 0 }])
    (hchain : ∀ n ∈ d'.store.chain, n ∈ d.store.chain ∨ n.stamp.owner ≠ t) : Waiting t op d' where
  sound := h.sound.advance hadvance
  orderly := h.orderly.advance hadvance
  bottom := hbottom
  ops_eq := by
    have hext := h.sound.wellFormed.extends_actAll d.events
    rw [actAll_events hadvance] at hext
    rw [hext.ops_eq t (Registry.lt_size_of_isActive h.isActive), h.ops_eq]
  unstamped n hn := by
    rcases hchain n hn with hold | hnew
    · exact h.unstamped n hold
    · exact hnew

/-- The top frame is the one of `t` and alone, or of another transaction and above it. -/
theorem top_cases {s : Store κ υ} {f : Frame} {below : List Frame}
    (h : Waiting t op ⟨s, ⟨f :: below⟩⟩) :
    (f = { txn := t, next := 0 } ∧ below = []) ∨
      f.txn ≠ t ∧ ∃ above, below = above ++ [{ txn := t, next := 0 }] := by
  obtain ⟨above, hframes⟩ := h.bottom
  dsimp only at hframes
  cases above with
  | nil =>
      obtain ⟨rfl, rfl⟩ := List.cons.inj hframes
      exact Or.inl ⟨rfl, rfl⟩
  | cons g above' =>
      obtain ⟨rfl, rfl⟩ := List.cons.inj hframes
      refine Or.inr ⟨fun htxn => ?_, above', rfl⟩
      exact Sound.ne_of_mem [] h.sound (g := { txn := t, next := 0 }) (by simp) htxn.symm

/-- What the frame of `t` is about to attempt is its operation. -/
theorem pending?_eq {d : Drive κ υ} (h : Waiting t op d) :
    ({ txn := t, next := 0 } : Frame).pending? d.store.registry = some op :=
  Frame.pending?_eq_some_iff.mpr ⟨rfl, h.isActive, h.op?_eq⟩

/-- The lowest frame is left by a cut that is not at it. -/
theorem bottom_of_cut {s : Store κ υ} {stack rest : Stack} (h : Waiting t op ⟨s, stack⟩)
    {idOf : TxnRef → Nat} {owner : TxnRef} {victim : Frame}
    (hcut : stack.cut? idOf owner = some (victim, rest))
    (hvictim : victim.txn ≠ t) : ∃ above, rest.frames = above ++ [{ txn := t, next := 0 }] := by
  obtain ⟨above, hframes⟩ := h.bottom
  obtain ⟨cutoff, hcutoff⟩ := Stack.frames_of_cut? hcut
  dsimp only at hframes
  rw [hframes] at hcutoff
  rcases List.eq_nil_or_concat rest.frames with hnil | ⟨above', last, hconcat⟩
  · rw [hnil] at hcutoff
    have hlast := (List.append_inj' hcutoff rfl).2
    rw [← (List.cons.inj hlast).1] at hvictim
    exact absurd rfl hvictim
  · rw [hconcat, List.concat_eq_append, ← List.cons_append, ← List.append_assoc] at hcutoff
    have hlast := (List.append_inj' hcutoff rfl).2
    exact ⟨above', by rw [hconcat, List.concat_eq_append, ← hlast]⟩

/-- **A round helps somebody else, or attempts the operation of `t` without being blocked.** -/
theorem advance {d d' : Drive κ υ} (h : Waiting t op d) (hadvance : d.advance = some d') :
    Waiting t op d' ∨ d.stack = .ofRoot t ∧ ∃ s' progress f,
      d.store.attempt t 0 op = (s', progress) ∧ d' = ⟨s', ⟨[f]⟩⟩ ∧
        f.pending? s'.registry = none ∧
        (progress = .refused ∧ f = { txn := t, next := 0, failed := true } ∨
          ∃ n, progress.node? = some n ∧ f = { txn := t, next := 1, touched := [n] }) := by
  obtain ⟨s, f, below, rfl, hround⟩ := exists_round hadvance
  have hwf := h.sound.wellFormed
  have hkeep : ∀ {g : Frame} {frames above}, frames = above ++ [{ txn := t, next := 0 }] →
      ∃ above', g :: frames = above' ++ [{ txn := t, next := 0 }] :=
    fun {g _ above} hframes => ⟨g :: above, by rw [hframes, List.cons_append]⟩
  cases hround with
  | finished hdone =>
      rcases h.top_cases with ⟨rfl, -⟩ | ⟨-, hbelow⟩
      · cases hdone.symm.trans h.pending?_eq
      · exact Or.inl (h.of_advance hadvance hbelow fun n hn => Or.inl (hwf.mem_of_mem_finish hn))
  | @performed op' s' progress n hpending hattempt hnode =>
      rcases h.top_cases with ⟨rfl, rfl⟩ | ⟨hne, above, hbelow⟩
      · obtain rfl := Option.some.inj (hpending.symm.trans h.pending?_eq)
        have hops : (s'.registry.get t).op? 1 = none := by
          rw [Transaction.op?_eq, (slotsOnly_of_attempt hattempt).ops_eq, h.ops_eq]
          rfl
        exact Or.inr ⟨rfl, s', progress, _, hattempt, rfl, by simp [Frame.pending?, hops],
          Or.inr ⟨n, hnode, rfl⟩⟩
      · refine Or.inl (h.of_advance hadvance (hkeep hbelow) fun m hm => ?_)
        refine (hwf.mem_chain_attempt hattempt hm).imp_right fun hnew => ?_
        rw [hnew.1]
        exact hne
  | @failed op' s' hpending hattempt =>
      rcases h.top_cases with ⟨rfl, rfl⟩ | ⟨hne, above, hbelow⟩
      · obtain rfl := Option.some.inj (hpending.symm.trans h.pending?_eq)
        exact Or.inr ⟨rfl, s', .refused, _, hattempt, rfl, by simp [Frame.pending?],
          Or.inl ⟨rfl, rfl⟩⟩
      · refine Or.inl (h.of_advance hadvance (hkeep hbelow) fun m hm => ?_)
        refine (hwf.mem_chain_attempt hattempt hm).imp_right fun hnew => ?_
        rw [hnew.1]
        exact hne
  | @pushed op' s' owner resume hpending hattempt habsent =>
      obtain ⟨above, hbottom⟩ := h.bottom
      refine Or.inl (h.of_advance hadvance (hkeep hbottom) fun m hm => ?_)
      exact (hwf.mem_chain_attempt hattempt hm).imp_right fun hnew => by cases hnew.2
  | @unwound op' s' owner resume victim rest hpending hattempt hcut =>
      obtain ⟨start, hposition, -⟩ := Stack.cut?_eq_some_iff.mp hcut
      obtain ⟨victim', rest', hcut', hbreaks⟩ :=
        h.sound.breaks_of_blocked hpending hattempt hposition
      obtain ⟨rfl, rfl⟩ := Prod.mk.inj (Option.some.inj (hcut.symm.trans hcut'))
      have hvictim := h.not_victim hpending hattempt hposition hbreaks
      have hwf' := (h.sound.attempt hpending hattempt).wellFormed
      refine Or.inl (h.of_advance hadvance (h.bottom_of_cut hcut hvictim) fun m hm => ?_)
      exact (hwf.mem_chain_attempt hattempt (hwf'.mem_of_mem_giveUp hm)).imp_right
        fun hnew => by cases hnew.2

/-! ### The operation itself -/

/-- An attempt leaves the transaction active, with its only operation. -/
theorem of_attempt {d : Drive κ υ} (h : Waiting t op d) {i : Nat} {op' : Operation κ υ}
    {s' : Store κ υ} {progress : Progress} (hattempt : d.store.attempt t i op' = (s', progress)) :
    s'.registry.isActive t ∧ (s'.registry.get t).ops = [op] := by
  have hslots := slotsOnly_of_attempt hattempt
  rw [hslots.isActive_eq, hslots.ops_eq]
  exact ⟨h.isActive, h.ops_eq⟩

/-- If the operation is refused, it fails on the live entries, and these stay as they are. -/
theorem of_refused {s s' : Store κ υ} (h : Waiting t op ⟨s, .ofRoot t⟩)
    (hattempt : s.attempt t 0 op = (s', .refused)) {f : Frame}
    (hf : f = { txn := t, next := 0, failed := true }) :
    s.contents.run [op] = .error 0 ∧ (s'.finish f).contents = s.contents ∧
      (s'.finish f).outcome t = .aborted .fail 1 := by
  have hcoherent := h.orderly.coherent
  have hreached : s.Reached t 0 := .zero s t
  obtain ⟨hactive', hops'⟩ := h.of_attempt hattempt
  have hfinish : s'.finish f = (s'.settle t .aborted false).sweep f := by
    rw [hf]
    rfl
  have hwf' : s'.WellFormed := (h.sound.attempt h.pending?_eq hattempt).wellFormed
  refine ⟨?_, ?_, ?_⟩
  · rw [← h.ops_eq]
    exact hcoherent.run_eq_error_of_refused h.op?_eq h.isActive hreached hattempt
  · have hcontents := hcoherent.contents_attempt h.op?_eq fun _ => hreached
    rw [hattempt] at hcontents
    rw [hfinish, (hwf'.settle t .aborted false).contents_sweep,
      Store.Coherent.contents_settle_aborted]
    exact hcontents
  · have hget : ((s'.finish f).registry.get t) = { s'.registry.get t with status := .aborted } := by
      rw [hfinish, Store.registry_sweep, Store.get_settle, if_pos rfl, Transaction.finalize]
      exact if_pos hactive'
    rw [Store.outcome, hget, ← List.length_singleton (a := op), ← hops', Transaction.ops_length]
    rfl

/-- If the operation is performed, this is a run of it on the live entries. -/
theorem of_performed {s s' : Store κ υ} {progress : Progress} (h : Waiting t op ⟨s, .ofRoot t⟩)
    (hattempt : s.attempt t 0 op = (s', progress)) {f : Frame} {n : NodeId}
    (hf : f = { txn := t, next := 1, touched := [n] }) (horderly : Orderly ⟨s', ⟨[f]⟩⟩) :
    s.contents.run [op] = .ok ((s'.finish f).contents, (s'.registry.get t).reads) ∧
      (s'.finish f).outcome t = ⟨.ofCommitted [op], (s'.registry.get t).reads⟩ := by
  obtain ⟨hactive', hops'⟩ := h.of_attempt hattempt
  have hsize : (s'.registry.get t).size = 1 := by
    rw [← Transaction.ops_length, hops', List.length_singleton]
  have hreached : s'.Reached t (s'.registry.get t).size := by
    rw [hsize]
    have hreached := horderly.reached f List.mem_cons_self
    rw [hf] at hreached
    exact hreached rfl hactive'
  have hcontents := h.orderly.coherent.contents_attempt h.op?_eq
    fun _ j hj => absurd hj (Nat.not_lt_zero j)
  have hfinish : s'.finish f = (s'.settle t .committed false).sweep f := by
    rw [hf, Store.finish, if_neg Bool.false_ne_true, if_pos (Nat.le_of_eq hsize)]
  have hrun := horderly.coherent.run_settle_committed false hactive' hreached
  constructor
  · rw [hattempt] at hcontents
    rw [hfinish, (horderly.coherent.wellFormed.settle t .committed false).contents_sweep,
      ← hcontents, ← hops']
    exact hrun
  · have hget : ((s'.finish f).registry.get t) =
        { s'.registry.get t with status := .committed } := by
      rw [hfinish, Store.registry_sweep, Store.get_settle, if_pos rfl, Transaction.finalize]
      exact if_pos hactive'
    rw [Store.outcome, hget, ← hops']
    rfl

end Waiting

/-- How the loop of a thread ends that is to perform the operation `op` of `t` only: in some round
nobody has to be helped any more, and the operation is performed or refused. -/
inductive Answered (t : TxnRef) (op : Operation κ υ) (d : Drive κ υ) : Prop where
  /-- The operation was performed on the live entries of that round. -/
  | committed {s : Store κ υ} {reads : List (Option υ)} (mem : ⟨s, .ofRoot t⟩ ∈ d.rounds)
      (run : s.contents.run [op] = .ok (d.run.contents, reads))
      (outcome : d.run.outcome t = ⟨.ofCommitted [op], reads⟩)
  /-- The operation was refused, and fails on the live entries of that round. -/
  | aborted {s : Store κ υ} (mem : ⟨s, .ofRoot t⟩ ∈ d.rounds)
      (refused : (s.attempt t 0 op).2 = .refused) (run : s.contents.run [op] = .error 0)
      (contents_eq : d.run.contents = s.contents) (outcome : d.run.outcome t = .aborted .fail 1)

/-- What happens from the next round on happens. -/
theorem Answered.of_advance {t : TxnRef} {op : Operation κ υ} {d d' : Drive κ υ}
    (h : Answered t op d') (hadvance : d.advance = some d') : Answered t op d := by
  cases h with
  | committed hmem hrun houtcome =>
      rw [← run_of_some hadvance] at hrun houtcome
      exact .committed (mem_rounds_of_advance hadvance hmem) hrun houtcome
  | aborted hmem hrefused hrun hcontents houtcome =>
      rw [← run_of_some hadvance] at hcontents houtcome
      exact .aborted (mem_rounds_of_advance hadvance hmem) hrefused hrun hcontents houtcome

namespace Waiting

variable {t : TxnRef} {op : Operation κ υ}

/-- **The loop ends with the operation performed or refused.** -/
theorem answered {d : Drive κ υ} (h : Waiting t op d) : Answered t op d := by
  induction d using rounds_induction with
  | last d hnone => exact absurd hnone h.advance_ne_none
  | round d d' hadvance ih =>
      rcases h.advance hadvance with hwaiting |
        ⟨hstack, s', progress, f, hattempt, rfl, hdone, hcase⟩
      · exact (ih hwaiting).of_advance hadvance
      · obtain ⟨s, stack⟩ := d
        dsimp only at hstack hattempt
        subst hstack
        have hmem := self_mem_rounds ⟨s, .ofRoot t⟩
        rcases hcase with ⟨rfl, hf⟩ | ⟨n, -, hf⟩
        · obtain ⟨hrun, hcontents, houtcome⟩ := h.of_refused hattempt hf
          rw [← run_of_finished hdone, ← run_of_some hadvance] at hcontents houtcome
          exact .aborted hmem (by rw [hattempt]) hrun hcontents houtcome
        · obtain ⟨hrun, houtcome⟩ := h.of_performed hattempt hf (h.orderly.advance hadvance)
          rw [← run_of_finished hdone, ← run_of_some hadvance] at hrun houtcome
          exact .committed hmem hrun houtcome

/-- **In no round of the loop is `t` the victim of a cycle.** -/
theorem not_sacrifices {d : Drive κ υ} (h : Waiting t op d) :
    ∀ d' ∈ d.rounds, ¬d'.Sacrifices t := by
  induction d using rounds_induction with
  | last d hnone => exact absurd hnone h.advance_ne_none
  | round d d' hadvance ih =>
      rw [rounds_of_some hadvance]
      refine List.forall_mem_cons.mpr ⟨?_, ?_⟩
      · rintro ⟨f, op', s', owner, resume, start, victim, d₁, htop, hpending, hattempt, hposition,
          -, hbreaks, hvictim⟩
        obtain ⟨s, ⟨frames⟩⟩ := d
        cases frames with
        | nil => cases htop
        | cons g below =>
            obtain rfl : g = f := Option.some.inj htop
            exact h.not_victim hpending hattempt hposition hbreaks hvictim
      · rcases h.advance hadvance with hwaiting | ⟨-, s', -, f, -, rfl, hdone, -⟩
        · exact ih hwaiting
        · rw [rounds_of_finished hdone]
          refine List.forall_mem_cons.mpr ⟨not_sacrifices_of_finished hdone t, ?_⟩
          rintro d₁ hmem ⟨f', -, -, -, -, -, -, -, htop, -⟩
          rw [List.mem_singleton.mp hmem] at htop
          cases htop

end Waiting

end Drive

namespace HelpingSession

/-- The call that performs a single operation. -/
def call : Operation κ υ → Command κ υ
  | .find k => .find k
  | .insert k v => .insert k v
  | .delete k => .delete k

omit [LinearOrder κ] in
/-- A call sets a thread to work on a transaction of the one operation. -/
theorem loop?_call [LT κ] [DecidableLT κ] [DecidableEq κ] (s : HelpingSession κ υ)
    (op : Operation κ υ) : s.loop? (call op) = some (s.store.driver [op]) := by
  cases op <;> rfl

/-- In the call of `op`, the attempt of its own transaction at `op` is refused, in a round of the
thread at which the live entries are as `P` says. -/
def RefusedWhile (s : HelpingSession κ υ) (op : Operation κ υ) (P : List (κ × υ) → Prop) : Prop :=
  ∃ d d', s.loop? (call op) = some d ∧ d' ∈ d.rounds ∧
    d'.stack = .ofRoot s.store.registry.size ∧
    (d'.store.attempt s.store.registry.size 0 op).2 = .refused ∧ P d'.store.entries

/-- What is known of the live entries at a refusal may be weakened. -/
theorem RefusedWhile.mono {s : HelpingSession κ υ} {op : Operation κ υ}
    {P Q : List (κ × υ) → Prop} (h : s.RefusedWhile op P)
    (himp : ∀ entries, P entries → Q entries) : s.RefusedWhile op Q := by
  obtain ⟨d, d', hloop, hmem, hstack, hrefused, hP⟩ := h
  exact ⟨d, d', hloop, hmem, hstack, hrefused, himp _ hP⟩

/-- The calls on the key `k`, with the value `v` to insert, are exact. -/
structure SingleKeyExact (s : HelpingSession κ υ) (k : κ) (v : υ) : Prop where
  /-- A lookup finds what the key holds after the call, and nothing only if it is refused while the
  key holds nothing. -/
  find : ∃ found, (s.perform (.find k)).2 = .value found ∧
    (∀ w, found = some w ↔ (k, w) ∈ (s.perform (.find k)).1.store.entries) ∧
    (found = none → s.RefusedWhile (.find k) fun entries => ∀ w, (k, w) ∉ entries)
  /-- After an insertion the key is live, with the value if the answer says so. -/
  insert : ∃ inserted, (s.perform (.insert k v)).2 = .flag inserted ∧
    (∃ w, (k, w) ∈ (s.perform (.insert k v)).1.store.entries) ∧
    (inserted = true → (k, v) ∈ (s.perform (.insert k v)).1.store.entries) ∧
    (inserted = false → s.RefusedWhile (.insert k v) fun entries => ∃ w, (k, w) ∈ entries)
  /-- After a deletion the key is not live. -/
  delete : ∃ deleted, (s.perform (.delete k)).2 = .flag deleted ∧
    (∀ w, (k, w) ∉ (s.perform (.delete k)).1.store.entries) ∧
    (deleted = false → s.RefusedWhile (.delete k) fun entries => ∀ w, (k, w) ∉ entries)
  /-- The transaction of the call is not the victim of a cycle in any round. -/
  spared : ∀ op d, s.loop? (call op) = some d → ∀ d' ∈ d.rounds,
    ¬d'.Sacrifices s.store.registry.size
  /-- It is not given up at any moment. -/
  not_givesUp : ∀ op, ¬s.store.Sometime (Store.GivesUp s.store.registry.size) (s.events (call op))

namespace Legal

variable {s : HelpingSession κ υ} {log : List (Command κ υ × Reply κ υ)} {es : List (Event κ υ)}

/-- The thread of a call waits for its turn. -/
theorem waiting (h : Legal s log es) (op : Operation κ υ) :
    Drive.Waiting s.store.registry.size op (s.store.driver [op]) where
  sound := by
    refine .ofRoot (h.disciplined.coherent.wellFormed.allocate [op]) ?_
    rw [Registry.isActive, Store.allocate, Registry.get_add, if_pos rfl]
    rfl
  orderly := Drive.orderly_iff.mpr
    ((disciplined_iff.mp h.disciplined).tracks_of_loop? (s.loop?_call op))
  bottom := ⟨[], rfl⟩
  ops_eq := by
    rw [Store.driver, Store.allocate, Registry.get_add, if_pos rfl, Transaction.ops_ofOperations]
  unstamped n hn := Nat.ne_of_lt (h.disciplined.coherent.wellFormed.owner_lt hn)

/-- The live entries after a call list what its thread leaves. -/
theorem mem_entries_call (h : Legal s log es) (op : Operation κ υ) (w : υ) :
    (op.key, w) ∈ (s.perform (call op)).1.store.entries ↔
      (s.store.driver [op]).run.contents op.key = some w := by
  have hlegal := h.perform (c := call op) (by cases op <;> trivial)
  rw [hlegal.disciplined.coherent.wellFormed.lists_entries.mem_iff,
    perform_of_loop? (s.loop?_call op)]

/-- **What a call does to its key**: the operation is performed on what the key held, and the key
holds what it leaves; or it is refused by what the key holds, and the key holds that still. -/
theorem call_cases (h : Legal s log es) (op : Operation κ υ) :
    (∃ before held, op.after? before = some held ∧
      (∀ w, (op.key, w) ∈ (s.perform (call op)).1.store.entries ↔ held = some w) ∧
      (s.store.execute [op]).2 = ⟨.ofCommitted [op], [op.readOf held]⟩) ∨
    ∃ held, op.after? held = none ∧
      (∀ w, (op.key, w) ∈ (s.perform (call op)).1.store.entries ↔ held = some w) ∧
      (s.store.execute [op]).2 = .aborted .fail 1 ∧
      s.RefusedWhile op fun entries => ∀ w, (op.key, w) ∈ entries ↔ held = some w := by
  have hentries := h.mem_entries_call op
  cases (h.waiting op).answered with
  | @committed s' reads hmem hrun houtcome =>
      rw [Contents.run_singleton] at hrun
      cases hafter : op.after? (s'.contents op.key) with
      | none => simp [hafter] at hrun
      | some held =>
          simp only [hafter, Except.ok.injEq, Prod.mk.injEq] at hrun
          obtain ⟨hcontents, rfl⟩ := hrun
          refine Or.inl ⟨_, held, hafter, fun w => ?_, houtcome⟩
          rw [hentries, ← hcontents, Contents.set_self]
  | @aborted s' hmem hrefused hrun hcontents houtcome =>
      have hfails : op.after? (s'.contents op.key) = none := by
        rw [Contents.run_singleton] at hrun
        cases hafter : op.after? (s'.contents op.key) with
        | none => rfl
        | some held => simp [hafter] at hrun
      have horderly : ∀ d' ∈ (s.store.driver [op]).rounds, d'.Orderly :=
        Drive.forall_mem_rounds (h.waiting op).orderly fun _ _ => Drive.Orderly.advance
      have hlists := (horderly _ hmem).coherent.wellFormed.lists_entries
      refine Or.inr ⟨_, hfails, fun w => ?_, houtcome, _, _, s.loop?_call op, hmem, rfl, hrefused,
        fun w => hlists.mem_iff op.key w⟩
      rw [hentries, hcontents]

/-- The transaction of a call is never the victim of a cycle. -/
theorem not_sacrifices_call (h : Legal s log es) {op : Operation κ υ} {d : Drive κ υ}
    (hloop : s.loop? (call op) = some d) :
    ∀ d' ∈ d.rounds, ¬d'.Sacrifices s.store.registry.size := by
  obtain rfl := Option.some.inj ((s.loop?_call op).symm.trans hloop)
  exact (h.waiting op).not_sacrifices

/-- **Calls on a single key are exact** after every legal run, whatever transactions it left
stalled. -/
theorem single_key_exact (h : Legal s log es) (k : κ) (v : υ) : s.SingleKeyExact k v where
  find := by
    refine ⟨(s.store.execute [.find k]).2.found, rfl, ?_⟩
    rcases h.call_cases (.find k) with ⟨before, held, hafter, hentries, houtcome⟩ |
      ⟨held, hfails, hentries, houtcome, hrefused⟩
    · cases before with
      | none => cases hafter
      | some w =>
          obtain rfl := Option.some.inj hafter
          rw [houtcome]
          exact ⟨fun w' => (hentries w').symm, nofun⟩
    · cases held with
      | some w => cases hfails
      | none =>
          rw [houtcome]
          exact ⟨fun w => (hentries w).symm, fun _ => hrefused.mono fun entries hnone w hmem =>
            nomatch (hnone w).mp hmem⟩
  insert := by
    refine ⟨(s.store.execute [.insert k v]).2.isCommitted, rfl, ?_⟩
    rcases h.call_cases (.insert k v) with ⟨before, held, hafter, hentries, houtcome⟩ |
      ⟨held, hfails, hentries, houtcome, hrefused⟩
    · cases before with
      | some w => cases hafter
      | none =>
          obtain rfl := Option.some.inj hafter
          rw [houtcome]
          exact ⟨⟨v, (hentries v).mpr rfl⟩, fun _ => (hentries v).mpr rfl, nofun⟩
    · cases held with
      | none => cases hfails
      | some w =>
          rw [houtcome]
          exact ⟨⟨w, (hentries w).mpr rfl⟩, nofun, fun _ => hrefused.mono fun entries hlive =>
            ⟨w, (hlive w).mpr rfl⟩⟩
  delete := by
    refine ⟨(s.store.execute [.delete k]).2.isCommitted, rfl, ?_⟩
    rcases h.call_cases (.delete k) with ⟨before, held, hafter, hentries, houtcome⟩ |
      ⟨held, hfails, hentries, houtcome, hrefused⟩
    · cases before with
      | none => cases hafter
      | some w =>
          obtain rfl := Option.some.inj hafter
          rw [houtcome]
          exact ⟨fun w' hmem => (nomatch (hentries w').mp hmem), nofun⟩
    · cases held with
      | some w => cases hfails
      | none =>
          rw [houtcome]
          exact ⟨fun w' hmem => (nomatch (hentries w').mp hmem), fun _ => hrefused.mono
            fun entries hnone w' hmem => nomatch (hnone w').mp hmem⟩
  spared op d hloop := h.not_sacrifices_call hloop
  not_givesUp op hgivesUp := by
    obtain ⟨d, d', hloop, hmem, hsacrifices⟩ :=
      (h.run.reachable.sometime_givesUp_iff (call op) _).mp hgivesUp
    exact h.not_sacrifices_call hloop d' hmem hsacrifices

end Legal

/-- With two crossing transactions stalled, the calls on one of their keys are exact. -/
theorem single_key_exact_crossing : ∃ log es, Legal crossing log es ∧
    crossing.SingleKeyExact 2 30 := by
  obtain ⟨log, es, hlegal⟩ := legal_crossing
  exact ⟨log, es, hlegal, Legal.single_key_exact hlegal 2 30⟩

end HelpingSession

end AtomicSet
