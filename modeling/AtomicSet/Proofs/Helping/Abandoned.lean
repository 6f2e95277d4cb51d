import AtomicSet.Proofs.Helping.Legal
import AtomicSet.Proofs.Helping.Sequential

/-!
# Empty nodes that nobody unlinks

Whoever stamps a node has to unlink it if it holds nothing once the transaction is decided. A
stalled thread remembers the nodes it touched until it finishes, and a thread at work notes them in
the frames of its stack. So at any moment each node either holds something for good, or somebody has
it to clean.

There are two exceptions. When a cycle is broken, the frames above the victim are discarded with all
that is noted in them, although their transactions are not decided: what others commit of these is
not cleaned up after. And a stalled thread that finishes while its transaction is still active
forgets what it touched. These nodes are *abandoned*; if they are empty once their transactions are
decided, they stay in the chain.

## Main definitions

* `Store.Tended` — every node holds something, or is owed to somebody.
* `Drive.discarded`, `Drive.abandoned` — the frames that are discarded, and the nodes noted in them.
* `HelpingSession.abandoned` — the nodes that are abandoned while commands are performed.

## Main results

* `Drive.Orderly.tended_advance`, `Drive.Orderly.tended_run` — what a thread leaves is tended, but
  for what it abandons.
* `HelpingSession.Legal.empty_abandoned` — in the end, the empty nodes are abandoned ones.
* `HelpingSession.empty_node_left` — there are some.
-/

namespace AtomicSet

/-- The node is noted in the frame as touched for the transaction `t`. -/
def Frame.Owes (f : Frame) (t : TxnRef) (id : NodeId) : Prop :=
  t = f.txn ∧ id ∈ f.touched

variable {κ υ : Type} [LinearOrder κ]

namespace Store

/-! ### Who has a node to clean -/

/-- Every node of the chain holds something for good, or is owed for its owner. -/
def Tended (s : Store κ υ) (Owed : TxnRef → NodeId → Prop) : Prop :=
  ∀ n ∈ s.chain, s.registry.isActive n.stamp.owner = false ∧ (s.resolve none n).isSome ∨
    Owed n.stamp.owner n.id

namespace Tended

variable {s : Store κ υ} {Owed Owed' : TxnRef → NodeId → Prop} {t : TxnRef} {f : Frame}

omit [LinearOrder κ] in
/-- The nodes stay tended if more of them are owed. -/
theorem mono (h : s.Tended Owed) (himp : ∀ t id, Owed t id → Owed' t id) : s.Tended Owed' :=
  fun n hn => (h n hn).imp_right (himp _ _)

/-- Where no node is stamped and the map stays, what holds something holds it still. -/
theorem of_contents {s' : Store κ υ} (h : s.Tended Owed) (hwf : s.WellFormed) (hwf' : s'.WellFormed)
    (hcontents : s'.contents = s.contents) (hext : s.registry.Extends s'.registry)
    (hmem : ∀ n ∈ s'.chain, n ∈ s.chain ∨ Owed' n.stamp.owner n.id)
    (himp : ∀ t id, Owed t id → Owed' t id) : s'.Tended Owed' := by
  intro n hn
  rcases hmem n hn with hold | howed
  · rcases h n hold with ⟨hdecided, hlive⟩ | howed
    · refine Or.inl ⟨?_, ?_⟩
      · rw [Registry.isActive, Transaction.isActive,
          hext.status_eq _ (hwf.owner_lt hold) hdecided]
        exact hdecided
      · rw [← hwf'.contents_of_mem hn rfl, hcontents, hwf.contents_of_mem hold rfl]
        exact hlive
    · exact Or.inr (himp _ _ howed)
  · exact Or.inr howed

/-- An attempt stamps at most one node, which is owed then. -/
theorem attempt (h : s.Tended Owed) (hs : s.Coherent) {i : Nat} {op : Operation κ υ}
    (hop : (s.registry.get t).op? i = some op)
    (hreached : s.registry.isActive t → s.Reached t i) {s' : Store κ υ} {progress : Progress}
    (hattempt : s.attempt t i op = (s', progress)) :
    s'.Tended fun u id => Owed u id ∨
      u = t ∧ s.registry.isActive t ∧ progress.node? = some id := by
  have hcontents := hs.contents_attempt hop hreached
  have hext := hs.wellFormed.extends_attempt hop
  have hwf' := hs.wellFormed.attempt hop
  rw [hattempt] at hcontents hext hwf'
  refine h.of_contents hs.wellFormed hwf' hcontents hext (fun n hn => ?_) fun _ _ => Or.inl
  rcases hs.wellFormed.applied_of_mem_chain_attempt hattempt hn with
    hold | ⟨⟨hown, -⟩, hactive, rfl⟩
  · exact Or.inl hold
  · exact Or.inr (Or.inr ⟨hown, hactive, rfl⟩)

/-- The nodes stay tended when a transaction is registered. -/
theorem allocate (h : s.Tended Owed) (hwf : s.WellFormed) (ops : List (Operation κ υ)) :
    (s.allocate ops).1.Tended Owed :=
  h.of_contents hwf (hwf.allocate ops) (Coherent.contents_allocate hwf ops)
    (hwf.extends_act (.allocate ops)) (fun _ hn => Or.inl hn) fun _ _ => id

/-- To decide a transaction changes nothing on the nodes of decided ones. -/
theorem settle (h : s.Tended Owed) (hwf : s.WellFormed) {final : Status} (hfinal : final ≠ .active)
    (fake : Bool) : (s.settle t final fake).Tended Owed := by
  intro n hn
  have hold : n ∈ s.chain := by rwa [chain_settle] at hn
  refine (h n hold).imp_left ?_
  rintro ⟨hdecided, hlive⟩
  by_cases hown : n.stamp.owner = t
  · rw [settle_of_not_active (hown ▸ hdecided)]
    exact ⟨hdecided, hlive⟩
  · refine ⟨by rw [isActive_settle hfinal, hdecided, Bool.and_false], ?_⟩
    rw [← (hwf.settle t final fake).liveValue_eq hn, s.liveValue_settle_of_ne final fake hown,
      hwf.liveValue_eq hold]
    exact hlive

/-- **A sweep for a decided transaction** cleans what is noted in its frame. -/
theorem sweep (h : s.Tended fun u id => f.Owes u id ∨ Owed u id) (hwf : s.WellFormed)
    (hdecided : s.registry.isActive f.txn = false) : (s.sweep f).Tended Owed := by
  intro n hn
  rw [hwf.chain_sweep hdecided, List.mem_filter] at hn
  obtain ⟨hn, hkept⟩ := hn
  rw [registry_sweep, resolve_sweep]
  rcases h n hn with hlive | ⟨hown, htouched⟩ | howed
  · exact Or.inl hlive
  · refine Or.inl ⟨hown ▸ hdecided, ?_⟩
    simpa [sweepable, Stamp.isOwnedBy, hown, htouched] using hkept
  · exact Or.inr howed

/-- A thread that finishes a frame either decides its transaction, and cleans up after it, or does
nothing. -/
theorem finish (h : s.Tended fun u id => f.Owes u id ∨ Owed u id) (hwf : s.WellFormed) :
    (s.finish f).registry.isActive f.txn = false ∧ (s.finish f).Tended Owed ∨
      (s.finish f).registry.isActive f.txn = true ∧
        (s.finish f).Tended fun u id => f.Owes u id ∨ Owed u id := by
  -- Whatever was decided before, the sweep does its part if the transaction is over by then.
  have hsweep : ∀ s' : Store κ υ, s'.WellFormed →
      (s'.Tended fun u id => f.Owes u id ∨ Owed u id) →
      (s'.sweep f).registry.isActive f.txn = false ∧ (s'.sweep f).Tended Owed ∨
        (s'.sweep f).registry.isActive f.txn = true ∧
          (s'.sweep f).Tended fun u id => f.Owes u id ∨ Owed u id := by
    intro s' hwf' h'
    cases hactive : s'.registry.isActive f.txn with
    | false => exact Or.inl ⟨by rw [registry_sweep, hactive], h'.sweep hwf' hactive⟩
    | true =>
        refine Or.inr ⟨by rw [registry_sweep, hactive], ?_⟩
        rw [Store.sweep, if_pos hactive]
        exact h'
  rw [Store.finish]
  split
  · exact hsweep _ (hwf.settle ..) (h.settle hwf (by decide) false)
  · split
    · exact hsweep _ (hwf.settle ..) (h.settle hwf (by decide) false)
    · exact hsweep s hwf h

/-- A thread that gives a frame up cleans what is noted in it. -/
theorem giveUp (h : s.Tended fun u id => f.Owes u id ∨ Owed u id) (hwf : s.WellFormed) :
    (s.giveUp f).Tended Owed :=
  (h.settle hwf (by decide) true).sweep (hwf.settle ..) (by simp [isActive_settle])

end Tended

end Store

namespace Drive

/-! ### What a thread abandons -/

/-- The frames that a round discards: of those that it takes off the stack all but the lowest one,
which it ends. -/
def discarded (d : Drive κ υ) : List Frame :=
  match d.advance with
  | none => []
  | some d' => d.stack.frames.take (d.stack.frames.length - d'.stack.frames.length - 1)

/-- The nodes that were noted in the discarded frames of all rounds, each with the transaction that
it was touched for. -/
def abandoned (d : Drive κ υ) : List (TxnRef × NodeId) :=
  d.rounds.flatMap fun d' => d'.discarded.flatMap fun f => f.touched.map fun id => (f.txn, id)

/-- The node is noted in a frame of the stack. -/
def Owes (d : Drive κ υ) (t : TxnRef) (id : NodeId) : Prop :=
  ∃ f ∈ d.stack.frames, f.Owes t id

/-- What a thread abandons is what the next round discards and what it abandons after that. -/
theorem mem_abandoned_of_advance {d d' : Drive κ υ} (hadvance : d.advance = some d') {t : TxnRef}
    {id : NodeId} :
    (t, id) ∈ d.abandoned ↔ (∃ f ∈ d.discarded, f.Owes t id) ∨ (t, id) ∈ d'.abandoned := by
  rw [abandoned, rounds_of_some hadvance, List.flatMap_cons, List.mem_append]
  refine or_congr ?_ Iff.rfl
  simp only [List.mem_flatMap, List.mem_map, Prod.mk.injEq, Frame.Owes]
  constructor
  · rintro ⟨f, hf, id', hid', rfl, rfl⟩
    exact ⟨f, hf, rfl, hid'⟩
  · rintro ⟨f, hf, rfl, hid⟩
    exact ⟨f, hf, id, hid, rfl, rfl⟩

/-- What a round discards when it cuts the stack is what stands above the victim. -/
theorem discarded_of_cut {d d' : Drive κ υ} (hadvance : d.advance = some d')
    {above : List Frame} {victim : Frame}
    (hsplit : d.stack.frames = above ++ victim :: d'.stack.frames) : d.discarded = above := by
  have hlength : d.stack.frames.length - d'.stack.frames.length - 1 = above.length := by
    rw [hsplit, List.length_append, List.length_cons]
    omega
  rw [discarded, hadvance]
  dsimp only
  rw [hlength, hsplit, List.take_left]

variable {Owed : TxnRef → NodeId → Prop}

/-- What an attempt for the top frame leaves is tended, but for the node that it came upon. -/
theorem Orderly.tended_attempt {s s' : Store κ υ} {f : Frame} {below : List Frame}
    {op : Operation κ υ} {progress : Progress} (h : Orderly ⟨s, ⟨f :: below⟩⟩)
    (ht : s.Tended fun t id => Owes ⟨s, ⟨f :: below⟩⟩ t id ∨ Owed t id)
    (hpending : f.pending? s.registry = some op)
    (hattempt : s.attempt f.txn f.next op = (s', progress)) :
    s'.WellFormed ∧ s'.Tended fun t id => (Owes ⟨s, ⟨f :: below⟩⟩ t id ∨ Owed t id) ∨
      t = f.txn ∧ s.registry.isActive f.txn ∧ progress.node? = some id := by
  have hcoherent : s.Coherent := h.coherent
  obtain ⟨hfailed, -, hop⟩ := Frame.pending?_eq_some_iff.mp hpending
  have hwf' := hcoherent.wellFormed.attempt hop
  rw [hattempt] at hwf'
  have hreached := h.reached f List.mem_cons_self hfailed
  exact ⟨hwf', ht.attempt hcoherent hop hreached hattempt⟩

/-- **A round leaves every node tended**, but for those that are noted in the frames that it
discards. -/
theorem Orderly.tended_advance {d d' : Drive κ υ} (h : d.Orderly)
    (ht : d.store.Tended fun t id => d.Owes t id ∨ Owed t id) (hadvance : d.advance = some d') :
    d'.store.Tended fun t id =>
      d'.Owes t id ∨ Owed t id ∨ ∃ f ∈ d.discarded, f.Owes t id := by
  obtain ⟨s, f, below, rfl, hround⟩ := exists_round hadvance
  have hwf : s.WellFormed := h.coherent.wellFormed
  cases hround with
  | finished hdone =>
      have ht' : s.Tended fun t id => f.Owes t id ∨ (∃ g ∈ below, g.Owes t id) ∨ Owed t id := by
        refine ht.mono ?_
        rintro t id (⟨g, hg, howes⟩ | howed)
        · rcases List.mem_cons.mp hg with rfl | hg
          · exact Or.inl howes
          · exact Or.inr (Or.inl ⟨g, hg, howes⟩)
        · exact Or.inr (Or.inr howed)
      rcases ht'.finish hwf with ⟨-, hfinish⟩ | ⟨hactive, -⟩
      · exact hfinish.mono fun t id howed => howed.imp_right Or.inl
      · rw [Store.isActive_finish hdone] at hactive
        cases hactive
  | @performed op s' progress n hpending hattempt hnode =>
      refine (h.tended_attempt ht hpending hattempt).2.mono ?_
      rintro t id ((⟨g, hg, htxn, hid⟩ | howed) | ⟨rfl, -, hnode'⟩)
      · rcases List.mem_cons.mp hg with rfl | hg
        · exact Or.inl ⟨_, List.mem_cons_self, htxn, List.mem_append_left _ hid⟩
        · exact Or.inl ⟨g, List.mem_cons_of_mem _ hg, htxn, hid⟩
      · exact Or.inr (Or.inl howed)
      · obtain rfl := Option.some.inj (hnode.symm.trans hnode')
        exact Or.inl ⟨_, List.mem_cons_self, rfl,
          List.mem_append_right _ (List.mem_singleton_self n)⟩
  | failed hpending hattempt =>
      refine (h.tended_attempt ht hpending hattempt).2.mono ?_
      rintro t id ((⟨g, hg, howes⟩ | howed) | ⟨-, -, hnode⟩)
      · rcases List.mem_cons.mp hg with rfl | hg
        · exact Or.inl ⟨_, List.mem_cons_self, howes⟩
        · exact Or.inl ⟨g, List.mem_cons_of_mem _ hg, howes⟩
      · exact Or.inr (Or.inl howed)
      · cases hnode
  | pushed hpending hattempt _ =>
      refine (h.tended_attempt ht hpending hattempt).2.mono ?_
      rintro t id ((⟨g, hg, howes⟩ | howed) | ⟨-, -, hnode⟩)
      · exact Or.inl ⟨g, List.mem_cons_of_mem _ hg, howes⟩
      · exact Or.inr (Or.inl howed)
      · cases hnode
  | @unwound op s' owner resume victim rest hpending hattempt hcut =>
      obtain ⟨above, hsplit⟩ := Stack.frames_of_cut? hcut
      have hdiscarded := discarded_of_cut hadvance hsplit
      obtain ⟨hwf', ht'⟩ := h.tended_attempt ht hpending hattempt
      refine Store.Tended.giveUp (ht'.mono ?_) hwf'
      rintro t id ((⟨g, hg, howes⟩ | howed) | ⟨-, -, hnode⟩)
      · have hmem : g ∈ above ++ victim :: rest.frames := hsplit ▸ hg
        rcases List.mem_append.mp hmem with habove | hbelow
        · exact Or.inr (Or.inr (Or.inr ⟨g, hdiscarded ▸ habove, howes⟩))
        rcases List.mem_cons.mp hbelow with rfl | hrest
        · exact Or.inl howes
        · exact Or.inr (Or.inl ⟨g, hrest, howes⟩)
      · exact Or.inr (Or.inr (Or.inl howed))
      · cases hnode

/-- **The loop leaves every node tended**, but for those that it abandons. -/
theorem Orderly.tended_run {d : Drive κ υ} (h : d.Orderly)
    (ht : d.store.Tended fun t id => d.Owes t id ∨ Owed t id) :
    d.run.Tended fun t id => Owed t id ∨ (t, id) ∈ d.abandoned := by
  induction d using rounds_induction generalizing Owed with
  | last d hnone =>
      rw [run_of_none hnone]
      refine ht.mono ?_
      rintro t id (⟨f, hf, -⟩ | howed)
      · rw [advance_eq_none_iff.mp hnone] at hf
        cases hf
      · exact Or.inl howed
  | round d d' hadvance ih =>
      rw [run_of_some hadvance]
      refine (ih (h.advance hadvance) (h.tended_advance ht hadvance)).mono ?_
      rintro t id ((howed | hdiscarded) | hlater)
      · exact Or.inl howed
      · exact Or.inr ((mem_abandoned_of_advance hadvance).mpr (Or.inl hdiscarded))
      · exact Or.inr ((mem_abandoned_of_advance hadvance).mpr (Or.inr hlater))

end Drive

namespace HelpingSession

/-! ### What is abandoned in a session -/

/-- The nodes that a stalled thread forgets when it finishes while its transaction is active. -/
def forgets (s : HelpingSession κ υ) : Command κ υ → List (TxnRef × NodeId)
  | .finish t next failed =>
    if (s.perform (.finish t next failed)).1.store.registry.isActive t then
      (s.touched t).map fun id => (t, id)
    else []
  | .execute _ | .find _ | .insert _ _ | .delete _ | .entries | .survey | .tally | .resetTally
  | .allocate _ | .step _ _ | .run _ | .late _ _ | .inspect _ => []

/-- The nodes that are abandoned when a command is performed: by the thread that it sets to work, or
by a stalled thread that finishes too early. -/
def abandons (s : HelpingSession κ υ) (c : Command κ υ) : List (TxnRef × NodeId) :=
  match s.loop? c with
  | some d => d.abandoned
  | none => s.forgets c

/-- The nodes that are abandoned while the commands are performed. -/
def abandoned (s : HelpingSession κ υ) : List (Command κ υ) → List (TxnRef × NodeId)
  | [] => []
  | c :: cs => s.abandons c ++ (s.perform c).1.abandoned cs

/-- What the first commands abandon, and then what the others do. -/
theorem abandoned_append (s : HelpingSession κ υ) (cs cs' : List (Command κ υ)) :
    s.abandoned (cs ++ cs') = s.abandoned cs ++ (performAll perform s cs).1.abandoned cs' := by
  induction cs generalizing s with
  | nil => rfl
  | cons c cs ih => simp only [List.cons_append, abandoned, performAll, ih, List.append_assoc]

/-- The stalled thread of `t` finished after `t` was registered, and `t` was decided then. -/
def Ended (log : List (Command κ υ × Reply κ υ)) (t : TxnRef) : Prop :=
  ∃ pre post next failed st, log = pre ++ (.finish t next failed, .status st) :: post ∧
    st ≠ .active ∧ t < (performAll perform {} (pre.map Prod.fst)).1.store.registry.size

section Perform

variable {s : HelpingSession κ υ} {log : List (Command κ υ × Reply κ υ)} {c : Command κ υ}

/-- One more command and its reply. -/
theorem ended_concat {reply : Reply κ υ} {t : TxnRef} :
    Ended (log ++ [(c, reply)]) t ↔ Ended log t ∨ ∃ next failed st, c = .finish t next failed ∧
      reply = .status st ∧ st ≠ .active ∧
      t < (performAll perform {} (log.map Prod.fst)).1.store.registry.size := by
  constructor
  · rintro ⟨pre, post, next, failed, st, heq, hst, hlt⟩
    rcases List.eq_nil_or_concat post with rfl | ⟨post, last, rfl⟩
    · obtain ⟨rfl, hlast⟩ := List.append_inj' heq rfl
      simp only [List.cons.injEq, Prod.mk.injEq, and_true] at hlast
      exact Or.inr ⟨next, failed, st, hlast.1, hlast.2, hst, hlt⟩
    · rw [List.concat_eq_append, ← List.cons_append, ← List.append_assoc] at heq
      exact Or.inl ⟨pre, post, next, failed, st, (List.append_inj' heq rfl).1, hst, hlt⟩
  · rintro (⟨pre, post, next, failed, st, rfl, hst, hlt⟩ | ⟨next, failed, st, rfl, rfl, hst, hlt⟩)
    · exact ⟨pre, post ++ [(c, reply)], next, failed, st, by simp, hst, hlt⟩
    · exact ⟨log, [], next, failed, st, rfl, hst, hlt⟩

/-- A thread at work leaves alone what stalled threads remember. -/
theorem touches_of_loop? {d : Drive κ υ} (hloop : s.loop? c = some d) :
    (s.perform c).1.touches = s.touches := by
  cases c <;> first | rfl | cases hloop

/-- What a stalled thread remembers, it remembered before, or has come upon in this step. -/
theorem mem_touches_perform {t : TxnRef} {id : NodeId}
    (hmem : (t, id) ∈ (s.perform c).1.touches) :
    (t, id) ∈ s.touches ∨ ∃ i, c = .step t i := by
  cases c with
  | step u i =>
      rw [perform] at hmem
      cases hattempt : s.store.attemptStep u i with
      | error fault =>
          rw [hattempt] at hmem
          exact Or.inl hmem
      | ok result =>
          simp only [hattempt, touch] at hmem
          split at hmem
          · rcases List.mem_append.mp hmem with hold | hnew
            · exact Or.inl hold
            · obtain ⟨rfl, -⟩ := Prod.mk.inj (List.mem_singleton.mp hnew)
              exact Or.inr ⟨i, rfl⟩
          · exact Or.inl hmem
  | finish u next failed => exact Or.inl (List.mem_filter.mp hmem).1
  | late u i =>
      rw [perform] at hmem
      cases hlink : linkLate s.store u i <;> rw [hlink] at hmem <;> exact Or.inl hmem
  | execute ops => exact Or.inl hmem
  | find k => exact Or.inl hmem
  | insert k v => exact Or.inl hmem
  | delete k => exact Or.inl hmem
  | run u => exact Or.inl hmem
  | allocate ops => exact Or.inl hmem
  | entries => exact Or.inl hmem
  | survey => exact Or.inl hmem
  | tally => exact Or.inl hmem
  | resetTally => exact Or.inl hmem
  | inspect u => exact Or.inl hmem

end Perform

namespace Legal

variable {s : HelpingSession κ υ} {log : List (Command κ υ × Reply κ υ)} {es : List (Event κ υ)}

/-- The transaction of a thread that ended is decided. -/
theorem decided_of_ended (h : Legal s log es) {t : TxnRef} (hended : Ended log t) :
    t < s.store.registry.size ∧ s.store.registry.isActive t = false := by
  induction h with
  | fresh =>
      obtain ⟨pre, post, next, failed, st, hlog, -, -⟩ := hended
      simp at hlog
  | @perform s log es h c _ ih =>
      have hext := h.disciplined.coherent.wellFormed.extends_actAll (s.events c)
      rw [s.actAll_events] at hext
      -- Whoever was registered and decided before is so still.
      rcases ended_concat.mp hended with hbefore | ⟨next, failed, st, rfl, hreply, hst, hlt⟩
      · obtain ⟨hlt, hdecided⟩ := ih hbefore
        refine ⟨Nat.lt_of_lt_of_le hlt hext.size_le, ?_⟩
        rw [← Bool.not_eq_true] at hdecided ⊢
        exact fun hactive => hdecided (hext.isActive_of_isActive hlt hactive)
      · rw [h.performAll_eq] at hlt
        refine ⟨Nat.lt_of_lt_of_le hlt hext.size_le, ?_⟩
        have hstatus : (s.perform (.finish t next failed)).1.store.registry.status t = st := by
          simpa [HelpingSession.perform] using hreply
        rw [Registry.isActive, Transaction.isActive, decide_eq_false_iff_not]
        exact fun hactive => hst (hstatus.symm.trans hactive)

/-- What stalled threads remember was touched in steps. -/
theorem stepped_of_mem_touches (h : Legal s log es) {t : TxnRef} {id : NodeId}
    (hmem : (t, id) ∈ s.touches) : ∃ i reply, (Command.step t i, reply) ∈ log := by
  induction h with
  | fresh => cases hmem
  | @perform s log es h c _ ih =>
      rcases mem_touches_perform hmem with hbefore | ⟨i, rfl⟩
      · obtain ⟨i, reply, hstep⟩ := ih hbefore
        exact ⟨i, reply, List.mem_append_left _ hstep⟩
      · exact ⟨i, _, List.mem_append_right _ (List.mem_singleton_self _)⟩

end Legal

/-- What is owed between two commands: nodes that were abandoned, and nodes that stalled threads
touched that have not ended. -/
def Owed (s : HelpingSession κ υ) (log : List (Command κ υ × Reply κ υ)) (t : TxnRef)
    (id : NodeId) : Prop :=
  (t, id) ∈ abandoned {} (log.map Prod.fst) ∨ (t, id) ∈ s.touches ∧ ¬Ended log t

namespace Legal

variable {s : HelpingSession κ υ} {log : List (Command κ υ × Reply κ υ)} {es : List (Event κ υ)}
  {c : Command κ υ} {t : TxnRef} {id : NodeId}

/-- What one more command adds to what was abandoned. -/
theorem mem_abandoned_concat (h : Legal s log es) :
    (t, id) ∈ abandoned {} ((log ++ [(c, (s.perform c).2)]).map Prod.fst) ↔
      (t, id) ∈ abandoned {} (log.map Prod.fst) ∨ (t, id) ∈ s.abandons c := by
  rw [List.map_append, abandoned_append, h.performAll_eq, List.mem_append]
  simp [abandoned]

/-- What is owed stays so while no stalled thread finishes. -/
theorem owed_concat (h : Legal s log es) (hfinish : ∀ next failed, c ≠ .finish t next failed)
    (howed : Owed s log t id ∨ (t, id) ∈ s.abandons c ∨
      (t, id) ∈ (s.perform c).1.touches ∧ ¬Ended log t)
    (htouches : (t, id) ∈ s.touches → (t, id) ∈ (s.perform c).1.touches) :
    Owed (s.perform c).1 (log ++ [(c, (s.perform c).2)]) t id := by
  have hended : Ended (log ++ [(c, (s.perform c).2)]) t → Ended log t := fun hended =>
    (ended_concat.mp hended).resolve_right fun ⟨next, failed, _, heq, _⟩ => hfinish next failed heq
  rcases howed with (hleft | ⟨hmem, hnot⟩) | habandons | ⟨hmem, hnot⟩
  · exact Or.inl (h.mem_abandoned_concat.mpr (Or.inl hleft))
  · exact Or.inr ⟨htouches hmem, fun h => hnot (hended h)⟩
  · exact Or.inl (h.mem_abandoned_concat.mpr (Or.inr habandons))
  · exact Or.inr ⟨hmem, fun h => hnot (hended h)⟩

/-- A thread at work leaves every node tended. -/
theorem tended_loop (h : Legal s log es) (ht : s.store.Tended (Owed s log)) {d : Drive κ υ}
    (hloop : s.loop? c = some d) :
    (s.perform c).1.store.Tended (Owed (s.perform c).1 (log ++ [(c, (s.perform c).2)])) := by
  have hwf := h.disciplined.coherent.wellFormed
  have horderly : d.Orderly :=
    Drive.orderly_iff.mpr ((disciplined_iff.mp h.disciplined).tracks_of_loop? hloop)
  have hstart : d.store.Tended fun t id => d.Owes t id ∨ Owed s log t id := by
    obtain ⟨-, hstore | ⟨ops, hstore⟩⟩ := start_of_loop? hloop
    · rw [hstore]
      exact ht.mono fun _ _ => Or.inr
    · rw [hstore]
      exact (ht.allocate hwf ops).mono fun _ _ => Or.inr
  rw [perform_of_loop? hloop]
  refine (horderly.tended_run hstart).mono fun t id howed => ?_
  have habandons : s.abandons c = d.abandoned := by simp only [abandons, hloop]
  refine h.owed_concat (fun next failed heq => ?_) ?_ fun hmem => ?_
  · subst heq
    cases hloop
  · rw [habandons]
    exact howed.imp_right Or.inl
  · rwa [touches_of_loop? hloop]

/-- A step leaves every node tended: its thread remembers the node that it stamped. -/
theorem tended_step (h : Legal s log es) (ht : s.store.Tended (Owed s log)) {i : Nat}
    (hc : s.Allowed log (.step t i)) :
    (s.perform (.step t i)).1.store.Tended
      (Owed (s.perform (.step t i)).1 (log ++ [(.step t i, (s.perform (.step t i)).2)])) := by
  have hdisciplined := h.disciplined
  cases hop : (s.store.registry.get t).op? i with
  | none =>
      have hsame : (s.perform (.step t i)).1 = s := by rw [perform_step_of_none hop]
      have hstore : (s.perform (.step t i)).1.store = s.store := by rw [hsame]
      rw [hstore]
      exact ht.mono fun u id howed =>
        h.owed_concat (by simp) (Or.inl howed) fun hmem => by rwa [hsame]
  | some op =>
      rcases hattempt : s.store.attempt t i op with ⟨store, progress⟩
      have hnext : (s.perform (.step t i)).1 = { store, touches := s.touch t progress } := by
        rw [perform_step_of_op? hop, hattempt]
      have hreached : s.store.registry.isActive t → s.store.Reached t i := fun hactive =>
        hdisciplined.reached hactive (hc hactive)
      have htended := ht.attempt hdisciplined.coherent hop hreached hattempt
      have hstore : (s.perform (.step t i)).1.store = store := by rw [hnext]
      rw [hstore]
      refine htended.mono fun u id howed => ?_
      refine h.owed_concat (by simp) (howed.imp_right ?_) fun hmem => ?_
      · rintro ⟨rfl, hactive, hnode⟩
        refine Or.inr ⟨?_, fun hended => ?_⟩
        · simp [hnext, touch, hnode]
        · rw [(h.decided_of_ended hended).2] at hactive
          cases hactive
      · rw [hnext, touch]
        split
        · exact List.mem_append_left _ hmem
        · exact hmem

/-- A stalled thread that finishes leaves every node tended, but for those that it forgets. -/
theorem tended_finish (h : Legal s log es) (ht : s.store.Tended (Owed s log)) (next : Nat)
    (failed : Bool) :
    (s.perform (.finish t next failed)).1.store.Tended
      (Owed (s.perform (.finish t next failed)).1
        (log ++ [(.finish t next failed, (s.perform (.finish t next failed)).2)])) := by
  let f : Frame := { txn := t, next, failed, touched := s.touched t }
  have hwf := h.disciplined.coherent.wellFormed
  -- What is owed for others than `t`, or was abandoned before.
  let Others : TxnRef → NodeId → Prop := fun u id =>
    (u, id) ∈ abandoned {} (log.map Prod.fst) ∨ (u, id) ∈ s.touches ∧ u ≠ t ∧ ¬Ended log u
  have hstart : s.store.Tended fun u id => f.Owes u id ∨ Others u id := by
    refine ht.mono ?_
    rintro u id (hleft | ⟨hmem, hnot⟩)
    · exact Or.inr (Or.inl hleft)
    · by_cases hu : u = t
      · refine Or.inl ⟨hu, List.mem_map.mpr ⟨(u, id), List.mem_filter.mpr ⟨hmem, ?_⟩, rfl⟩⟩
        exact decide_eq_true hu
      · exact Or.inr (Or.inr ⟨hmem, hu, hnot⟩)
  have hothers : ∀ u id, Others u id → Owed (s.perform (.finish t next failed)).1
      (log ++ [(.finish t next failed, (s.perform (.finish t next failed)).2)]) u id := by
    rintro u id (hleft | ⟨hmem, hu, hnot⟩)
    · exact Or.inl (h.mem_abandoned_concat.mpr (Or.inl hleft))
    · refine Or.inr ⟨List.mem_filter.mpr ⟨hmem, decide_eq_true hu⟩, fun hended => ?_⟩
      rcases ended_concat.mp hended with hbefore | ⟨_, _, _, heq, -⟩
      · exact hnot hbefore
      · injection heq with heq
        exact hu heq.symm
  rcases hstart.finish hwf with ⟨-, hfinish⟩ | ⟨hactive, hfinish⟩
  · exact hfinish.mono hothers
  · refine hfinish.mono fun u id howed => howed.elim ?_ (hothers u id)
    rintro ⟨hu, hid⟩
    subst hu
    have hstill : (s.perform (.finish f.txn next failed)).1.store.registry.isActive f.txn = true :=
      hactive
    refine Or.inl (h.mem_abandoned_concat.mpr (Or.inr ?_))
    simp only [abandons, loop?, forgets]
    rw [if_pos hstill]
    exact List.mem_map_of_mem hid

/-- **Every command leaves every node tended**, if no thread is late. -/
theorem tended (h : Legal s log es) (hlate : ∀ t i reply, (Command.late t i, reply) ∉ log) :
    s.store.Tended (Owed s log) := by
  induction h with
  | fresh => exact fun n hn => by cases hn
  | @perform s log es h c hc ih =>
      have ih := ih fun t i reply hmem => hlate t i reply (List.mem_append_left _ hmem)
      have hwf := h.disciplined.coherent.wellFormed
      cases c with
      | execute ops => exact h.tended_loop ih rfl
      | find k => exact h.tended_loop ih rfl
      | insert k v => exact h.tended_loop ih rfl
      | delete k => exact h.tended_loop ih rfl
      | run t => exact h.tended_loop ih rfl
      | step t i => exact h.tended_step ih hc
      | finish t next failed => exact h.tended_finish ih next failed
      | late t i => exact absurd (List.mem_append_right _ (List.mem_singleton_self _)) (hlate t i _)
      | allocate ops =>
          exact (ih.allocate hwf ops).mono fun t id howed =>
            h.owed_concat (by simp) (Or.inl howed) fun hmem => hmem
      | entries => exact ih.mono fun t id howed =>
          h.owed_concat (c := .entries) (by simp) (Or.inl howed) fun hmem => hmem
      | survey => exact ih.mono fun t id howed =>
          h.owed_concat (c := .survey) (by simp) (Or.inl howed) fun hmem => hmem
      | tally => exact ih.mono fun t id howed =>
          h.owed_concat (c := .tally) (by simp) (Or.inl howed) fun hmem => hmem
      | resetTally => exact ih.mono fun t id howed =>
          h.owed_concat (c := .resetTally) (by simp) (Or.inl howed) fun hmem => hmem
      | inspect t => exact ih.mono fun u id howed =>
          h.owed_concat (c := .inspect t) (by simp) (Or.inl howed) fun hmem => hmem

/-- **The empty nodes are abandoned ones.** In a legal run without late threads, once every stalled
thread has ended, each node of the chain holds something or was abandoned: by a thread that broke a
cycle and discarded the frame it was noted in, or by a stalled thread that finished while its
transaction was active. If none was, the chain has a node for each live entry, and no other. -/
theorem empty_abandoned (h : Legal s log es)
    (hlate : ∀ t i reply, (Command.late t i, reply) ∉ log)
    (hended : ∀ t i reply, (Command.step t i, reply) ∈ log → Ended log t) :
    (∀ n ∈ s.store.chain, s.store.liveValue n = none →
      (n.stamp.owner, n.id) ∈ abandoned {} (log.map Prod.fst)) ∧
    (abandoned {} (log.map Prod.fst) = [] →
      s.store.survey = s.store.entries.map fun e => (e.1, true)) := by
  have hwf := h.disciplined.coherent.wellFormed
  have hempty : ∀ n ∈ s.store.chain, s.store.liveValue n = none →
      (n.stamp.owner, n.id) ∈ abandoned {} (log.map Prod.fst) := by
    intro n hn hnone
    rw [hwf.liveValue_eq hn] at hnone
    rcases h.tended hlate n hn with ⟨-, hlive⟩ | hleft | ⟨hmem, hnot⟩
    · rw [hnone] at hlive
      cases hlive
    · exact hleft
    · obtain ⟨i, reply, hstep⟩ := h.stepped_of_mem_touches hmem
      exact absurd (hended _ i reply hstep) hnot
  refine ⟨hempty, fun hnone => Store.survey_eq_of_live fun n hn => ?_⟩
  rw [Option.isSome_iff_ne_none]
  intro hlive
  have hmem := hempty n hn hlive
  rw [hnone] at hmem
  cases hmem

end Legal

/-- A transaction that deletes what it inserted leaves no node behind. -/
theorem empty_abandoned_none : ∃ s : HelpingSession Nat Nat, ∃ es,
    Legal s [(.allocate [.insert 1 10, .insert 2 20, .delete 1], .allocated 0 3),
      (.step 0 0, .attempted .ok true), (.step 0 1, .attempted .ok true),
      (.step 0 2, .attempted .ok true), (.finish 0 3 false, .status .committed)] es ∧
    s.store.survey = [(2, true)] ∧ s.store.survey = s.store.entries.map fun e => (e.1, true) := by
  obtain ⟨_, h₁⟩ := Legal.fresh.answered
    (c := .allocate [.insert (1 : Nat) (10 : Nat), .insert 2 20, .delete 1]) trivial rfl
  obtain ⟨_, h₂⟩ := h₁.answered (c := .step 0 0) (by decide) rfl
  obtain ⟨_, h₃⟩ := h₂.answered (c := .step 0 1) (by decide) rfl
  obtain ⟨_, h₄⟩ := h₃.answered (c := .step 0 2) (by decide) rfl
  obtain ⟨_, h₅⟩ := h₄.answered (c := .finish 0 3 false) (by decide) rfl
  refine ⟨_, _, h₅, by decide,
    (Legal.empty_abandoned h₅ (by simp) (fun t i reply hmem => ?_)).2 (by decide)⟩
  have ht : t = 0 := by
    simp at hmem
    exact hmem.elim (fun h => h.1.1) fun h => h.elim (fun h => h.1.1) fun h => h.1.1
  rw [ht]
  exact ⟨_, [], 3, false, .committed, rfl, by decide, by decide⟩

/-- **An empty node is left.** A transaction is stalled; a younger one helps it, inserts a key for
it and deletes it again, and is given up when the two wait for each other. The frame in which the
node was noted is discarded. A third transaction commits the first one, and the thread of that one
ends: every transaction is decided, and nobody has anything left to clean, but the node is still
there. -/
theorem empty_node_left : ∃ s : HelpingSession Nat Nat, ∃ log es, Legal s log es ∧
    (∀ t i reply, (Command.late t i, reply) ∉ log) ∧
    (∀ t, s.store.registry.isActive t = false) ∧
    (∀ t i reply, (Command.step t i, reply) ∈ log → Ended log t) ∧
    s.store.survey = [(1, true), (2, true), (3, true), (5, false)] ∧
    s.store.entries = [(1, 10), (2, 20), (3, 30)] := by
  obtain ⟨_, h₁⟩ := Legal.fresh.answered (c := .allocate [.insert (1 : Nat) (10 : Nat),
    .insert 5 50, .delete 5, .insert 2 20, .insert 3 30]) trivial rfl
  obtain ⟨_, h₂⟩ := h₁.answered (c := .step 0 0) (by decide) rfl
  obtain ⟨_, h₃⟩ := h₂.answered (c := .allocate [.insert 3 31, .insert 1 11]) trivial rfl
  obtain ⟨_, h₄⟩ := h₃.run_of_after (t := 1) (n := 8) rfl (by decide) rfl
  obtain ⟨_, h₅⟩ := h₄.answered (c := .allocate [.find 2]) trivial rfl
  obtain ⟨_, h₆⟩ := h₅.run_of_after (t := 2) (n := 8) rfl (by decide) rfl
  obtain ⟨_, h₇⟩ := h₆.answered (c := .finish 0 1 false) (by decide) rfl
  refine ⟨_, _, _, h₇, by simp, fun t => ?_, fun t i reply hmem => ?_, by decide, by decide⟩
  · rcases Nat.lt_or_ge t 3 with hlt | hge
    · revert t
      decide
    · rw [Registry.isActive, Registry.get_of_size_le hge]
      rfl
  · have ht : t = 0 := by
      simp at hmem
      exact hmem.1.1
    have hlog := h₆.performAll_eq
    rw [ht]
    refine ⟨_, [], 1, false, .committed, rfl, by decide, ?_⟩
    rw [hlog]
    decide

end HelpingSession

end AtomicSet
