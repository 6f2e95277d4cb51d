import AtomicSet.Proofs.Helping.Orderly

/-!
# Legal runs are serial

A run is legal if stalled threads keep to the order of their transactions: they attempt an operation
of an active transaction, link a node for it late, or finish with the operations before it
performed, only once all of these were attempted with success. Threads that help keep to this order
by themselves. So in a legal run, with any number of transactions left half done and completed by
others, every event is serial: the transactions take effect one after another, in the order in which
they commit.

## Main definitions

* `HelpingSession.Stepped` — an operation was attempted with success.
* `HelpingSession.Allowed`, `HelpingSession.Legal` — legal commands and legal runs.
* `HelpingSession.Tracked` — what was attempted with success is done, by some standard.
* `HelpingSession.Disciplined` — it was performed and published.

## Main results

* `HelpingSession.Tracked.perform` — legal commands keep to every standard.
* `HelpingSession.Legal.serial` — every moment of a legal run is serial.
-/

namespace AtomicSet

variable {κ υ : Type} [LinearOrder κ]

/-- What happens is serial as long as it is admissible. -/
theorem Store.Coherent.along_serial {s : Store κ υ} (h : s.Coherent) {es : List (Event κ υ)}
    (hes : s.Along Store.Admissible es) : s.Along Store.Serial es := by
  induction es generalizing s with
  | nil => exact trivial
  | cons e es ih => exact ⟨h.serial_of_admissible hes.1, ih (h.act hes.1) hes.2⟩

namespace HelpingSession

/-- The attempt at the operation of `t` at position `i` was answered by a success: it was performed
then, or had been before. -/
def Stepped (log : List (Command κ υ × Reply κ υ)) (t : TxnRef) (i : Nat) : Prop :=
  ∃ node, (Command.step t i, Reply.attempted .ok node) ∈ log ∨
    (Command.step t i, Reply.attempted .skip node) ∈ log

/-- The commands that are legal after the commands and replies of `log`. -/
def Allowed (s : HelpingSession κ υ) (log : List (Command κ υ × Reply κ υ)) : Command κ υ → Prop
  | .step t i => s.store.registry.isActive t → ∀ j < i, Stepped log t j
  | .late t i =>
    (∃ k v, (s.store.registry.get t).op? i = some (.insert k v)) ∧
      (s.store.registry.isActive t → ∀ j < i, Stepped log t j)
  | .finish t next failed =>
    failed = false → s.store.registry.isActive t → ∀ j < next, Stepped log t j
  | .execute _ | .find _ | .insert _ _ | .delete _ | .entries | .survey | .tally | .resetTally
  | .allocate _ | .run _ | .inspect _ => True

section Decidable

variable [DecidableEq υ]

instance decidableStepped (log : List (Command κ υ × Reply κ υ)) (t : TxnRef) (i : Nat) :
    Decidable (Stepped log t i) :=
  inferInstanceAs (Decidable (∃ node, (Command.step t i, Reply.attempted .ok node) ∈ log ∨
    (Command.step t i, Reply.attempted .skip node) ∈ log))

instance decidableInserts : (op? : Option (Operation κ υ)) →
    Decidable (∃ k v, op? = some (.insert k v))
  | some (.insert k v) => .isTrue ⟨k, v, rfl⟩
  | none | some (.delete _) | some (.find _) => .isFalse nofun

instance decidableAllowed (s : HelpingSession κ υ) (log : List (Command κ υ × Reply κ υ)) :
    DecidablePred (s.Allowed log)
  | .step t i =>
    inferInstanceAs (Decidable (s.store.registry.isActive t → ∀ j < i, Stepped log t j))
  | .late t i =>
    inferInstanceAs (Decidable ((∃ k v, (s.store.registry.get t).op? i = some (.insert k v)) ∧
      (s.store.registry.isActive t → ∀ j < i, Stepped log t j)))
  | .finish t next failed =>
    inferInstanceAs (Decidable
      (failed = false → s.store.registry.isActive t → ∀ j < next, Stepped log t j))
  | .execute _ | .find _ | .insert _ _ | .delete _ | .entries | .survey | .tally | .resetTally
  | .allocate _ | .run _ | .inspect _ => .isTrue trivial

end Decidable

/-- A late thread has nothing to do for an operation that is no insertion. So legal runs need no
such command to lead wherever they could with it. -/
theorem perform_late_of_not_insert {s : HelpingSession κ υ} {t : TxnRef} {i : Nat}
    (hop : ∀ k v, (s.store.registry.get t).op? i ≠ some (.insert k v)) :
    (s.perform (.late t i)).1 = s := by
  cases hstep : (s.store.registry.get t).stepAt i with
  | error fault => simp only [HelpingSession.perform, linkLate, hstep]
  | ok step =>
      have hget := Drive.op?_of_stepAt hstep
      cases hkind : step.op with
      | find k => simp only [HelpingSession.perform, linkLate, hstep, hkind]
      | delete k => simp only [HelpingSession.perform, linkLate, hstep, hkind]
      | insert k v => exact absurd (hkind ▸ hget) (hop k v)

/-- The legal runs: where they lead, their commands with the replies, and all that happened. -/
inductive Legal :
    HelpingSession κ υ → List (Command κ υ × Reply κ υ) → List (Event κ υ) → Prop where
  | fresh : Legal {} [] []
  | perform {s : HelpingSession κ υ} {log : List (Command κ υ × Reply κ υ)}
      {es : List (Event κ υ)} (h : Legal s log es) {c : Command κ υ} (allowed : s.Allowed log c) :
      Legal (s.perform c).1 (log ++ [(c, (s.perform c).2)]) (es ++ s.events c)

/-! ### Keeping to a standard -/

/-- What was attempted with success is done, by the standard `P`. -/
structure Tracked (P : Standard κ υ) (s : HelpingSession κ υ)
    (log : List (Command κ υ × Reply κ υ)) : Prop where
  holds : P.Holds s.store
  stepped : ∀ t i, Stepped log t i → ∃ op, (s.store.registry.get t).op? i = some op ∧
    (s.store.registry.isActive t → P.Did s.store t i op)

namespace Tracked

variable {P : Standard κ υ} {s : HelpingSession κ υ} {log : List (Command κ υ × Reply κ υ)}

/-- All is done in front of a position if it was attempted there with success. -/
theorem behind (h : s.Tracked P log) {t : TxnRef} {i : Nat}
    (hactive : s.store.registry.isActive t) (hi : ∀ j < i, Stepped log t j) :
    s.store.Behind P.Did t i := by
  intro j hj op hop
  obtain ⟨op', hop', hdid⟩ := h.stepped t j (hi j hj)
  obtain rfl := Option.some.inj (hop.symm.trans hop')
  exact hdid hactive

/-- The thread that a command sets to work starts on track. -/
theorem tracks_of_loop? (h : s.Tracked P log) {c : Command κ υ} {d : Drive κ υ}
    (hloop : s.loop? c = some d) : d.Tracks P := by
  obtain ⟨store, stack⟩ := d
  obtain ⟨⟨t, rfl⟩, rfl | ⟨ops, rfl⟩⟩ := start_of_loop? hloop
  · exact .ofRoot h.holds t
  · exact .ofRoot (P.act h.holds (e := .allocate ops) trivial) t

/-- What happens when operations are run as one transaction respects what is done. -/
theorem admits_executeEvents (h : s.Tracked P log) (ops : List (Operation κ υ)) :
    s.store.Along (Store.Admits P.Did) (s.store.executeEvents ops) :=
  ⟨trivial, (h.tracks_of_loop? (c := .execute ops) rfl).admits_history⟩

/-- **What happens when a legal command is performed** respects what is done. -/
theorem admits_events (h : s.Tracked P log) {c : Command κ υ} (hc : s.Allowed log c) :
    s.store.Along (Store.Admits P.Did) (s.events c) := by
  cases c with
  | execute ops => exact h.admits_executeEvents ops
  | find k => exact h.admits_executeEvents [.find k]
  | insert k v => exact h.admits_executeEvents [.insert k v]
  | delete k => exact h.admits_executeEvents [.delete k]
  | run t => exact (h.tracks_of_loop? (c := .run t) rfl).admits_history
  | allocate ops => exact ⟨trivial, trivial⟩
  | step t i => exact ⟨fun hactive => h.behind hactive (hc hactive), trivial⟩
  | late t i => exact ⟨fun hactive => h.behind hactive (hc.2 hactive), trivial⟩
  | finish t next failed =>
      let f : Frame := { txn := t, next, failed, touched := s.touched t }
      have hone : Drive.Tracks P ⟨s.store, ⟨[f]⟩⟩ := by
        refine ⟨h.holds, fun g hg hfailed hactive => ?_⟩
        obtain rfl := List.mem_singleton.mp hg
        exact h.behind hactive (hc hfailed hactive)
      exact hone.admits_finishEvents
  | resetTally => exact ⟨trivial, trivial⟩
  | entries => exact trivial
  | survey => exact trivial
  | tally => exact trivial
  | inspect t => exact trivial

/-- An attempt that is answered by a success got its operation done. -/
theorem did_of_step (h : s.Tracked P log) {t : TxnRef} {i : Nat} {code : Code} {node : Bool}
    (hcode : code = .ok ∨ code = .skip)
    (hreply : (s.perform (.step t i)).2 = .attempted code node) :
    ∃ op, ((s.perform (.step t i)).1.store.registry.get t).op? i = some op ∧
      ((s.perform (.step t i)).1.store.registry.isActive t →
        P.Did (s.perform (.step t i)).1.store t i op) := by
  obtain ⟨op, s', progress, hop, hattempt, hstore, hprogress⟩ := attempt_of_step hreply
  have hslots := Drive.slotsOnly_of_attempt hattempt
  rw [hstore]
  refine ⟨op, (Transaction.op?_congr (hslots.ops_eq t) i).trans hop, fun hactive => ?_⟩
  rw [hslots.isActive_eq] at hactive
  have hnode : ∃ id, progress.node? = some id := by
    cases progress with
    | applied n => exact ⟨n, rfl⟩
    | repeated n => exact ⟨n, rfl⟩
    | refused =>
        simp only [Reply.ofProgress, Reply.attempted.injEq] at hprogress
        rcases hcode with rfl | rfl <;> cases hprogress.1
    | blocked owner resume => cases hprogress
  obtain ⟨id, hid⟩ := hnode
  exact P.achieved h.holds hop hactive hattempt hid

/-- **Legal commands keep to the standard.** -/
theorem perform (h : s.Tracked P log) {c : Command κ υ} (hc : s.Allowed log c) :
    (s.perform c).1.Tracked P (log ++ [(c, (s.perform c).2)]) := by
  have hwf := P.wellFormed h.holds
  have hstore := s.actAll_events c
  have hold : ∀ t i, Stepped log t i → ∃ op,
      ((s.perform c).1.store.registry.get t).op? i = some op ∧
        ((s.perform c).1.store.registry.isActive t → P.Did (s.perform c).1.store t i op) := by
    intro t i hstepped
    obtain ⟨op, hop, hdid⟩ := h.stepped t i hstepped
    have hext := hwf.extends_actAll (s.events c)
    rw [← hstore]
    refine ⟨op, hext.op?_eq hop, fun hactive => ?_⟩
    have hbefore := hext.isActive_of_isActive (Registry.lt_size_of_op? hop) hactive
    exact P.lasting h.holds _ hop hactive (hdid hbefore)
  refine ⟨hstore ▸ P.actAll h.holds (h.admits_events hc), fun t i hstepped => ?_⟩
  obtain ⟨node, hmem⟩ := hstepped
  simp only [List.mem_append, List.mem_singleton, Prod.mk.injEq] at hmem
  rcases hmem with (hmem | ⟨rfl, hreply⟩) | (hmem | ⟨rfl, hreply⟩)
  · exact hold t i ⟨node, Or.inl hmem⟩
  · exact h.did_of_step (Or.inl rfl) hreply.symm
  · exact hold t i ⟨node, Or.inr hmem⟩
  · exact h.did_of_step (Or.inr rfl) hreply.symm

end Tracked

/-- What holds after a legal run. -/
structure Disciplined (s : HelpingSession κ υ) (log : List (Command κ υ × Reply κ υ)) : Prop where
  coherent : s.store.Coherent
  recorded : s.store.Recorded
  /-- What was attempted with success has been performed and published. -/
  stepped : ∀ t i, Stepped log t i → ∃ op, (s.store.registry.get t).op? i = some op ∧
    (s.store.registry.isActive t → s.store.Completed t i op)

/-- The discipline is to keep to the standard that operations are performed and published. -/
theorem disciplined_iff {s : HelpingSession κ υ} {log : List (Command κ υ × Reply κ υ)} :
    s.Disciplined log ↔ s.Tracked .published log :=
  ⟨fun h => ⟨⟨h.coherent, h.recorded⟩, h.stepped⟩, fun h => ⟨h.holds.1, h.holds.2, h.stepped⟩⟩

/-- A position is reached if all operations in front of it were attempted with success. -/
theorem Disciplined.reached {s : HelpingSession κ υ} {log : List (Command κ υ × Reply κ υ)}
    (h : s.Disciplined log) {t : TxnRef} {i : Nat} (hactive : s.store.registry.isActive t)
    (hi : ∀ j < i, Stepped log t j) : s.store.Reached t i :=
  (disciplined_iff.mp h).behind hactive hi

namespace Legal

variable {s : HelpingSession κ υ} {log : List (Command κ υ × Reply κ υ)} {es : List (Event κ υ)}

/-- A legal run is a run. -/
theorem run (h : Legal s log es) : Run s es := by
  induction h with
  | fresh => exact .fresh
  | perform _ _ ih => exact ih.perform _

/-- A run acts out what happened. -/
theorem actAll_eq (h : Legal s log es) : Store.actAll {} es = s.store :=
  h.run.store_eq

/-- A legal run is to perform its commands, and its replies are the answers. -/
theorem performAll_eq (h : Legal s log es) :
    performAll HelpingSession.perform {} (log.map Prod.fst) = (s, log.map Prod.snd) := by
  induction h with
  | fresh => rfl
  | @perform s log es h c _ ih =>
      rw [List.map_append, List.map_append, performAll_append, ih]
      rfl

/-- A legal command with the reply that is known for it. -/
theorem answered (h : Legal s log es) {c : Command κ υ} (allowed : s.Allowed log c)
    {reply : Reply κ υ} (hreply : (s.perform c).2 = reply) :
    ∃ es', Legal (s.perform c).1 (log ++ [(c, reply)]) es' :=
  ⟨_, hreply ▸ h.perform allowed⟩

/-- A thread that runs a transaction, if its stack is empty after `n` rounds. -/
theorem run_of_after (h : Legal s log es) {t : TxnRef} {n : Nat} {d : Drive κ υ}
    (hd : Drive.after ⟨s.store, .ofRoot t⟩ n = d) (hdone : d.stack.frames = []) {b : Bool}
    (hb : decide (d.store.registry.status t = .committed) = b) :
    ∃ es', Legal { s with store := d.store } (log ++ [(.run t, .flag b)]) es' := by
  have hlegal := h.perform (c := .run t) trivial
  rw [perform_run_of_after hd hdone, hb] at hlegal
  exact ⟨_, hlegal⟩

/-- A legal run is disciplined. -/
theorem disciplined (h : Legal s log es) : s.Disciplined log := by
  rw [disciplined_iff]
  induction h with
  | fresh =>
      refine ⟨⟨.fresh, fun n hn => by cases hn⟩, fun t i hstepped => ?_⟩
      obtain ⟨node, hmem | hmem⟩ := hstepped
      · cases hmem
      · cases hmem
  | perform h hc ih => exact ih.perform hc

/-- All that happens in a legal run is admissible. -/
theorem admissible (h : Legal s log es) : Store.Along Store.Admissible {} es := by
  induction h with
  | fresh => exact trivial
  | @perform s log es h c hc ih =>
      rw [Store.along_append, h.actAll_eq]
      exact ⟨ih, (disciplined_iff.mp h.disciplined).admits_events hc⟩

/-- **Every moment of a legal run is serial.** Whenever a transaction commits, be it inside of the
loop of a thread that helps, its operations succeed on the live entries just before; the live
entries just after are what they leave, and its slots hold what they read. At all other moments the
live entries stay as they are. -/
theorem serial (h : Legal s log es) :
    Store.actAll {} es = s.store ∧
      ∀ pre e post, es = pre ++ e :: post → (Store.actAll {} pre).Serial e := by
  refine ⟨h.actAll_eq, fun pre e post heq => ?_⟩
  have hserial : Store.Along Store.Serial {} es := Store.Coherent.along_serial .fresh h.admissible
  rw [heq] at hserial
  exact hserial.holds_at

end Legal

/-- Two crossing transactions are stalled by legal commands. -/
theorem legal_crossing : ∃ log es, Legal crossing log es := by
  have h₁ := Legal.fresh.perform (c := .allocate [.insert 1 10, .insert 2 20]) trivial
  have h₂ := h₁.perform (c := .allocate [.insert 2 21, .insert 1 11]) trivial
  have h₃ := h₂.perform (c := .step 0 0) (by decide)
  have h₄ := h₃.perform (c := .step 1 0) (by decide)
  exact ⟨_, _, h₄⟩

/-- Running the first of two crossing transactions breaks their cycle and then commits it. Just
before there are no entries, and just after there are those that it inserted. -/
theorem serial_crossing : ∃ log es, Legal (crossing.perform (.run 0)).1 log es ∧
    Store.Sometime (fun s e => e = .settle 0 .committed false ∧ s.registry.isActive 0 ∧
      s.registry.status 1 = .aborted ∧ s.entries = [] ∧
      (s.act e).entries = [(1, 10), (2, 20)]) {} es ∧
    Store.actAll {} es = (crossing.perform (.run 0)).1.store ∧
      ∀ pre e post, es = pre ++ e :: post → (Store.actAll {} pre).Serial e := by
  obtain ⟨log, es, hlegal⟩ := legal_crossing
  have hrun := hlegal.perform (c := .run 0) trivial
  refine ⟨_, _, hrun, ?_, Legal.serial hrun⟩
  rw [Store.sometime_append, hlegal.actAll_eq]
  refine Or.inr ((Drive.sometime_history ⟨crossing.store, .ofRoot 0⟩).mpr
    ⟨_, Drive.after_mem_rounds _ 4, ?_⟩)
  -- In the fifth round nothing is left to perform.
  exact Store.sometime_cons.mpr (Or.inl ⟨rfl, rfl, rfl, rfl, rfl⟩)

end HelpingSession

end AtomicSet
