import AtomicSet.Proofs.Helping.Legal
import AtomicSet.Proofs.Helping.Sequential

/-!
# No operation is refused without a reason

In a legal run an operation of an active transaction is refused only if it is the first one of its
transaction that fails on the live entries of that moment, whoever attempts it and wherever that
thread set in. A thread that is refused notes so in its frame and aborts the transaction in the next
round. Nothing happens in between, so a transaction that a thread aborts, other than to break a
cycle, could not have committed at the moment it was aborted.

## Main definitions

* `Store.FailsAt` — a transaction fails on the live entries.
* `Drive.Honest` — the frame of a thread that was refused is the top one, and its transaction fails.
* `Drive.Justified` — what is refused or aborted in a round fails on the live entries.

## Main results

* `Drive.Honest.advance` — every round keeps a thread honest.
* `Drive.Honest.justified` — what an honest thread does is justified.
* `HelpingSession.Legal.justified_rounds` — all refusals and aborts of a legal run are.
-/

namespace AtomicSet

variable {κ υ : Type} [LinearOrder κ]

namespace Store

/-- On the live entries, the operations of `t` succeed one after another up to the position `i`, and
the one at this position fails. -/
def FailsAt (s : Store κ υ) (t : TxnRef) (i : Nat) : Prop :=
  ∃ m : Contents κ υ, m.Lists s.entries ∧ m.run (s.registry.get t).ops = .error i

/-- A transaction that fails on the map of a well-formed store fails on its live entries. -/
theorem WellFormed.failsAt {s : Store κ υ} (h : s.WellFormed) {t : TxnRef} {i : Nat}
    (hrun : s.contents.run (s.registry.get t).ops = .error i) : s.FailsAt t i :=
  ⟨s.contents, h.lists_entries, hrun⟩

end Store

namespace Drive

/-- In this round, what is refused fails on the live entries, and so does what is aborted. -/
structure Justified (d : Drive κ υ) : Prop where
  /-- If the attempt for the top frame is refused, the operation is the first to fail. -/
  refused : ∀ f below op, d.stack.frames = f :: below → f.pending? d.store.registry = some op →
    (d.store.attempt f.txn f.next op).2 = .refused → d.store.FailsAt f.txn f.next
  /-- If a transaction is aborted and not counted as a fake abort, one of its operations fails. -/
  aborted : ∀ d' t, d.advance = some d' → d.store.registry.isActive t →
    d'.store.registry.status t = .aborted →
    d'.store.tally.fakeAborts = d.store.tally.fakeAborts → ∃ i, d.store.FailsAt t i

/-- Only the top frame of an orderly thread may have been refused, and then its transaction fails on
the live entries. -/
structure Honest (d : Drive κ υ) : Prop where
  orderly : d.Orderly
  failing : ∀ f ∈ d.stack.frames, f.failed → d.store.registry.isActive f.txn →
    ∃ i, d.store.contents.run (d.store.registry.get f.txn).ops = .error i
  going : ∀ f ∈ d.stack.frames.tail, f.failed = false

namespace Honest

/-- A thread is honest while it has not been refused. -/
theorem of_going {d : Drive κ υ} (h : d.Orderly) (hgoing : ∀ f ∈ d.stack.frames, f.failed = false) :
    d.Honest where
  orderly := h
  failing f hf hfailed := by
    rw [hgoing f hf] at hfailed
    cases hfailed
  going f hf := hgoing f (List.mem_of_mem_tail hf)

/-- With something left to perform, the thread has not been refused. -/
theorem going_of_pending {s : Store κ υ} {f : Frame} {below : List Frame} {op : Operation κ υ}
    (h : Honest ⟨s, ⟨f :: below⟩⟩) (hpending : f.pending? s.registry = some op) :
    ∀ g ∈ f :: below, g.failed = false := by
  intro g hg
  rcases List.mem_cons.mp hg with rfl | hg
  · exact (Frame.pending?_eq_some_iff.mp hpending).1
  · exact h.going g hg

/-- **Every round keeps a thread honest.** -/
theorem advance {d d' : Drive κ υ} (h : d.Honest) (hadvance : d.advance = some d') :
    d'.Honest := by
  have horderly := h.orderly.advance hadvance
  obtain ⟨s, f, below, rfl, hround⟩ := exists_round hadvance
  cases hround with
  | finished hdone => exact of_going horderly h.going
  | performed hpending _ _ =>
      refine of_going horderly fun g hg => ?_
      rcases List.mem_cons.mp hg with rfl | hg
      · exact (Frame.pending?_eq_some_iff.mp hpending).1
      · exact h.going g hg
  | @failed op s' hpending hattempt =>
      refine ⟨horderly, fun g hg hfailed _ => ?_, h.going⟩
      obtain ⟨hgoing, hactive, hop⟩ := Frame.pending?_eq_some_iff.mp hpending
      have hcoherent := h.orderly.coherent
      have hreached := h.orderly.reached f List.mem_cons_self hgoing hactive
      have hcontents := hcoherent.contents_attempt hop fun _ => hreached
      rw [hattempt] at hcontents
      rcases List.mem_cons.mp hg with rfl | hg
      · -- Being refused changes neither the live entries nor the operations.
        refine ⟨f.next, ?_⟩
        rw [hcontents, (slotsOnly_of_attempt hattempt).ops_eq]
        exact hcoherent.run_eq_error_of_refused hop hactive hreached hattempt
      · rw [h.going g hg] at hfailed
        cases hfailed
  | pushed hpending _ _ =>
      refine of_going horderly fun g hg => ?_
      rcases List.mem_cons.mp hg with rfl | hg
      · rfl
      · exact h.going_of_pending hpending g hg
  | unwound hpending _ hcut =>
      obtain ⟨above, hsplit⟩ := Stack.frames_of_cut? hcut
      dsimp only at hsplit
      refine of_going horderly fun g hg => h.going_of_pending hpending g ?_
      rw [hsplit]
      exact List.mem_append_right above (List.mem_cons_of_mem _ hg)

/-- Finishing a frame aborts a transaction only if the frame was refused. -/
theorem failed_of_finish {s : Store κ υ} {f : Frame} {t : TxnRef}
    (hactive : s.registry.isActive t) (haborted : (s.finish f).registry.status t = .aborted) :
    t = f.txn ∧ f.failed := by
  rw [Store.finish, Store.registry_sweep] at haborted
  by_cases hfailed : f.failed
  · rw [if_pos hfailed] at haborted
    exact ⟨(Store.eq_of_status_settle hactive (by decide) haborted).1, hfailed⟩
  · rw [if_neg hfailed] at haborted
    by_cases hall : (s.registry.get f.txn).size ≤ f.next
    · rw [if_pos hall] at haborted
      cases (Store.eq_of_status_settle hactive (by decide) haborted).2
    · rw [if_neg hall] at haborted
      cases haborted.symm.trans (Registry.isActive_iff.mp hactive)

/-- Giving a frame up, if that aborts a transaction, is counted as a fake abort. -/
theorem fakeAborts_giveUp {s : Store κ υ} (h : s.WellFormed) {f : Frame} {t : TxnRef}
    (hactive : s.registry.isActive t) (haborted : (s.giveUp f).registry.status t = .aborted) :
    (s.giveUp f).tally.fakeAborts = s.tally.fakeAborts + 1 := by
  rw [Store.giveUp, Store.registry_sweep] at haborted
  obtain ⟨rfl, -⟩ := Store.eq_of_status_settle hactive (by decide) haborted
  rw [Store.giveUp, (h.settle f.txn .aborted true).tally_sweep, Store.tally_settle hactive]
  rfl

/-- **What an honest thread does is justified.** -/
theorem justified {d : Drive κ υ} (h : d.Honest) : d.Justified where
  refused f below op hframes hpending hrefused := by
    obtain ⟨hgoing, hactive, hop⟩ := Frame.pending?_eq_some_iff.mp hpending
    have hmem : f ∈ d.stack.frames := by
      rw [hframes]
      exact List.mem_cons_self
    have hcoherent := h.orderly.coherent
    refine hcoherent.wellFormed.failsAt ?_
    exact hcoherent.run_eq_error_of_refused hop hactive (h.orderly.reached f hmem hgoing hactive)
      (Prod.ext rfl hrefused)
  aborted d' t hadvance hactive haborted hfake := by
    have hwf := h.orderly.coherent.wellFormed
    obtain ⟨s, f, below, rfl, hround⟩ := exists_round hadvance
    dsimp only at *
    -- An attempt decides nothing.
    have hattempted : ∀ {op s' progress}, s.attempt f.txn f.next op = (s', progress) →
        s'.registry.status t ≠ .aborted := by
      intro op s' progress hattempt heq
      rw [Registry.status, (slotsOnly_of_attempt hattempt).status_eq,
        Registry.isActive_iff.mp hactive] at heq
      cases heq
    cases hround with
    | finished hdone =>
        obtain ⟨rfl, hfailed⟩ := failed_of_finish hactive haborted
        obtain ⟨i, hrun⟩ := h.failing f List.mem_cons_self hfailed hactive
        exact ⟨i, hwf.failsAt hrun⟩
    | performed _ hattempt _ => exact absurd haborted (hattempted hattempt)
    | failed _ hattempt => exact absurd haborted (hattempted hattempt)
    | pushed _ hattempt _ => exact absurd haborted (hattempted hattempt)
    | @unwound op s' owner resume victim rest hpending hattempt _ =>
        have hwf' : s'.WellFormed := by
          rw [← actAll_attempt hpending hattempt]
          exact hwf.actAll _
        have htally := hwf.tally_attempt f.txn f.next op
        rw [hattempt] at htally
        rw [← (slotsOnly_of_attempt hattempt).isActive_eq] at hactive
        have hcounted := fakeAborts_giveUp hwf' hactive haborted
        dsimp only at htally hfake
        rw [htally] at hcounted
        omega

end Honest

end Drive

namespace HelpingSession

/-- The thread that a command sets to work is honest from the start. -/
theorem Disciplined.honest {s : HelpingSession κ υ} {log : List (Command κ υ × Reply κ υ)}
    (h : s.Disciplined log) {c : Command κ υ} {d : Drive κ υ} (hloop : s.loop? c = some d) :
    d.Honest := by
  refine .of_going (Drive.orderly_iff.mpr ((disciplined_iff.mp h).tracks_of_loop? hloop))
    fun f hf => ?_
  obtain ⟨⟨t, hstack⟩, -⟩ := start_of_loop? hloop
  rw [hstack] at hf
  rw [List.mem_singleton.mp hf]

/-- **No refusal and no abort without a reason.** After a legal run, if an operation of an active
transaction is attempted by a legal command and fails, it is the first one of its transaction that
fails on the live entries; and whatever is refused or aborted in any round of a thread that a
command sets to work is justified in the same way. -/
theorem Legal.justified_rounds {s : HelpingSession κ υ} {log : List (Command κ υ × Reply κ υ)}
    {es : List (Event κ υ)} (h : Legal s log es) :
    (∀ t i node, s.Allowed log (.step t i) → s.store.registry.isActive t →
      (s.perform (.step t i)).2 = .attempted .fail node → s.store.FailsAt t i) ∧
    ∀ c d, s.loop? c = some d → ∀ d' ∈ d.rounds, d'.Justified := by
  have hdisciplined := h.disciplined
  have hcoherent := hdisciplined.coherent
  constructor
  · intro t i node hc hactive hreply
    have hreached := hdisciplined.reached hactive (hc hactive)
    obtain ⟨op, s', progress, hop, hattempt, -, hprogress⟩ := attempt_of_step hreply
    refine hcoherent.wellFormed.failsAt ?_
    cases progress with
    | applied n => cases hprogress
    | repeated n => cases hprogress
    | refused => exact hcoherent.run_eq_error_of_refused hop hactive hreached hattempt
    | blocked owner resume => cases hprogress
  · intro c d hloop d' hd'
    have hhonest : ∀ d' ∈ d.rounds, d'.Honest :=
      Drive.forall_mem_rounds (hdisciplined.honest hloop) fun _ _ => Drive.Honest.advance
    exact (hhonest d' hd').justified

/-- A stalled transaction that inserted a key and is to delete another one, which is not there. -/
theorem justified_rounds_stalled : ∃ (s : HelpingSession Nat Nat) (log : _) (es : _),
    Legal s log es ∧ s.store.FailsAt 0 1 ∧
      ∀ d, s.loop? (.run 0) = some d → ∀ d' ∈ d.rounds, d'.Justified := by
  have h₁ := Legal.fresh.perform (c := .allocate [.insert 1 (10 : Nat), .delete (2 : Nat)]) trivial
  have h₂ := h₁.perform (c := .step 0 0) (by decide)
  have hjustified := Legal.justified_rounds h₂
  exact ⟨_, _, _, h₂, hjustified.1 0 1 false (by decide) (by decide) (by decide),
    hjustified.2 (.run 0)⟩

end HelpingSession

end AtomicSet
