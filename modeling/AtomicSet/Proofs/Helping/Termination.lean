import AtomicSet.Proofs.Helping.Rounds

/-!
# The helping loop ends

From every reachable state, and for every transaction, the loop of a thread ends, and then the
transaction is decided. As long as all stacked transactions are active, three numbers measure how
far it is from its end: the active transactions, those of them that are not on the stack, and the
operations left for the top frame. The rank by which the loop is defined lists one number more, the
decided transactions on the stack; there are none but the thread's own, if that was over before.

## Main definitions

* `Drive.measure`, `Drive.MeasureLT` — the three numbers in order of weight.
* `Drive.Rooted` — the thread's own transaction is decided or at the bottom of the stack.
* `Drive.Ends` — what is meant by a thread coming to its end.

## Main results

* `Drive.Sound.measure_lt` — every round lowers the measure.
* `Drive.Rooted.advance` — the thread's own transaction does not get lost.
* `HelpingSession.Reachable.loop_ends` — every thread that a command sets to work comes to its end.
-/

namespace AtomicSet

variable {κ υ : Type}

namespace Drive

/-! ### The measure -/

/-- The active transactions, those of them that are not on the stack, and the operations left for
the top frame. -/
def measure (d : Drive κ υ) : Nat × Nat × Nat :=
  (d.store.registry.countActive fun _ => true,
    d.store.registry.countActive (Stack.lacks d.stack.frames),
    match d.stack.frames with
    | [] => 0
    | f :: _ => f.remaining d.store.registry)

/-- The order of measures: the first number counts most. -/
abbrev MeasureLT : Nat × Nat × Nat → Nat × Nat × Nat → Prop :=
  Prod.Lex (· < ·) (Prod.Lex (· < ·) (· < ·))

/-- The measure cannot be lowered for ever. -/
theorem wellFounded_measureLT : WellFounded MeasureLT :=
  (Prod.lex ⟨_, Nat.lt_wfRel.wf⟩ (Prod.lex ⟨_, Nat.lt_wfRel.wf⟩ ⟨_, Nat.lt_wfRel.wf⟩)).wf

/-- While no stacked transaction is decided, the rank is the measure. -/
theorem rank_eq {d : Drive κ υ} (h : ∀ f ∈ d.stack.frames, d.store.registry.isActive f.txn) :
    d.rank = (d.measure.1, 0, d.measure.2) := by
  have hnone : Stack.countDecided d.store.registry d.stack.frames = 0 :=
    List.countP_eq_zero.mpr fun f hf => by simp [h f hf]
  simp only [rank, Stack.rank, hnone]
  rfl

variable [LinearOrder κ]

/-- **Every round lowers the measure.** -/
theorem Sound.measure_lt {d d' : Drive κ υ} (h : d.Sound) (hadvance : d.advance = some d') :
    MeasureLT d'.measure d.measure := by
  have hlt := rank_advance_lt hadvance
  rw [rank_eq h.active, rank_eq (h.advance hadvance).active] at hlt
  simp only [Prod.lex_def, Nat.lt_irrefl, false_or, true_and] at hlt ⊢
  exact hlt

/-! ### The thread's own transaction -/

/-- The transaction `t` is decided, or the bottom frame is its. -/
def Rooted (t : TxnRef) (d : Drive κ υ) : Prop :=
  d.store.registry.isActive t → (d.stack.frames.map Frame.txn).getLast? = some t

omit [LinearOrder κ] in
/-- A thread that has just been set to work is rooted in its transaction. -/
theorem Rooted.ofRoot (s : Store κ υ) (t : TxnRef) : Rooted t ⟨s, .ofRoot t⟩ :=
  fun _ => rfl

/-- Frames that are not the last ones may go, and the last one only if it is not of `t`. -/
theorem getLast?_of_append {t : TxnRef} {f : Frame} (above : List Frame) {below : List Frame}
    (h : ((above ++ f :: below).map Frame.txn).getLast? = some t) (hne : t ≠ f.txn) :
    (below.map Frame.txn).getLast? = some t := by
  cases below with
  | nil => simp [Ne.symm hne] at h
  | cons g below => simpa using h

/-- **The thread's own transaction does not get lost**: only being decided unstacks it. -/
theorem Rooted.advance {t : TxnRef} {d d' : Drive κ υ} (h : Rooted t d)
    (hadvance : d.advance = some d') : Rooted t d' := by
  obtain ⟨f, below, hframes, hround⟩ := round_of_advance hadvance
  have hattempted : ∀ {op s' progress}, d.store.attempt f.txn f.next op = (s', progress) →
      s'.registry.isActive t → ((f :: below).map Frame.txn).getLast? = some t := by
    intro op s' progress hattempt hactive
    rw [(slotsOnly_of_attempt hattempt).isActive_eq] at hactive
    exact hframes ▸ h hactive
  intro hactive
  cases hround with
  | finished hdone =>
      have hne : t ≠ f.txn := by
        rintro rfl
        rw [Store.isActive_finish hdone] at hactive
        cases hactive
      rw [Store.isActive_finish_of_ne _ hne] at hactive
      have hlast := h hactive
      rw [hframes] at hlast
      exact getLast?_of_append [] hlast hne
  | performed _ hattempt _ => exact hattempted hattempt hactive
  | failed _ hattempt => exact hattempted hattempt hactive
  | pushed _ hattempt _ =>
      have hlast := hattempted hattempt hactive
      simpa [Stack.push] using hlast
  | unwound _ hattempt hcut =>
      rw [Store.isActive_giveUp, Bool.and_eq_true, decide_eq_true_eq] at hactive
      have hlast := hattempted hattempt hactive.2
      obtain ⟨above, hsplit⟩ := Stack.frames_of_cut? hcut
      dsimp only at hsplit
      rw [hsplit] at hlast
      exact getLast?_of_append above hlast hactive.1

/-! ### The end -/

/-- An operation that is attempted has to be there. -/
def InRange (s : Store κ υ) : Event κ υ → Prop
  | .attempt t i => i < (s.registry.get t).size
  | .allocate _ | .settle _ _ _ | .sweep _ | .linkLate _ _ | .resetTally => True

/-- What is meant by a thread that runs `t` coming to its end. -/
structure Ends (d : Drive κ υ) (t : TxnRef) : Prop where
  /-- There is a last round, with nothing left on the stack. -/
  last : ∃ d' ∈ d.rounds, d'.stack.frames = [] ∧ d'.store = d.run
  /-- Then the transaction is decided. -/
  decided : d.run.registry.status t = .committed ∨ d.run.registry.status t = .aborted
  /-- Every round lowers the rank. -/
  rank_lt : ∀ d₁ ∈ d.rounds, ∀ d₂, d₁.advance = some d₂ → Stack.RankLT d₂.rank d₁.rank
  /-- Every round lowers the measure, unless the transaction was over before. -/
  measure_lt : d.store.registry.isActive t → ∀ d₁ ∈ d.rounds, ∀ d₂, d₁.advance = some d₂ →
    MeasureLT d₂.measure d₁.measure
  /-- Every operation that is attempted is there. -/
  inRange : d.store.Along InRange d.history
  /-- Whatever is pushed was not on the stack. -/
  pushed : ∀ d₁ ∈ d.rounds, ∀ d₂ owner resume, d₁.advance = some d₂ →
    d₂.stack = d₁.stack.push owner resume → d₁.stack.position owner = none

/-- In every round only an operation that is there is attempted. -/
theorem inRange_events (d : Drive κ υ) : d.store.Along InRange d.events := by
  rw [events]
  cases d.stack.frames with
  | nil => exact trivial
  | cons f below =>
      dsimp only
      cases hpending : f.pending? d.store.registry with
      | none =>
          dsimp only [Store.finishEvents]
          split
          · exact ⟨trivial, trivial, trivial⟩
          · split
            · exact ⟨trivial, trivial, trivial⟩
            · exact ⟨trivial, trivial⟩
      | some op =>
          refine ⟨Transaction.lt_size_of_op? (Frame.pending?_eq_some_iff.mp hpending).2.2, ?_⟩
          rcases d.store.attempt f.txn f.next op with ⟨s', _ | _ | _ | ⟨owner, resume⟩⟩
          · exact trivial
          · exact trivial
          · exact trivial
          · dsimp only [helpEvents]
            split
            · exact trivial
            · exact ⟨trivial, trivial, trivial⟩

/-- A round that pushes a transaction pushes one that was not on the stack. -/
theorem position_of_pushed {d d' : Drive κ υ} {owner : TxnRef} {resume : Nat}
    (hadvance : d.advance = some d') (hpush : d'.stack = d.stack.push owner resume) :
    d.stack.position owner = none := by
  obtain ⟨f, below, hframes, hround⟩ := round_of_advance hadvance
  have hlength : d'.stack.frames.length = below.length + 2 := by
    rw [hpush, Stack.push, hframes]
    rfl
  cases hround with
  | finished _ => simp at hlength
  | performed _ _ _ => simp at hlength
  | failed _ _ => simp at hlength
  | pushed _ _ habsent =>
      simp only [Stack.push, hframes, Stack.mk.injEq, List.cons.injEq, Frame.mk.injEq] at hpush
      obtain ⟨heq, -⟩ := hpush.1
      have hnone : d.stack.position owner = none ↔ ∀ g ∈ d.stack.frames, g.txn ≠ owner := by
        simp [Stack.position, Stack.fromBottom]
      rw [hnone, hframes, ← heq]
      exact habsent
  | unwound _ _ hcut =>
      obtain ⟨above, hsplit⟩ := Stack.frames_of_cut? hcut
      have hle := congrArg List.length hsplit
      simp only [List.length_cons, List.length_append] at hle hlength
      omega

/-- A thread that sets to work on a single transaction comes to its end. -/
theorem Ends.ofRoot {d : Drive κ υ} {t : TxnRef} (h : d.store.WellFormed)
    (hroot : d.stack = .ofRoot t) : d.Ends t := by
  obtain ⟨s, stack⟩ := d
  dsimp only at h hroot
  subst hroot
  refine ⟨exists_last_round _, ?_, fun _ _ _ => rank_advance_lt,
    fun hactive d₁ hd₁ d₂ hadvance => ?_, ?_, fun _ _ _ _ _ => position_of_pushed⟩
  · obtain ⟨d', hmem, hempty, hstore⟩ := exists_last_round (⟨s, .ofRoot t⟩ : Drive κ υ)
    have hrooted : Rooted t d' :=
      forall_mem_rounds (Rooted.ofRoot s t) (fun _ _ => Rooted.advance) d' hmem
    refine Registry.decided_of_not_active ?_
    rw [← hstore, ← Bool.not_eq_true]
    intro hactive
    have hlast := hrooted hactive
    rw [hempty] at hlast
    cases hlast
  · exact (forall_mem_rounds (Sound.ofRoot h hactive) (fun _ _ => Sound.advance) d₁ hd₁).measure_lt
      hadvance
  · exact along_history (Q := fun _ => True) trivial (fun _ _ _ _ => trivial)
      fun d _ => inRange_events d

end Drive

variable [LinearOrder κ]

/-- **The helping loop ends and decides its transaction.** Whatever was asked of a session before,
every thread that a command sets to work drives one transaction, comes to its end, and leaves the
store as the command does. The measure that its rounds lower is well-founded. -/
theorem HelpingSession.Reachable.loop_ends {s : HelpingSession κ υ} (hs : s.Reachable)
    {c : HelpingSession.Command κ υ} {d : Drive κ υ} (hloop : s.loop? c = some d) :
    WellFounded Drive.MeasureLT ∧
      ∃ t, d.stack = .ofRoot t ∧ d.Ends t ∧ d.run = (s.perform c).1.store := by
  obtain ⟨hwf, t, hroot⟩ := hs.ofRoot_of_loop? hloop
  exact ⟨Drive.wellFounded_measureLT, t, hroot, .ofRoot hwf hroot, (perform_of_loop? hloop).symm⟩

/-- To run the first of two crossing transactions comes to an end after five rounds. In the second
one the other transaction is pushed, which is aborted in the end. -/
theorem HelpingSession.loop_ends_crossing :
    crossing.Reachable ∧ crossing.loop? (.run 0) = some ⟨crossing.store, .ofRoot 0⟩ ∧
      (Drive.after ⟨crossing.store, .ofRoot 0⟩ 2).stack.frames.map Frame.txn = [1, 0] ∧
      (Drive.after ⟨crossing.store, .ofRoot 0⟩ 5).stack.frames = [] ∧
      (crossing.perform (.run 0)).1.store.registry.status 0 = .committed ∧
      (crossing.perform (.run 0)).1.store.registry.status 1 = .aborted ∧
      WellFounded Drive.MeasureLT ∧
      ∃ t, Stack.ofRoot 0 = .ofRoot t ∧ Drive.Ends ⟨crossing.store, .ofRoot 0⟩ t ∧
        Drive.run ⟨crossing.store, .ofRoot 0⟩ = (crossing.perform (.run 0)).1.store := by
  refine ⟨reachable_crossing, rfl, rfl, rfl, ?_, ?_,
    Reachable.loop_ends reachable_crossing (c := .run 0) rfl⟩
  · rw [perform_run_of_after (n := 5) rfl rfl]
    rfl
  · rw [perform_run_of_after (n := 5) rfl rfl]
    rfl

end AtomicSet
