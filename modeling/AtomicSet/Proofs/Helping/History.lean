import AtomicSet.Helping.Session

/-!
# Histories of stores

Whatever is asked of a session, its store changes by a sequence of indivisible *events*: a
transaction is registered, an operation is attempted, a transaction is decided, touched nodes are
swept, a node is linked late, the counters are reset. This module reads off the events of every
command, those inside the loop of a thread included, and shows that they are all that happens: to
perform a command is to act out its events (`HelpingSession.actAll_events`).

What holds of a store before and after every single event is therefore what holds at every moment
of every run.

## Main definitions

* `Event`, `Store.act`, `Store.actAll` — what can happen to a store.
* `Store.Behind`, `Store.Admits` — how far a transaction got, and the events that respect it.
* `Store.Along`, `Store.Sometime` — what holds at every event, and what happens at one of them.
* `Drive.rounds`, `Drive.after` — the states of a thread at work, from round to round.
* `Drive.events`, `Drive.history` — the events of a round, and of the whole loop.
* `HelpingSession.loop?`, `HelpingSession.events` — the loop that a command starts, and its events.
* `HelpingSession.Reachable`, `HelpingSession.Run` — what any commands in any order lead to, and all
  that happens on the way.

## Main results

* `Drive.actAll_history` — the loop acts out its history.
* `HelpingSession.actAll_events` — a command acts out its events.
* `Drive.forall_mem_rounds` — what every round preserves holds in every round.
* `Drive.sometime_history` — what happens while a thread is at work happens in one of its rounds.
-/

namespace AtomicSet

/-- What can happen to a store at one moment. -/
inductive Event (κ υ : Type) where
  | allocate (ops : List (Operation κ υ))
  | attempt (txn : TxnRef) (index : Nat)
  | settle (txn : TxnRef) (final : Status) (fake : Bool)
  | sweep (frame : Frame)
  | linkLate (txn : TxnRef) (index : Nat)
  | resetTally
deriving DecidableEq, Repr

namespace Store

/-! ### Operations in order -/

section Behind

variable {κ υ : Type}

section

variable (Did : Store κ υ → TxnRef → Nat → Operation κ υ → Prop)

/-- All operations of `t` before position `i` are done. -/
def Behind (s : Store κ υ) (t : TxnRef) (i : Nat) : Prop :=
  ∀ j < i, ∀ op, (s.registry.get t).op? j = some op → Did s t j op

/-- The events that respect what is done: operations of an active transaction in order, its commit
at their end, and everything else at any time. -/
def Admits (s : Store κ υ) : Event κ υ → Prop
  | .attempt t i | .linkLate t i => s.registry.isActive t → s.Behind Did t i
  | .settle t final _ =>
    final ≠ .active ∧
      (final = .committed → s.registry.isActive t → s.Behind Did t (s.registry.get t).size)
  | .allocate _ | .sweep _ | .resetTally => True

end

namespace Behind

variable {Did : Store κ υ → TxnRef → Nat → Operation κ υ → Prop} {s : Store κ υ} {t : TxnRef}

/-- Before the first operation there is nothing to do. -/
theorem zero (s : Store κ υ) (t : TxnRef) : s.Behind Did t 0 :=
  fun _ hj => absurd hj (Nat.not_lt_zero _)

/-- Who got further has been here. -/
theorem of_le {i j : Nat} (h : s.Behind Did t j) (hij : i ≤ j) : s.Behind Did t i :=
  fun l hl => h l (Nat.lt_of_lt_of_le hl hij)

/-- One more operation that is done. -/
theorem succ {i : Nat} (h : s.Behind Did t i)
    (hi : ∀ op, (s.registry.get t).op? i = some op → Did s t i op) : s.Behind Did t (i + 1) := by
  intro j hj op hop
  rcases Nat.lt_succ_iff_lt_or_eq.mp hj with hlt | rfl
  · exact h j hlt op hop
  · exact hi op hop

end Behind

end Behind

end Store

variable {κ υ : Type} [LT κ] [DecidableLT κ] [DecidableEq κ]

namespace Store

/-- The store after an event. -/
def act (s : Store κ υ) : Event κ υ → Store κ υ
  | .allocate ops => (s.allocate ops).1
  | .attempt t i =>
    match s.attemptStep t i with
    | .ok (s', _) => s'
    | .error _ => s
  | .settle t final fake => s.settle t final fake
  | .sweep f => s.sweep f
  | .linkLate t i =>
    match HelpingSession.linkLate s t i with
    | .ok (s', _) => s'
    | .error _ => s
  | .resetTally => { s with tally := {} }

/-- The store after events in order. -/
def actAll (s : Store κ υ) (es : List (Event κ υ)) : Store κ υ :=
  es.foldl act s

/-- Where nothing happens, the store stays as it is. -/
@[simp] theorem actAll_nil (s : Store κ υ) : s.actAll [] = s := rfl

/-- The events happen one after another. -/
@[simp] theorem actAll_cons (s : Store κ υ) (e : Event κ υ) (es : List (Event κ υ)) :
    s.actAll (e :: es) = (s.act e).actAll es := rfl

/-- The events of the first list happen before those of the second. -/
@[simp] theorem actAll_append (s : Store κ υ) (es es' : List (Event κ υ)) :
    s.actAll (es ++ es') = (s.actAll es).actAll es' :=
  List.foldl_append

/-- The property holds of every event and the store that it finds. -/
def Along (P : Store κ υ → Event κ υ → Prop) (s : Store κ υ) : List (Event κ υ) → Prop
  | [] => True
  | e :: es => P s e ∧ (s.act e).Along P es

/-- What holds along a sequence of events holds along its first part and then along its second. -/
theorem along_append {P : Store κ υ → Event κ υ → Prop} {s : Store κ υ}
    {es es' : List (Event κ υ)} :
    s.Along P (es ++ es') ↔ s.Along P es ∧ (s.actAll es).Along P es' := by
  induction es generalizing s with
  | nil => simp [Along]
  | cons e es ih => simp [Along, ih, and_assoc]

/-- What holds along the events holds at each of them. -/
theorem Along.holds_at {P : Store κ υ → Event κ υ → Prop} {s : Store κ υ}
    {pre post : List (Event κ υ)} {e : Event κ υ} (h : s.Along P (pre ++ e :: post)) :
    P (s.actAll pre) e :=
  (along_append.mp h).2.1

/-! ### What happens at some event -/

/-- At one of the events, `P` holds of the event and the store that it finds. -/
def Sometime (P : Store κ υ → Event κ υ → Prop) (s : Store κ υ) (es : List (Event κ υ)) : Prop :=
  ∃ pre e post, es = pre ++ e :: post ∧ P (s.actAll pre) e

section Sometime

variable {P : Store κ υ → Event κ υ → Prop} {s : Store κ υ}

/-- Nothing happens where there is no event. -/
@[simp] theorem not_sometime_nil : ¬s.Sometime P [] := by
  rintro ⟨pre, e, post, heq, -⟩
  simp at heq

/-- What happens in a sequence of events happens in its first or in its second part. -/
theorem sometime_append {es es' : List (Event κ υ)} :
    s.Sometime P (es ++ es') ↔ s.Sometime P es ∨ (s.actAll es).Sometime P es' := by
  constructor
  · rintro ⟨pre, e, post, heq, he⟩
    rcases List.append_eq_append_iff.mp heq with ⟨mid, rfl, rfl⟩ | ⟨mid, rfl, hpost⟩
    · rw [actAll_append] at he
      exact Or.inr ⟨mid, e, post, rfl, he⟩
    · cases mid with
      | nil => exact Or.inr ⟨[], e, post, hpost.symm, by simpa using he⟩
      | cons e' mid =>
          obtain ⟨rfl, rfl⟩ := List.cons.inj hpost
          exact Or.inl ⟨pre, e, mid, rfl, he⟩
  · rintro (⟨pre, e, post, rfl, he⟩ | ⟨pre, e, post, rfl, he⟩)
    · exact ⟨pre, e, post ++ es', by simp, he⟩
    · exact ⟨es ++ pre, e, post, by simp, by rwa [actAll_append]⟩

/-- What happens happens at the first event or later. -/
@[simp] theorem sometime_cons {e : Event κ υ} {es : List (Event κ υ)} :
    s.Sometime P (e :: es) ↔ P s e ∨ (s.act e).Sometime P es := by
  constructor
  · rintro ⟨_ | ⟨e', pre⟩, e'', post, heq, he⟩
    · obtain ⟨rfl, rfl⟩ := List.cons.inj heq
      exact Or.inl he
    · obtain ⟨rfl, rfl⟩ := List.cons.inj heq
      exact Or.inr ⟨pre, e'', post, rfl, he⟩
  · rintro (he | ⟨pre, e', post, rfl, he⟩)
    · exact ⟨[], e, es, rfl, he⟩
    · exact ⟨e :: pre, e', post, rfl, he⟩

/-- One more event. -/
theorem sometime_concat {es : List (Event κ υ)} {e : Event κ υ} :
    s.Sometime P (es ++ [e]) ↔ s.Sometime P es ∨ P (s.actAll es) e := by
  rw [sometime_append, sometime_cons]
  exact or_congr_right (or_iff_left not_sometime_nil)

end Sometime

/-! ### Ending a frame -/

/-- What finishing a frame does. -/
def finishEvents (s : Store κ υ) (f : Frame) : List (Event κ υ) :=
  if f.failed then [.settle f.txn .aborted false, .sweep f]
  else if (s.registry.get f.txn).size ≤ f.next then [.settle f.txn .committed false, .sweep f]
  else [.sweep f]

/-- Finishing a frame acts out its events. -/
theorem actAll_finishEvents (s : Store κ υ) (f : Frame) :
    s.actAll (s.finishEvents f) = s.finish f := by
  rw [finishEvents, finish]
  split
  · rfl
  · split <;> rfl

/-- What giving a frame up does. -/
def giveUpEvents (f : Frame) : List (Event κ υ) :=
  [.settle f.txn .aborted true, .sweep f]

/-- Giving a victim up acts out its events. -/
theorem actAll_giveUpEvents (s : Store κ υ) (f : Frame) :
    s.actAll (giveUpEvents f) = s.giveUp f := rfl

end Store

namespace Drive

/-! ### The events of a round -/

/-- What happens when `owner` has to be driven first: something only if that closes a cycle. -/
def helpEvents (d : Drive κ υ) (owner : TxnRef) : List (Event κ υ) :=
  match d.stack.cut? (fun t => (d.store.registry.get t).id) owner with
  | none => []
  | some (victim, _) => Store.giveUpEvents victim

/-- What happens in a round that performs an operation of the top frame. -/
def performEvents (s : Store κ υ) (f : Frame) (below : List Frame) (op : Operation κ υ) :
    List (Event κ υ) :=
  .attempt f.txn f.next ::
    match s.attempt f.txn f.next op with
    | (s', .blocked owner _) => helpEvents ⟨s', ⟨f :: below⟩⟩ owner
    | (_, .applied _) | (_, .repeated _) | (_, .refused) => []

/-- What happens in a round. -/
def events (d : Drive κ υ) : List (Event κ υ) :=
  match d.stack.frames with
  | [] => []
  | f :: below =>
    match f.pending? d.store.registry with
    | none => d.store.finishEvents f
    | some op => performEvents d.store f below op

omit [LT κ] [DecidableLT κ] [DecidableEq κ] in
/-- There is a step wherever there is an operation. -/
theorem stepAt_of_op? {txn : Transaction κ υ} {i : Nat} {op : Operation κ υ}
    (h : txn.op? i = some op) : ∃ step, txn.stepAt i = .ok step ∧ step.op = op := by
  obtain ⟨step, hstep, hop⟩ := Option.map_eq_some_iff.mp h
  exact ⟨step, by rw [Transaction.stepAt, hstep], hop⟩

omit [LT κ] [DecidableLT κ] [DecidableEq κ] in
/-- The operation of a step is the one at its position. -/
theorem op?_of_stepAt {txn : Transaction κ υ} {i : Nat} {step : Step κ υ}
    (h : txn.stepAt i = .ok step) : txn.op? i = some step.op := by
  rw [Transaction.stepAt] at h
  cases hget : txn.steps[i]? with
  | none => simp [hget] at h
  | some step' =>
      simp only [hget, Except.ok.injEq] at h
      rw [Transaction.op?, hget, h]
      rfl

/-- The event of an attempt is the attempt at the operation of that position. -/
theorem act_attempt {s : Store κ υ} {t : TxnRef} {i : Nat} {op : Operation κ υ}
    (h : (s.registry.get t).op? i = some op) : s.act (.attempt t i) = (s.attempt t i op).1 := by
  obtain ⟨step, hstep, rfl⟩ := stepAt_of_op? h
  simp only [Store.act, Store.attemptStep, hstep]

/-- An attempt at an operation that is not there is nothing. -/
theorem act_attempt_of_none {s : Store κ υ} {t : TxnRef} {i : Nat}
    (h : (s.registry.get t).op? i = none) : s.act (.attempt t i) = s := by
  have hstep : (s.registry.get t).steps[i]? = none := by simpa [Transaction.op?] using h
  simp only [Store.act, Store.attemptStep, Transaction.stepAt, hstep]

/-- The attempt that a frame asks for, as an event. -/
theorem actAll_attempt {s s' : Store κ υ} {f : Frame} {op : Operation κ υ} {progress : Progress}
    (hpending : f.pending? s.registry = some op)
    (hattempt : s.attempt f.txn f.next op = (s', progress)) :
    s.actAll [.attempt f.txn f.next] = s' := by
  rw [Store.actAll_cons, act_attempt (Frame.pending?_eq_some_iff.mp hpending).2.2, hattempt]
  rfl

/-- An attempt writes to the slots of transactions only, whatever its ending. -/
theorem slotsOnly_of_attempt {s s' : Store κ υ} {t : TxnRef} {i : Nat} {op : Operation κ υ}
    {progress : Progress} (hattempt : s.attempt t i op = (s', progress)) :
    Registry.SlotsOnly s.registry s'.registry := by
  have hslots := s.slotsOnly_attempt t i op
  rwa [hattempt] at hslots

/-- Helping acts out its events. -/
theorem actAll_helpEvents (d : Drive κ υ) (owner : TxnRef) (resume : Nat) :
    d.store.actAll (d.helpEvents owner) = (d.help owner resume).store := by
  rw [helpEvents, help]
  cases d.stack.cut? (fun t => (d.store.registry.get t).id) owner with
  | none => rfl
  | some cut => rfl

/-- Performing an operation acts out its events. -/
theorem actAll_performEvents {s : Store κ υ} {f : Frame} {op : Operation κ υ}
    (h : (s.registry.get f.txn).op? f.next = some op) (below : List Frame) :
    s.actAll (performEvents s f below op) = (perform s f below op).store := by
  rw [performEvents, perform]
  rw [Store.actAll_cons, act_attempt h]
  rcases s.attempt f.txn f.next op with ⟨s', _ | _ | _ | ⟨owner, resume⟩⟩
  · rfl
  · rfl
  · rfl
  · exact actAll_helpEvents (⟨s', ⟨f :: below⟩⟩ : Drive κ υ) owner resume

/-- A round acts out its events. -/
theorem actAll_events {d d' : Drive κ υ} (h : d.advance = some d') :
    d.store.actAll d.events = d'.store := by
  rw [advance] at h
  rw [events]
  cases hframes : d.stack.frames with
  | nil => simp [hframes] at h
  | cons f below =>
      rw [hframes] at h
      cases hpending : f.pending? d.store.registry with
      | none =>
          simp only [hpending, Option.some.injEq] at h ⊢
          subst h
          exact d.store.actAll_finishEvents f
      | some op =>
          simp only [hpending, Option.some.injEq] at h ⊢
          subst h
          exact actAll_performEvents (Frame.pending?_eq_some_iff.mp hpending).2.2 below

/-! ### All rounds -/

/-- The states of a thread at work, from round to round, until its stack is empty. -/
def rounds (d : Drive κ υ) : List (Drive κ υ) :=
  match _ : d.advance with
  | none => [d]
  | some d' => d :: d'.rounds
termination_by d.rank
decreasing_by exact rank_advance_lt (by assumption)

/-- All that happens while a thread is at work. -/
def history (d : Drive κ υ) : List (Event κ υ) :=
  d.rounds.flatMap events

/-- A thread that is done has only the round that it is in. -/
theorem rounds_of_none {d : Drive κ υ} (h : d.advance = none) : d.rounds = [d] := by
  rw [rounds]
  split <;> simp_all

/-- The rounds after a round are those of the thread that it leaves. -/
theorem rounds_of_some {d d' : Drive κ υ} (h : d.advance = some d') :
    d.rounds = d :: d'.rounds := by
  rw [rounds]
  split <;> simp_all

/-- A thread that is done leaves the store as it is. -/
theorem run_of_none {d : Drive κ υ} (h : d.advance = none) : d.run = d.store := by
  rw [run]
  split <;> simp_all

/-- A round does not change what the loop comes to. -/
theorem run_of_some {d d' : Drive κ υ} (h : d.advance = some d') : d.run = d'.run := by
  rw [run]
  split <;> simp_all

/-- The loop ends exactly if the stack is empty. -/
theorem advance_eq_none_iff {d : Drive κ υ} : d.advance = none ↔ d.stack.frames = [] := by
  rw [advance]
  cases d.stack.frames with
  | nil => simp
  | cons f below => cases hpending : f.pending? d.store.registry <;> simp [hpending]

/-- If nothing is left to perform for the only frame, the loop finishes it. -/
theorem advance_of_finished {s : Store κ υ} {f : Frame} (hdone : f.pending? s.registry = none) :
    advance ⟨s, ⟨[f]⟩⟩ = some ⟨s.finish f, ⟨[]⟩⟩ := by
  simp only [advance, hdone]

/-- With nothing left to perform for the only frame, two rounds are left. -/
theorem rounds_of_finished {s : Store κ υ} {f : Frame} (hdone : f.pending? s.registry = none) :
    rounds ⟨s, ⟨[f]⟩⟩ = [⟨s, ⟨[f]⟩⟩, ⟨s.finish f, ⟨[]⟩⟩] := by
  rw [rounds_of_some (advance_of_finished hdone), rounds_of_none rfl]

/-- With nothing left to perform for the only frame, the loop only finishes it. -/
theorem run_of_finished {s : Store κ υ} {f : Frame} (hdone : f.pending? s.registry = none) :
    run ⟨s, ⟨[f]⟩⟩ = s.finish f := by
  rw [run_of_some (advance_of_finished hdone), run_of_none rfl]

/-- The thread after `n` rounds, or as it is in the end if there are fewer. -/
def after (d : Drive κ υ) : Nat → Drive κ υ
  | 0 => d
  | n + 1 =>
    match d.advance with
    | none => d
    | some d' => d'.after n

/-- A loop whose stack is empty after `n` rounds leaves the store that it has then. -/
theorem run_eq_of_after {d : Drive κ υ} {n : Nat} (h : (d.after n).stack.frames = []) :
    d.run = (d.after n).store := by
  induction n generalizing d with
  | zero => exact run_of_none (advance_eq_none_iff.mpr h)
  | succ n ih =>
      rw [after] at h ⊢
      cases hadvance : d.advance with
      | none => exact run_of_none hadvance
      | some d' =>
          rw [hadvance] at h
          rw [run_of_some hadvance]
          exact ih h

/-- Induction over the rounds of a thread. -/
theorem rounds_induction {P : Drive κ υ → Prop} (last : ∀ d, d.advance = none → P d)
    (round : ∀ d d', d.advance = some d' → P d' → P d) (d : Drive κ υ) : P d := by
  induction d using rounds.induct with
  | case1 d h => exact last d h
  | case2 d d' h ih => exact round d d' h ih

/-- **The loop acts out its history.** -/
theorem actAll_history (d : Drive κ υ) : d.store.actAll d.history = d.run := by
  induction d using rounds_induction with
  | last d h =>
      have hevents : d.events = [] := by rw [events, advance_eq_none_iff.mp h]
      simp [history, rounds_of_none h, hevents, run_of_none h]
  | round d d' h ih =>
      rw [history, rounds_of_some h, List.flatMap_cons, Store.actAll_append, actAll_events h,
        run_of_some h]
      exact ih

/-- What happens sometime while a thread is at work happens in one of its rounds. -/
theorem sometime_history {P : Store κ υ → Event κ υ → Prop} (d : Drive κ υ) :
    d.store.Sometime P d.history ↔ ∃ d' ∈ d.rounds, d'.store.Sometime P d'.events := by
  induction d using rounds_induction with
  | last d h => simp [history, rounds_of_none h]
  | round d d' h ih =>
      rw [history, rounds_of_some h, List.flatMap_cons, Store.sometime_append, actAll_events h]
      simp only [List.mem_cons, exists_eq_or_imp]
      exact or_congr_right ih

/-- What the thread is at first it is in the first round. -/
theorem self_mem_rounds (d : Drive κ υ) : d ∈ d.rounds := by
  cases hadvance : d.advance with
  | none => simp [rounds_of_none hadvance]
  | some d' => simp [rounds_of_some hadvance]

/-- The rounds from the next one on are among the rounds. -/
theorem mem_rounds_of_advance {d d' d₁ : Drive κ υ} (hadvance : d.advance = some d')
    (hmem : d₁ ∈ d'.rounds) : d₁ ∈ d.rounds := by
  rw [rounds_of_some hadvance]
  exact List.mem_cons_of_mem d hmem

/-- What the thread is after some rounds it is in one of them. -/
theorem after_mem_rounds (d : Drive κ υ) (n : Nat) : d.after n ∈ d.rounds := by
  induction n generalizing d with
  | zero => exact d.self_mem_rounds
  | succ n ih =>
      rw [after]
      cases hadvance : d.advance with
      | none => exact d.self_mem_rounds
      | some d' => exact mem_rounds_of_advance hadvance (ih d')

/-- What every round preserves holds in every round. -/
theorem forall_mem_rounds {P : Drive κ υ → Prop} {d : Drive κ υ} (hd : P d)
    (hstep : ∀ d d', P d → d.advance = some d' → P d') : ∀ d' ∈ d.rounds, P d' := by
  induction d using rounds_induction with
  | last d h =>
      rw [rounds_of_none h]
      intro d' hmem
      rwa [List.mem_singleton.mp hmem]
  | round d d₁ h ih =>
      rw [rounds_of_some h]
      intro d' hmem
      rcases List.mem_cons.mp hmem with rfl | hmem
      · exact hd
      · exact ih (hstep d d₁ hd h) d' hmem

/-- The last round leaves the store that the loop answers, and nothing on the stack. -/
theorem exists_last_round (d : Drive κ υ) :
    ∃ d' ∈ d.rounds, d'.stack.frames = [] ∧ d'.store = d.run := by
  induction d using rounds_induction with
  | last d h =>
      exact ⟨d, d.self_mem_rounds, advance_eq_none_iff.mp h, (run_of_none h).symm⟩
  | round d d₁ h ih =>
      obtain ⟨d', hmem, hframes, hstore⟩ := ih
      exact ⟨d', mem_rounds_of_advance h hmem, hframes, hstore.trans (run_of_some h).symm⟩

/-- A property of events that every round establishes holds along the whole history. -/
theorem along_history {P : Store κ υ → Event κ υ → Prop} {Q : Drive κ υ → Prop} {d : Drive κ υ}
    (hd : Q d) (hstep : ∀ d d', Q d → d.advance = some d' → Q d')
    (hevents : ∀ d, Q d → d.store.Along P d.events) : d.store.Along P d.history := by
  induction d using rounds_induction with
  | last d h =>
      simpa [history, rounds_of_none h] using hevents d hd
  | round d d' h ih =>
      rw [history, rounds_of_some h, List.flatMap_cons, Store.along_append, actAll_events h]
      exact ⟨hevents d hd, ih (hstep d d' hd h)⟩

end Drive

/-- The thread that registers the operations as a transaction and drives it. -/
def Store.driver (s : Store κ υ) (ops : List (Operation κ υ)) : Drive κ υ :=
  ⟨(s.allocate ops).1, .ofRoot (s.allocate ops).2⟩

/-- What happens when the operations are run as one transaction. -/
def Store.executeEvents (s : Store κ υ) (ops : List (Operation κ υ)) : List (Event κ υ) :=
  .allocate ops :: (s.driver ops).history

/-- Running a list of operations acts out its events. -/
theorem Store.actAll_executeEvents (s : Store κ υ) (ops : List (Operation κ υ)) :
    s.actAll (s.executeEvents ops) = (s.execute ops).1 :=
  (s.driver ops).actAll_history

namespace HelpingSession

/-- The thread that a command sets to work, if it does. -/
def loop? (s : HelpingSession κ υ) : Command κ υ → Option (Drive κ υ)
  | .execute ops => some (s.store.driver ops)
  | .find k => some (s.store.driver [.find k])
  | .insert k v => some (s.store.driver [.insert k v])
  | .delete k => some (s.store.driver [.delete k])
  | .run t => some ⟨s.store, .ofRoot t⟩
  | .entries | .survey | .tally | .resetTally | .allocate _ | .step _ _ | .finish _ _ _ | .late _ _
  | .inspect _ => none

/-- What happens to the store when a command is performed. -/
def events (s : HelpingSession κ υ) : Command κ υ → List (Event κ υ)
  | .execute ops => s.store.executeEvents ops
  | .find k => s.store.executeEvents [.find k]
  | .insert k v => s.store.executeEvents [.insert k v]
  | .delete k => s.store.executeEvents [.delete k]
  | .run t => Drive.history ⟨s.store, .ofRoot t⟩
  | .allocate ops => [.allocate ops]
  | .step t i => [.attempt t i]
  | .finish t next failed =>
    s.store.finishEvents { txn := t, next, failed, touched := s.touched t }
  | .late t i => [.linkLate t i]
  | .resetTally => [.resetTally]
  | .entries | .survey | .tally | .inspect _ => []

/-- **A command acts out its events.** -/
theorem actAll_events (s : HelpingSession κ υ) (c : Command κ υ) :
    s.store.actAll (s.events c) = (s.perform c).1.store := by
  cases c with
  | execute ops => exact s.store.actAll_executeEvents ops
  | find k => exact s.store.actAll_executeEvents [.find k]
  | insert k v => exact s.store.actAll_executeEvents [.insert k v]
  | delete k => exact s.store.actAll_executeEvents [.delete k]
  | run t => exact (⟨s.store, .ofRoot t⟩ : Drive κ υ).actAll_history
  | finish t next failed =>
      exact s.store.actAll_finishEvents { txn := t, next, failed, touched := s.touched t }
  | step t i =>
      simp only [events, Store.actAll_cons, Store.actAll_nil, Store.act, perform]
      cases s.store.attemptStep t i <;> rfl
  | late t i =>
      simp only [events, Store.actAll_cons, Store.actAll_nil, Store.act, perform]
      cases linkLate s.store t i <;> rfl
  | allocate ops => rfl
  | resetTally => rfl
  | entries => rfl
  | survey => rfl
  | tally => rfl
  | inspect t => rfl

/-- A command that sets a thread to work leaves the store as that thread does. -/
theorem perform_of_loop? {s : HelpingSession κ υ} {c : Command κ υ} {d : Drive κ υ}
    (h : s.loop? c = some d) : (s.perform c).1.store = d.run := by
  cases c <;> simp only [loop?, Option.some.injEq, reduceCtorEq] at h <;> subst h <;> rfl

/-- To run a transaction, if the stack of the thread is empty after `n` rounds. -/
theorem perform_run_of_after {s : HelpingSession κ υ} {t : TxnRef} {n : Nat} {d : Drive κ υ}
    (hd : Drive.after ⟨s.store, .ofRoot t⟩ n = d) (hdone : d.stack.frames = []) :
    s.perform (.run t) =
      ({ s with store := d.store }, .flag (d.store.registry.status t = .committed)) := by
  have hrun : s.store.drive t = d.store := by
    rw [Store.drive, Drive.run_eq_of_after (by rwa [hd]), hd]
  simp only [perform, hrun]

/-- The thread that a command sets to work drives a single transaction, which the command may have
registered just before. -/
theorem start_of_loop? {s : HelpingSession κ υ} {c : Command κ υ} {d : Drive κ υ}
    (h : s.loop? c = some d) :
    (∃ t, d.stack = .ofRoot t) ∧
      (d.store = s.store ∨ ∃ ops, d.store = s.store.act (.allocate ops)) := by
  have hdriver : ∀ ops, (∃ t, (s.store.driver ops).stack = .ofRoot t) ∧
      ((s.store.driver ops).store = s.store ∨
        ∃ ops', (s.store.driver ops).store = s.store.act (.allocate ops')) :=
    fun ops => ⟨⟨_, rfl⟩, Or.inr ⟨ops, rfl⟩⟩
  cases c <;> simp only [loop?, Option.some.injEq, reduceCtorEq] at h <;> subst h
  · exact hdriver _
  · exact hdriver _
  · exact hdriver _
  · exact hdriver _
  · exact ⟨⟨_, rfl⟩, Or.inl rfl⟩

/-- A step at an operation that is there is an attempt at it. -/
theorem perform_step_of_op? {s : HelpingSession κ υ} {t : TxnRef} {i : Nat} {op : Operation κ υ}
    (hop : (s.store.registry.get t).op? i = some op) :
    s.perform (.step t i) =
      ({ store := (s.store.attempt t i op).1, touches := s.touch t (s.store.attempt t i op).2 },
        .ofProgress (s.store.attempt t i op).2) := by
  obtain ⟨step, hstep, rfl⟩ := Drive.stepAt_of_op? hop
  simp only [perform, Store.attemptStep, hstep]

/-- A step past the end is a fault. -/
theorem perform_step_of_none {s : HelpingSession κ υ} {t : TxnRef} {i : Nat}
    (hop : (s.store.registry.get t).op? i = none) :
    s.perform (.step t i) =
      (s, .fault (.indexOutOfBounds (s.store.registry.get t).size i)) := by
  have hstep : (s.store.registry.get t).steps[i]? = none := by simpa [Transaction.op?] using hop
  simp only [perform, Store.attemptStep, Transaction.stepAt, hstep]

/-- A single attempt is answered by its progress. -/
theorem attempt_of_step {s : HelpingSession κ υ} {t : TxnRef} {i : Nat} {code : Code} {node : Bool}
    (hreply : (s.perform (.step t i)).2 = .attempted code node) :
    ∃ op s' progress, (s.store.registry.get t).op? i = some op ∧
      s.store.attempt t i op = (s', progress) ∧ (s.perform (.step t i)).1.store = s' ∧
      Reply.ofProgress (κ := κ) (υ := υ) progress = .attempted code node := by
  cases hop : (s.store.registry.get t).op? i with
  | none =>
      rw [perform_step_of_none hop] at hreply
      cases hreply
  | some op =>
      rw [perform_step_of_op? hop] at hreply ⊢
      exact ⟨op, _, _, rfl, rfl, rfl, hreply⟩

/-- What any commands, in any order, lead to. -/
inductive Reachable : HelpingSession κ υ → Prop where
  | fresh : Reachable {}
  | perform {s : HelpingSession κ υ} (h : Reachable s) (c : Command κ υ) :
      Reachable (s.perform c).1

/-- More commands lead from a reachable session to a reachable one. -/
theorem Reachable.performAll {s : HelpingSession κ υ} (h : s.Reachable)
    (cs : List (Command κ υ)) : (performAll HelpingSession.perform s cs).1.Reachable := by
  induction cs generalizing s with
  | nil => exact h
  | cons c cs ih => exact ih (h.perform c)

/-- The runs of any commands, in any order: where they lead, and all that happened. -/
inductive Run : HelpingSession κ υ → List (Event κ υ) → Prop where
  | fresh : Run {} []
  | perform {s : HelpingSession κ υ} {es : List (Event κ υ)} (h : Run s es) (c : Command κ υ) :
      Run (s.perform c).1 (es ++ s.events c)

/-- A run leads to a reachable session. -/
theorem Run.reachable {s : HelpingSession κ υ} {es : List (Event κ υ)} (h : Run s es) :
    s.Reachable := by
  induction h with
  | fresh => exact .fresh
  | perform _ c ih => exact ih.perform c

/-- A run acts out what happened. -/
theorem Run.store_eq {s : HelpingSession κ υ} {es : List (Event κ υ)} (h : Run s es) :
    Store.actAll {} es = s.store := by
  induction h with
  | fresh => rfl
  | @perform s es h c ih => rw [Store.actAll_append, ih, s.actAll_events]

/-- Two transactions, each stalled with a node that the other one needs next. -/
def crossing : HelpingSession Nat Nat :=
  let s₁ : HelpingSession Nat Nat := (perform {} (.allocate [.insert 1 10, .insert 2 20])).1
  let s₂ := (s₁.perform (.allocate [.insert 2 21, .insert 1 11])).1
  let s₃ := (s₂.perform (.step 0 0)).1
  (s₃.perform (.step 1 0)).1

/-- The two crossing transactions are stalled by ordinary commands. -/
theorem reachable_crossing : crossing.Reachable :=
  (((Reachable.fresh.perform _).perform _).perform _).perform _

end HelpingSession

end AtomicSet
