import AtomicSet.Helping.Attempt
import AtomicSet.Helping.Rank

/-!
# Driving a transaction to its end

The loop of a thread that runs a transaction. It always works on the top frame of its stack. If
nothing is left to perform there, it decides the transaction and pops the frame. Otherwise it
attempts the next operation. An attempt that another transaction blocks pushes that transaction; if
that one is on the stack already, the cycle is broken by giving up its youngest member. The loop
ends from every state, for every round lowers the rank.

## Main definitions

* `Drive` — a store and a stack.
* `Drive.advance` — one round; `none` once the stack is empty.
* `Drive.run` — all rounds.
* `Store.drive` — runs one transaction from its first operation on.

## Main statements

* `Drive.rank_advance_lt` — every round lowers the rank.
-/

namespace AtomicSet

/-- A thread at work: the store and the transactions it drives. -/
structure Drive (κ υ : Type) where
  store : Store κ υ
  stack : Stack
deriving DecidableEq, Repr

namespace Drive

variable {κ υ : Type} [LT κ] [DecidableLT κ]

/-- What follows when the transaction `owner` has to be driven first: it is pushed, or, if it is on
the stack already, the youngest transaction of the cycle is given up. -/
def help (d : Drive κ υ) (owner : TxnRef) (resume : Nat) : Drive κ υ :=
  match d.stack.cut? (fun t => (d.store.registry.get t).id) owner with
  | none => ⟨d.store, d.stack.push owner resume⟩
  | some (victim, below) => ⟨d.store.giveUp victim, below⟩

variable [DecidableEq κ]

/-- One round on the frame `f` above the frames `below`, with `op` as its next operation. -/
def perform (s : Store κ υ) (f : Frame) (below : List Frame) (op : Operation κ υ) : Drive κ υ :=
  match s.attempt f.txn f.next op with
  | (s', .applied n) | (s', .repeated n) =>
    ⟨s', ⟨{ f with next := f.next + 1, touched := f.touched ++ [n] } :: below⟩⟩
  | (s', .refused) => ⟨s', ⟨{ f with failed := true } :: below⟩⟩
  | (s', .blocked owner resume) => help ⟨s', ⟨f :: below⟩⟩ owner resume

/-- One round of the loop, or `none` if there is nothing to drive any more. -/
def advance (d : Drive κ υ) : Option (Drive κ υ) :=
  match d.stack.frames with
  | [] => none
  | f :: below =>
    match f.pending? d.store.registry with
    | none => some ⟨d.store.finish f, ⟨below⟩⟩
    | some op => some (perform d.store f below op)

/-! ### Every round lowers the rank -/

/-- The rank of a thread at work. -/
def rank (d : Drive κ υ) : Nat × Nat × Nat × Nat :=
  Stack.rank d.store.registry d.stack.frames

omit [DecidableEq κ] in
/-- Helping an active transaction lowers the rank. -/
theorem rank_help_lt {r : Registry κ υ} {d : Drive κ υ} (h : r.SlotsOnly d.store.registry)
    {owner : TxnRef} (active : r.isActive owner) (resume : Nat) :
    Stack.RankLT (d.help owner resume).rank (Stack.rank r d.stack.frames) := by
  have same : Stack.rank d.store.registry d.stack.frames = Stack.rank r d.stack.frames := by
    simp only [Stack.rank, Stack.countDecided, Registry.countActive_congr h, h.isActive_eq,
      Frame.remaining, h.txn_size_eq]
  rw [help]
  rcases cut : d.stack.cut? (fun t => (d.store.registry.get t).id) owner with _ | ⟨victim, below⟩
  · refine Stack.rank_push_lt h active ?_
    simpa [Stack.lacks] using Stack.cut?_eq_none_iff.mp cut
  · rw [← same]
    obtain ⟨start, _, unwind⟩ := Option.bind_eq_some_iff.mp cut
    rcases d.store.registry_giveUp victim with fewer | ⟨decided, eq⟩
    · exact Stack.rank_lt_of_countActive fewer
    · rw [rank, eq]
      exact Stack.rank_cut_lt unwind decided

/-- To perform an operation lowers the rank, whatever the attempt at it comes to. -/
theorem rank_perform_lt (s : Store κ υ) (f : Frame) (below : List Frame) (op : Operation κ υ)
    (pending : f.pending? s.registry = some op) :
    Stack.RankLT (perform s f below op).rank (Stack.rank s.registry (f :: below)) := by
  obtain ⟨going, _, there⟩ := Frame.pending?_eq_some_iff.mp pending
  have left : f.next < (s.registry.get f.txn).size := by
    rw [← Nat.not_le, ← Transaction.op?_eq_none_iff, there]
    nofun
  -- A success moves the top frame on to its next operation.
  have moved (s' : Store κ υ) (n : NodeId) (h : s.registry.SlotsOnly s'.registry) :
      Stack.RankLT
        (rank ⟨s', ⟨{ f with next := f.next + 1, touched := f.touched ++ [n] } :: below⟩⟩)
        (Stack.rank s.registry (f :: below)) := by
    refine Stack.rank_top_lt h rfl ?_
    simp only [Frame.remaining, going, h.txn_size_eq f.txn, Bool.false_eq_true, if_false]
    omega
  have h := s.slotsOnly_attempt f.txn f.next op
  rw [perform]
  rcases result : s.attempt f.txn f.next op with ⟨s', n | n | _ | ⟨owner, resume⟩⟩
  · rw [result] at h
    exact moved s' n h
  · rw [result] at h
    exact moved s' n h
  · rw [result] at h
    refine Stack.rank_top_lt h rfl ?_
    simp only [Frame.remaining, going, Bool.false_eq_true, if_false, if_true]
    omega
  · rw [result] at h
    exact rank_help_lt h (Store.isActive_of_attempt_blocked (by rw [result])) resume

/-- Every round lowers the rank. -/
theorem rank_advance_lt {d d' : Drive κ υ} (h : d.advance = some d') :
    Stack.RankLT d'.rank d.rank := by
  rw [advance] at h
  rw [rank.eq_def d]
  cases frames : d.stack.frames with
  | nil => simp [frames] at h
  | cons f below =>
    cases pending : f.pending? d.store.registry with
    | none =>
      simp only [frames, pending, Option.some.injEq] at h
      subst h
      rcases d.store.registry_finish f pending with fewer | ⟨decided, eq⟩
      · exact Stack.rank_lt_of_countActive fewer
      · rw [rank, eq]
        exact Stack.rank_pop_lt decided
    | some op =>
      simp only [frames, pending, Option.some.injEq] at h
      subst h
      exact rank_perform_lt d.store f below op pending

/-- Runs the loop to its end. -/
def run (d : Drive κ υ) : Store κ υ :=
  match _ : d.advance with
  | none => d.store
  | some d' => d'.run
termination_by d.rank
decreasing_by exact rank_advance_lt (by assumption)

end Drive

/-- Runs the transaction `t` from its first operation on, until it is decided. -/
def Store.drive {κ υ : Type} [LT κ] [DecidableLT κ] [DecidableEq κ] (s : Store κ υ) (t : TxnRef) :
    Store κ υ :=
  Drive.run ⟨s, .ofRoot t⟩

end AtomicSet
