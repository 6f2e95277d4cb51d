import AtomicSet.Proofs.Locking.TwoPhase

/-!
# All or nothing

A transaction that runs in one call on the lock-based engine has three ways to end: it meets a key
that somebody else has locked, one of its operations fails, or it commits. In the first two it may
have taken locks and changed the list by then, and all of that is taken back on the way out. The log
that takes it back never runs into a key that is not as the log expects it, since the keys were
locked all the while.

Nothing is asked of the set but that its list holds a map and that no lock is held in the name of a
call. Both are true of every set that commands lead to.

## Main definitions

* `LockingSet.AllOrNothing` — the three ways in which a transaction of one call can end.

## Main results

* `LockingSession.Reachable.exists_holds` — the list holds a map, whatever commands were performed.
* `LockingSet.allOrNothing` — a transaction of one call runs as a whole or leaves no trace.
-/

namespace AtomicSet

variable {κ υ : Type} [LinearOrder κ]

/-! ### Sets that commands lead to -/

namespace LockingSet

variable {s : LockingSet κ υ} {items : OrderedList κ υ} {m : Contents κ υ}

/-- A list that holds a map does so after an entry of a log is taken back. -/
theorem exists_holds_takeBack (h : items.Holds m) (u : Undo κ υ) :
    ∃ m', (takeBack items u).1.Holds m' := by
  cases u with
  | remove k =>
      cases hk : m k with
      | none => exact ⟨m, by rw [takeBack, h.remove_of_none hk]; exact h⟩
      | some v =>
          obtain ⟨items', hremove, hholds⟩ := h.remove_of_some hk
          exact ⟨_, by rw [takeBack, hremove]; exact hholds⟩
  | reinsert k v =>
      cases hk : m k with
      | some w => exact ⟨m, by rw [takeBack, h.insert_of_some hk]; exact h⟩
      | none =>
          obtain ⟨items', hinsert, hholds⟩ := h.insert_of_none hk v
          exact ⟨_, by rw [takeBack, hinsert]; exact hholds⟩

/-- A rollback leaves a map in the list, also if it does not get to its end. -/
theorem exists_holds_rollback (h : items.Holds m) (undo : List (Undo κ υ)) :
    ∃ m', (rollback items undo).1.Holds m' := by
  induction undo generalizing items m with
  | nil => exact ⟨m, h⟩
  | cons u undo ih =>
      obtain ⟨m', hholds⟩ := exists_holds_takeBack h u
      rw [rollback]
      generalize takeBack items u = taken at hholds
      obtain ⟨items', _ | _⟩ := taken
      · exact ⟨m', hholds⟩
      · exact ih hholds

/-- A list that holds a map does so after an operation, whatever comes of it. -/
theorem exists_holds_apply (h : s.items.Holds m) (undo : List (Undo κ υ)) (i : Nat)
    (op : Operation κ υ) : ∃ m', (s.apply undo i op).1.items.Holds m' := by
  rcases apply_cases h undo i op with ⟨-, happly⟩ | ⟨held, items, log, -, happly, hholds, -, -⟩
  · exact ⟨m, by rw [happly]; exact h⟩
  · exact ⟨m.set op.key held, by rw [happly]; exact hholds⟩

/-- A list that holds a map does so after a call without waiting. -/
theorem exists_holds_tryExecute (h : s.items.Holds m) (hcall : ∀ e ∈ s.locks.held, e.2 ≠ .call)
    (ops : List (Operation κ υ)) : ∃ m', (s.tryExecute ops).1.items.Holds m' := by
  rcases tryExecute_cases h hcall ops with ⟨m', reads, items, -, -, htry, hholds⟩ | ⟨r, htry⟩
  · exact ⟨m', by rw [htry]; exact hholds⟩
  · exact ⟨m, by rw [htry]; exact h⟩

/-- A call changes the list as one without waiting does. -/
theorem items_execute (s : LockingSet κ υ) (ops : List (Operation κ υ)) :
    (s.execute ops).1.items = (s.tryExecute ops).1.items := by
  rw [execute]
  generalize s.tryExecute ops = tried
  obtain ⟨s', (r | fault) | reads⟩ := tried <;> rfl

end LockingSet

namespace LockingSession

variable {s : LockingSession κ υ}

/-- A list that holds a map does so after a transaction of one call. -/
theorem exists_holds_transact {m : Contents κ υ} (h : s.set.items.Holds m)
    (haccountable : s.Accountable) (ops : List (Operation κ υ)) (reply : Outcome υ → Reply κ υ) :
    ∃ m', (s.transact ops reply).1.set.items.Holds m' := by
  rw [fst_transact]
  dsimp only
  rw [LockingSet.items_execute]
  exact LockingSet.exists_holds_tryExecute h haccountable.not_call ops

/-- A list that holds a map does so after any command. -/
theorem exists_holds_perform {m : Contents κ υ} (h : s.set.items.Holds m)
    (haccountable : s.Accountable) (c : Command κ υ) :
    ∃ m', (s.perform c).1.set.items.Holds m' := by
  cases c with
  | execute ops => exact exists_holds_transact h haccountable ops _
  | find k => exact exists_holds_transact h haccountable _ _
  | insert k v => exact exists_holds_transact h haccountable _ _
  | delete k => exact exists_holds_transact h haccountable _ _
  | entries => exact ⟨m, h⟩
  | tally => exact ⟨m, h⟩
  | resetTally => exact ⟨m, h⟩
  | tryExecute ops =>
      rw [fst_tryExecute]
      exact LockingSet.exists_holds_tryExecute h haccountable.not_call ops
  | hold k =>
      refine ⟨m, ?_⟩
      rw [perform]
      cases s.set.locks.acquire k .outsider <;> exact h
  | unhold k => exact ⟨m, h⟩
  | begin name => exact ⟨m, h⟩
  | lock name ops =>
      refine ⟨m, ?_⟩
      rw [perform]
      cases s.log? name <;> exact h
  | apply name i op =>
      rw [perform]
      cases s.log? name with
      | none => exact ⟨m, h⟩
      | some undo => exact LockingSet.exists_holds_apply h undo i op
  | commit name =>
      refine ⟨m, ?_⟩
      rw [perform]
      cases s.log? name <;> exact h
  | abort name =>
      rw [perform]
      cases s.log? name with
      | none => exact ⟨m, h⟩
      | some undo => exact LockingSet.exists_holds_rollback h undo

/-- **The list holds a map**, whatever commands were performed in whatever order. -/
theorem Reachable.exists_holds (h : s.Reachable) : ∃ m, s.set.items.Holds m := by
  induction h with
  | fresh timeout => exact ⟨Contents.empty, OrderedList.Holds.fresh⟩
  | @perform s hs c ih =>
      obtain ⟨m, hm⟩ := ih
      exact exists_holds_perform hm hs.accountable c

end LockingSession

/-! ### Transactions of one call -/

namespace LockingSet

/-- How a transaction of one call ends on a set whose list holds `m`. -/
structure AllOrNothing (s : LockingSet κ υ) (m : Contents κ υ) (ops : List (Operation κ υ)) :
    Prop where
  /-- If somebody else has locked a key, the wait for it runs out, and nothing has changed. -/
  locked : (∃ op ∈ ops, s.locks.holder? op.key ≠ none) →
    s.tryExecute ops = (s, .error (.refusal (.lockTimeout s.timeout)))
  /-- Else, if the operations fail on the map, the transaction is refused for the first one that
  does, and nothing has changed. -/
  fails : (∀ op ∈ ops, s.locks.holder? op.key = none) → ∀ i, m.run ops = .error i →
    s.tryExecute ops = (s, .error (.refusal (.precondition i))) ∧
      ∃ op m₁ reads, ops[i]? = some op ∧ m.run (ops.take i) = .ok (m₁, reads) ∧ m₁.apply op = none
  /-- Else the reads are those of the map, and the list holds the map after them. -/
  succeeds : (∀ op ∈ ops, s.locks.holder? op.key = none) → ∀ m' reads,
    m.run ops = .ok (m', reads) →
      ∃ items, s.tryExecute ops = ({ s with items }, .ok reads) ∧ items.Holds m' ∧
        m'.Lists (s.tryExecute ops).1.entries
  /-- The same keys are locked as before, by the same holders. -/
  locks : (s.tryExecute ops).1.locks = s.locks
  /-- No change fails to be taken back. -/
  no_fault : ∀ f, (s.tryExecute ops).2 ≠ .error (.fault f)

/-- **A transaction of one call runs as a whole or leaves no trace**, whatever the list holds,
whatever keys others have locked and whatever operations it is given. -/
theorem allOrNothing {s : LockingSet κ υ} {m : Contents κ υ} (h : s.items.Holds m)
    (hcall : ∀ e ∈ s.locks.held, e.2 ≠ .call) (ops : List (Operation κ υ)) :
    s.AllOrNothing m ops where
  locked := by
    rintro ⟨op, hop, hlocked⟩
    exact tryExecute_of_locked hcall hop hlocked
  fails hfree i hrun :=
    ⟨tryExecute_of_run_eq_error h hcall hfree hrun, Contents.exists_of_run_eq_error hrun⟩
  succeeds hfree m' reads hrun := by
    obtain ⟨items, htry, hholds⟩ := tryExecute_of_run_eq_ok h hcall hfree hrun
    refine ⟨items, htry, hholds, ?_⟩
    rw [htry]
    exact hholds.lists_entries
  locks := s.locks_tryExecute hcall ops
  no_fault := by
    intro f hfault
    rcases tryExecute_cases h hcall ops with ⟨m', reads, items, -, -, htry, -⟩ | ⟨r, htry⟩
    · rw [htry] at hfault
      cases hfault
    · rw [htry] at hfault
      cases hfault

/-- A set with entries at 1, 2 and 7, the last of which a private transaction has put there and
still has the lock of, and with another lock that the outsider holds. -/
def contended : LockingSet Nat Nat :=
  ((performAll LockingSession.perform {} [.execute [.insert 1 10, .insert 2 20], .begin "a",
    .lock "a" [.insert 7 70], .apply "a" 0 (.insert 7 70), .hold 9]).1).set

/-- What its list holds. -/
def contendedContents : Contents Nat Nat :=
  ((Contents.empty.set 1 (some 10)).set 2 (some 20)).set 7 (some 70)

/-- The last operation fails, after an insertion, a deletion and a replacement. -/
theorem allOrNothing_contended : contended.items.Holds contendedContents ∧
    (∀ e ∈ contended.locks.held, e.2 ≠ .call) ∧
    contended.AllOrNothing contendedContents
      [.insert 3 30, .delete 1, .insert 1 11, .delete 3, .find 3] ∧
    contendedContents.run [.insert 3 30, .delete 1, .insert 1 11, .delete 3, .find 3] = .error 4 ∧
    contended.AllOrNothing contendedContents [.insert 3 30, .find 9] ∧
    (contended.tryExecute [.insert 3 30, .find 9]).2 =
      .error (.refusal (.lockTimeout (.ofMilliseconds 100))) := by
  have hlinks : contended.items.links = [⟨1, 10, false⟩, ⟨2, 20, false⟩, ⟨7, 70, false⟩] := by
    decide
  have hholds : contended.items.Holds contendedContents := by
    refine ⟨by rw [hlinks]; simp [Ascending], by simp [hlinks], fun k v => ?_⟩
    simp only [hlinks, contendedContents, Contents.set, Contents.empty, List.exists_mem_cons_iff,
      List.not_mem_nil, false_and, exists_false, or_false]
    grind
  have hcall : ∀ e ∈ contended.locks.held, e.2 ≠ .call := by decide
  exact ⟨hholds, hcall, allOrNothing hholds hcall _, by rfl, allOrNothing hholds hcall _, by rfl⟩

end LockingSet

end AtomicSet
