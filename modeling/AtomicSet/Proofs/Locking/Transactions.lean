import AtomicSet.Locking.LockingSet
import AtomicSet.Proofs.OrderedList

/-!
# Transactions on the lock-based engine

While nobody else holds a lock, a transaction gets the locks of all its keys, whatever keys it
names, however often. Its operations then change the list as they change the map, one by one, and
the log always leads back to the list of before. So a transaction either runs on the map as a whole
or leaves no trace but in the counters.

## Main definitions

* `Undo.operation` — the operation that takes a change back.
* `LockingSet.Rests` — the list holds a map, and nobody holds a lock.

## Main results

* `LockTable.acquireAll_of_free` — distinct free keys are all locked.
* `LockingSet.rollback_of_run` — to take changes back is to run the operations that undo them.
* `LockingSet.applyAll_of_run_eq_ok`, `LockingSet.applyAll_of_run_eq_error` — the operations in
  order, with a log that leads back.
* `LockingSet.tryExecute_of_run_eq_ok`, `LockingSet.tryExecute_of_run_eq_error` — whole transactions
  on free keys.
* `LockingSet.Rests.execute_of_run_eq_ok`, `LockingSet.Rests.execute_of_run_eq_error` — the same
  while nobody holds a lock, with the counters.
-/

namespace AtomicSet

variable {κ υ : Type} [LinearOrder κ]

/-! ### Locks -/

/-- Insertion adds the key and loses none. -/
theorem mem_insertKey {k x : κ} {keys : List κ} :
    x ∈ insertKey k keys ↔ x = k ∨ x ∈ keys := by
  induction keys with
  | nil => simp [insertKey]
  | cons y ys ih =>
      rcases lt_trichotomy k y with hlt | rfl | hgt
      · rw [insertKey, if_pos hlt]
        simp
      · rw [insertKey, if_neg (lt_irrefl k), if_neg (lt_irrefl k)]
        simp
      · rw [insertKey, if_neg hgt.not_gt, if_pos hgt]
        simp only [List.mem_cons, ih]
        tauto

/-- Insertion keeps keys in ascending order. -/
theorem pairwise_insertKey {k : κ} {keys : List κ} (h : keys.Pairwise (· < ·)) :
    (insertKey k keys).Pairwise (· < ·) := by
  induction keys with
  | nil => exact List.pairwise_singleton ..
  | cons y ys ih =>
      obtain ⟨hy, hys⟩ := List.pairwise_cons.mp h
      rcases lt_trichotomy k y with hlt | rfl | hgt
      · rw [insertKey, if_pos hlt]
        refine List.pairwise_cons.mpr ⟨fun x hx => ?_, h⟩
        rcases List.mem_cons.mp hx with rfl | hx
        · exact hlt
        · exact lt_trans hlt (hy x hx)
      · rw [insertKey, if_neg (lt_irrefl k), if_neg (lt_irrefl k)]
        exact h
      · rw [insertKey, if_neg hgt.not_gt, if_pos hgt]
        refine List.pairwise_cons.mpr ⟨fun x hx => ?_, ih hys⟩
        rcases mem_insertKey.mp hx with rfl | hx
        · exact hgt
        · exact hy x hx

/-- The keys are locked in strictly ascending order, whatever keys there are. -/
theorem pairwise_ascending (keys : List κ) : (ascending keys).Pairwise (· < ·) := by
  induction keys with
  | nil => exact .nil
  | cons k keys ih => exact pairwise_insertKey ih

/-- Sorting keeps the keys. -/
theorem mem_ascending {k : κ} {keys : List κ} : k ∈ ascending keys ↔ k ∈ keys := by
  induction keys with
  | nil => rfl
  | cons x keys ih =>
      rw [ascending, List.foldr_cons, mem_insertKey, List.mem_cons]
      exact or_congr_right ih

namespace LockTable

variable {η : Type}

/-- A new entry counts only for a key that is free. -/
theorem holder?_append (held : List (κ × η)) (k x : κ) (h : η) :
    holder? ⟨held ++ [(k, h)]⟩ x =
      (holder? ⟨held⟩ x).or (if k = x then some h else none) := by
  rw [holder?, holder?, List.find?_append]
  cases held.find? fun e => e.1 = x with
  | some e => rfl
  | none => by_cases hk : k = x <;> simp [hk]

/-- **Distinct free keys** are all locked. -/
theorem acquireAll_of_free {t : LockTable κ η} {h : η} {keys : List κ} (hnodup : keys.Nodup)
    (hfree : ∀ k ∈ keys, t.holder? k = none) :
    t.acquireAll h keys = (⟨t.held ++ keys.map fun k => (k, h)⟩, true) := by
  induction keys generalizing t with
  | nil => simp [acquireAll]
  | cons k keys ih =>
      obtain ⟨hnot, hnodup⟩ := List.nodup_cons.mp hnodup
      have hk : t.acquire k h = some ⟨t.held ++ [(k, h)]⟩ := by
        rw [acquire, hfree k List.mem_cons_self]
      have hrest : ∀ x ∈ keys, holder? ⟨t.held ++ [(k, h)]⟩ x = none := by
        intro x hx
        have hne : k ≠ x := fun heq => hnot (heq ▸ hx)
        rw [holder?_append, if_neg hne]
        simpa using hfree x (List.mem_cons_of_mem k hx)
      rw [acquireAll, hk]
      dsimp only
      rw [ih hnodup hrest]
      simp

end LockTable

/-- The operation that takes the change back. -/
def Undo.operation : Undo κ υ → Operation κ υ
  | .remove k => .delete k
  | .reinsert k v => .insert k v

namespace LockingSet

/-! ### Operations -/

/-- To take one change back is to apply the operation that undoes it. -/
theorem takeBack_of_apply {items : OrderedList κ υ} {m m' : Contents κ υ} (h : items.Holds m)
    {u : Undo κ υ} {read : Option υ} (happly : m.apply u.operation = some (m', read)) :
    ∃ items', takeBack items u = (items', true) ∧ items'.Holds m' := by
  cases u with
  | remove k =>
      rw [Undo.operation, Contents.apply] at happly
      cases hk : m k with
      | none => simp [hk] at happly
      | some v =>
          simp only [hk, Option.isSome_some, if_true, Option.some.injEq, Prod.mk.injEq] at happly
          obtain ⟨items', hremove, hholds⟩ := h.remove_of_some hk
          exact ⟨items', by rw [takeBack, hremove]; rfl, happly.1 ▸ hholds⟩
  | reinsert k v =>
      rw [Undo.operation, Contents.apply] at happly
      cases hk : m k with
      | some w => simp [hk] at happly
      | none =>
          simp only [hk, Option.isSome_none, Bool.false_eq_true, if_false, Option.some.injEq,
            Prod.mk.injEq] at happly
          obtain ⟨items', hinsert, hholds⟩ := h.insert_of_none hk v
          exact ⟨items', by rw [takeBack, hinsert], happly.1 ▸ hholds⟩

/-- **To take changes back is to run the operations that undo them.** -/
theorem rollback_of_run {items : OrderedList κ υ} {m m' : Contents κ υ} (h : items.Holds m)
    {undo : List (Undo κ υ)} {reads : List (Option υ)}
    (hrun : m.run (undo.map Undo.operation) = .ok (m', reads)) :
    ∃ items', items'.Holds m' ∧
      ∀ older, rollback items (undo ++ older) = rollback items' older := by
  induction undo generalizing items m reads with
  | nil =>
      obtain ⟨rfl, -⟩ := Prod.mk.inj (Except.ok.inj hrun)
      exact ⟨items, h, fun older => rfl⟩
  | cons u undo ih =>
      rw [List.map_cons, Contents.run] at hrun
      cases happly : m.apply u.operation with
      | none => simp [happly] at hrun
      | some r =>
          obtain ⟨m₁, read⟩ := r
          obtain ⟨items₁, htake, hholds⟩ := takeBack_of_apply h happly
          simp only [happly] at hrun
          cases hrest : m₁.run (undo.map Undo.operation) with
          | error i => simp [hrest] at hrun
          | ok r =>
              simp only [hrest, Except.ok.injEq, Prod.mk.injEq] at hrun
              obtain ⟨rfl, -⟩ := hrun
              obtain ⟨items', hholds', hroll⟩ := ih hholds hrest
              refine ⟨items', hholds', fun older => ?_⟩
              rw [List.cons_append, rollback, htake]
              exact hroll older

/-- An operation changes the list as it changes the map, or fails as it does there; what it adds to
the log leads back from the map after it to the map before. -/
theorem apply_cases {s : LockingSet κ υ} {m : Contents κ υ} (h : s.items.Holds m)
    (undo : List (Undo κ υ)) (i : Nat) (op : Operation κ υ) :
    (op.after? (m op.key) = none ∧ s.apply undo i op = (s, undo, .error (.precondition i))) ∨
      ∃ held items log, op.after? (m op.key) = some held ∧
        s.apply undo i op = ({ s with items }, log ++ undo, .ok (op.readOf held)) ∧
        items.Holds (m.set op.key held) ∧ (∀ u ∈ log, u.operation.key = op.key) ∧
        ∃ reads, (m.set op.key held).run (log.map Undo.operation) = .ok (m, reads) := by
  cases op with
  | find k =>
      rw [apply, h.get_eq, Operation.key]
      cases hk : m k with
      | none => exact Or.inl ⟨rfl, rfl⟩
      | some v =>
          have hset : m.set k (some v) = m := by
            funext x
            by_cases hx : x = k
            · rw [hx, Contents.set_self, hk]
            · rw [Contents.set_of_ne _ hx]
          rw [← hset] at h
          exact Or.inr ⟨some v, s.items, [], rfl, rfl, h, by simp, [], by rw [hset]; rfl⟩
  | insert k v =>
      rw [apply, Operation.key]
      cases hk : m k with
      | some w =>
          rw [h.insert_of_some hk]
          exact Or.inl ⟨rfl, rfl⟩
      | none =>
          obtain ⟨items, hinsert, hholds⟩ := h.insert_of_none hk v
          rw [hinsert]
          refine Or.inr ⟨some v, items, [.remove k], rfl, rfl, hholds, ?_, [none], ?_⟩
          · simp [Undo.operation, Operation.key]
          · rw [List.map_singleton, Undo.operation, Contents.run_singleton, Operation.key,
              Contents.set_self]
            dsimp only [Operation.after?]
            rw [Contents.set_set_of_eq hk]
            rfl
  | delete k =>
      rw [apply, Operation.key]
      cases hk : m k with
      | none =>
          rw [h.remove_of_none hk]
          exact Or.inl ⟨rfl, rfl⟩
      | some v =>
          obtain ⟨items, hremove, hholds⟩ := h.remove_of_some hk
          rw [hremove]
          refine Or.inr ⟨none, items, [.reinsert k v], rfl, rfl, hholds, ?_, [none], ?_⟩
          · simp [Undo.operation, Operation.key]
          · rw [List.map_singleton, Undo.operation, Contents.run_singleton, Operation.key,
              Contents.set_self]
            dsimp only [Operation.after?]
            rw [Contents.set_set_of_eq hk]
            rfl

/-- An operation changes the list as it changes the map, or fails as it does there; the log leads
back to the same list. -/
theorem apply_spec {s : LockingSet κ υ} {m : Contents κ υ} (h : s.items.Holds m)
    (undo : List (Undo κ υ)) (i : Nat) (op : Operation κ υ) :
    (m.apply op = none ∧ s.apply undo i op = (s, undo, .error (.precondition i))) ∨
      ∃ m' read items undo', m.apply op = some (m', read) ∧
        s.apply undo i op = ({ s with items }, undo', .ok read) ∧ items.Holds m' ∧
        rollback items undo' = rollback s.items undo := by
  rcases apply_cases h undo i op with ⟨hnone, happly⟩ |
    ⟨held, items, log, hafter, happly, hholds, -, reads, hrun⟩
  · exact Or.inl ⟨by rw [Contents.apply_eq, hnone]; rfl, happly⟩
  · refine Or.inr ⟨_, _, items, _, by rw [Contents.apply_eq, hafter]; rfl, happly, hholds, ?_⟩
    obtain ⟨items', hholds', hroll⟩ := rollback_of_run hholds hrun
    rw [hroll, hholds'.unique h]

/-- **Operations that succeed on the map** succeed on the list. -/
theorem applyAll_of_run_eq_ok {s : LockingSet κ υ} {m m' : Contents κ υ}
    {ops : List (Operation κ υ)} {reads : List (Option υ)} (h : s.items.Holds m)
    (hrun : m.run ops = .ok (m', reads)) (undo : List (Undo κ υ)) (i : Nat) :
    ∃ items undo', s.applyAll undo i ops = ({ s with items }, undo', .ok reads) ∧
      items.Holds m' := by
  induction ops generalizing s m undo i reads with
  | nil =>
      obtain ⟨rfl, rfl⟩ := Prod.mk.inj (Except.ok.inj hrun)
      exact ⟨s.items, undo, rfl, h⟩
  | cons op ops ih =>
      rw [Contents.run] at hrun
      rcases apply_spec h undo i op with ⟨hnone, -⟩ | ⟨m₁, read, items, undo₁, hsome, happly, hh, -⟩
      · simp [hnone] at hrun
      · simp only [hsome] at hrun
        cases hrest : m₁.run ops with
        | error j => simp [hrest] at hrun
        | ok r =>
            obtain ⟨m₂, reads₂⟩ := r
            simp only [hrest, Except.ok.injEq, Prod.mk.injEq] at hrun
            obtain ⟨rfl, rfl⟩ := hrun
            have hitems : ({ s with items } : LockingSet κ υ).items.Holds m₁ := hh
            obtain ⟨items', undo', hall, hholds⟩ := ih hitems hrest undo₁ (i + 1)
            refine ⟨items', undo', ?_, hholds⟩
            rw [applyAll, happly]
            dsimp only
            rw [hall]

/-- **Operations that fail on the map** fail on the list, at the same one; the log leads back. -/
theorem applyAll_of_run_eq_error {s : LockingSet κ υ} {m : Contents κ υ}
    {ops : List (Operation κ υ)} {j : Nat} (h : s.items.Holds m) (hrun : m.run ops = .error j)
    (undo : List (Undo κ υ)) (i : Nat) :
    ∃ items undo', s.applyAll undo i ops =
        ({ s with items }, undo', .error (.precondition (i + j))) ∧
      rollback items undo' = rollback s.items undo := by
  induction ops generalizing s m undo i j with
  | nil => cases hrun
  | cons op ops ih =>
      rw [Contents.run] at hrun
      rcases apply_spec h undo i op with ⟨hnone, happly⟩ |
        ⟨m₁, read, items, undo₁, hsome, happly, hh, hback⟩
      · simp only [hnone, Except.error.injEq] at hrun
        subst hrun
        refine ⟨s.items, undo, ?_, rfl⟩
        rw [applyAll, happly]
        rfl
      · simp only [hsome] at hrun
        cases hrest : m₁.run ops with
        | ok r => simp [hrest] at hrun
        | error j' =>
            simp only [hrest, Except.error.injEq] at hrun
            subst hrun
            have hitems : ({ s with items } : LockingSet κ υ).items.Holds m₁ := hh
            obtain ⟨items', undo', hall, hback'⟩ := ih hitems hrest undo₁ (i + 1)
            refine ⟨items', undo', ?_, hback'.trans hback⟩
            rw [applyAll, happly]
            dsimp only
            rw [hall, Nat.add_right_comm, Nat.add_assoc]

/-! ### Whole transactions -/

omit [LinearOrder κ] in
/-- What a call took, it frees. -/
theorem releaseAll_call {held : List (κ × Holder)} (hcall : ∀ e ∈ held, e.2 ≠ .call)
    (got : List κ) :
    LockTable.releaseAll ⟨held ++ got.map fun k => (k, .call)⟩ Holder.call = ⟨held⟩ := by
  have hheld : held.filter (fun e => e.2 ≠ Holder.call) = held :=
    List.filter_eq_self.mpr fun e he => by simpa using hcall e he
  have hgot : (got.map fun k => (k, Holder.call)).filter (fun e => e.2 ≠ Holder.call) = [] := by
    simp
  rw [LockTable.releaseAll, List.filter_append, hheld, hgot, List.append_nil]

/-- If the keys of all operations are free, they are all locked. -/
theorem lock_of_free {s : LockingSet κ υ} {ops : List (Operation κ υ)}
    (hfree : ∀ op ∈ ops, s.locks.holder? op.key = none) (h : Holder) :
    s.lock h ops = ({ s with locks :=
      ⟨s.locks.held ++ (ascending (ops.map Operation.key)).map fun k => (k, h)⟩ }, .ok ()) := by
  have hnodup : (ascending (ops.map Operation.key)).Nodup :=
    (pairwise_ascending _).imp fun hlt => ne_of_lt hlt
  have hall := LockTable.acquireAll_of_free (t := s.locks) (h := h) hnodup fun k hk => by
    obtain ⟨op, hop, rfl⟩ := List.mem_map.mp (mem_ascending.mp hk)
    exact hfree op hop
  rw [lock]
  dsimp only
  rw [hall]
  rfl

section Calls

variable {s : LockingSet κ υ} {m : Contents κ υ} {ops : List (Operation κ υ)}

/-- **A transaction on free keys that succeeds on the map** succeeds, and the list holds the map
after it. -/
theorem tryExecute_of_run_eq_ok (h : s.items.Holds m) (hcall : ∀ e ∈ s.locks.held, e.2 ≠ .call)
    (hfree : ∀ op ∈ ops, s.locks.holder? op.key = none) {m' : Contents κ υ}
    {reads : List (Option υ)} (hrun : m.run ops = .ok (m', reads)) :
    ∃ items, s.tryExecute ops = ({ s with items }, .ok reads) ∧ items.Holds m' := by
  let locked : LockingSet κ υ := { s with locks :=
    ⟨s.locks.held ++ (ascending (ops.map Operation.key)).map fun k => (k, .call)⟩ }
  have hlocked : locked.items.Holds m := h
  obtain ⟨items, undo, happly, hholds⟩ := applyAll_of_run_eq_ok hlocked hrun [] 0
  rw [tryExecute, lock_of_free hfree]
  refine ⟨items, ?_, hholds⟩
  dsimp only
  rw [happly]
  dsimp only [commit]
  rw [releaseAll_call hcall]

/-- **A transaction on free keys that fails on the map** is refused for the same operation, and
leaves no trace. -/
theorem tryExecute_of_run_eq_error (h : s.items.Holds m) (hcall : ∀ e ∈ s.locks.held, e.2 ≠ .call)
    (hfree : ∀ op ∈ ops, s.locks.holder? op.key = none) {j : Nat} (hrun : m.run ops = .error j) :
    s.tryExecute ops = (s, .error (.refusal (.precondition j))) := by
  let locked : LockingSet κ υ := { s with locks :=
    ⟨s.locks.held ++ (ascending (ops.map Operation.key)).map fun k => (k, .call)⟩ }
  have hlocked : locked.items.Holds m := h
  obtain ⟨items, undo, happly, hback⟩ := applyAll_of_run_eq_error hlocked hrun [] 0
  rw [tryExecute, lock_of_free hfree]
  dsimp only
  rw [happly]
  dsimp only [giveUp, abort]
  rw [hback, rollback, releaseAll_call hcall, Nat.zero_add]
  rfl

end Calls

/-- The list holds the map, and nobody holds a lock. -/
structure Rests (s : LockingSet κ υ) (m : Contents κ υ) : Prop where
  holds : s.items.Holds m
  free : s.locks = {}

namespace Rests

variable {s : LockingSet κ υ} {m : Contents κ υ}

/-- A new set is at rest and holds nothing. -/
theorem fresh (timeout : Duration) : Rests ({ timeout } : LockingSet κ υ) Contents.empty where
  holds := .fresh
  free := rfl

/-- In a set at rest no key is held by a call. -/
theorem not_call (h : s.Rests m) : ∀ e ∈ s.locks.held, e.2 ≠ .call := by
  rw [h.free]
  intro e he
  cases he

/-- In a set at rest all keys are free. -/
theorem holder?_eq_none (h : s.Rests m) (k : κ) : s.locks.holder? k = none := by
  rw [h.free]
  rfl

/-- **A transaction that succeeds on the map** commits, and the list holds the map after it. -/
theorem execute_of_run_eq_ok (h : s.Rests m) {ops : List (Operation κ υ)} {m' : Contents κ υ}
    {reads : List (Option υ)} (hrun : m.run ops = .ok (m', reads)) :
    ∃ s', s.execute ops = (s', .ok ⟨.ofCommitted ops, reads⟩) ∧ s'.Rests m' ∧
      s'.tally = s.tally.commit := by
  obtain ⟨items, htry, hholds⟩ :=
    tryExecute_of_run_eq_ok h.holds h.not_call (fun op _ => h.holder?_eq_none op.key) hrun
  exact ⟨{ s with items, tally := s.tally.commit }, by rw [execute, htry], ⟨hholds, h.free⟩, rfl⟩

/-- **A transaction that fails on the map** is refused for the same operation, and leaves no trace
but in the counters. -/
theorem execute_of_run_eq_error (h : s.Rests m) {ops : List (Operation κ υ)} {j : Nat}
    (hrun : m.run ops = .error j) :
    s.execute ops =
      ({ s with tally := s.tally.abort false }, .ok (.aborted .opFail ops.length)) := by
  rw [execute, tryExecute_of_run_eq_error h.holds h.not_call
    (fun op _ => h.holder?_eq_none op.key) hrun]
  rfl

end Rests

end LockingSet

end AtomicSet
