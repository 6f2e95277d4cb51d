import AtomicSet.Proofs.Locking.Exclusion
import Mathlib.Data.Fintype.Basic
import Mathlib.Data.Fintype.Card
import Mathlib.Data.Fintype.EquivFin
import Mathlib.Logic.Relation

/-!
# Contention for key locks

Several transactions lock their keys at the same time. Each takes one lock after the other, in
ascending key order, waits where a key is locked, and keeps what it has until it has everything;
then it may free its keys again, at any time. Whoever waits, waits for a key that is larger than all
it has locked. So along a chain of waits the keys that are waited for grow, and since there are
finitely many transactions the chain ends, at a transaction that need not wait or that waits for one
that has all its locks.

## Main definitions

* `Contention` — the locks, and the keys that each transaction has still to lock.
* `Contention.take`, `Contention.leave` — the steps of a transaction.
* `Contention.Reachable` — what the transactions can get to, in any order of their steps.
* `Contention.WaitsFor` — one transaction waits for a key that another has locked.
* `Contention.Ranked` — every transaction has locked an initial segment of its keys.
* `Contention.DeadlockFree` — no transaction waits in vain.

## Main results

* `Contention.takes_lock` — to lock all keys in one call is to take them step by step.
* `Contention.Reachable.ranked` — the invariant.
* `Contention.Ranked.lt_of_transGen` — along waits, the keys that are waited for grow.
* `Contention.Reachable.deadlockFree` — locking in key order does not deadlock.
-/

namespace AtomicSet

variable {κ υ η : Type}

/-- Transactions that lock their keys. -/
structure Contention (κ η : Type) where
  locks : LockTable κ η := {}
  /-- The keys that a transaction has still to lock, in the order in which it will. -/
  awaited : η → List κ

variable [LinearOrder κ] [DecidableEq η]

namespace Contention

/-- The keys that a transaction locks, in the order in which it does. -/
def keysFor (ops : List (Operation κ υ)) : List κ :=
  ascending (ops.map Operation.key)

/-- Nobody has locked anything. -/
def start (ops : η → List (Operation κ υ)) : Contention κ η where
  awaited h := keysFor (ops h)

/-- A transaction locks the next key it needs, unless the key is locked or it needs no more. -/
def take (c : Contention κ η) (h : η) : Option (Contention κ η) :=
  match c.awaited h with
  | [] => none
  | k :: ks =>
    (c.locks.acquire k h).map fun locks => ⟨locks, Function.update c.awaited h ks⟩

/-- A transaction that has all its locks frees them. -/
def leave (c : Contention κ η) (h : η) : Option (Contention κ η) :=
  match c.awaited h with
  | [] => some { c with locks := c.locks.releaseAll h }
  | _ :: _ => none

/-- What transactions with these operations can get to. -/
inductive Reachable (ops : η → List (Operation κ υ)) : Contention κ η → Prop where
  | start : Reachable ops (start ops)
  | take {c c' : Contention κ η} (hc : Reachable ops c) {h : η} (htake : c.take h = some c') :
      Reachable ops c'
  | leave {c c' : Contention κ η} (hc : Reachable ops c) {h : η} (hleave : c.leave h = some c') :
      Reachable ops c'

/-- The next key that `h` needs is locked by `g`. -/
def WaitsFor (c : Contention κ η) (h g : η) : Prop :=
  ∃ k ks, c.awaited h = k :: ks ∧ c.locks.holder? k = some g

/-! ### Steps -/

/-- A transaction takes the key that it needs next exactly if this one is free. -/
theorem take_eq_some_iff {c c' : Contention κ η} {h : η} :
    c.take h = some c' ↔ ∃ k ks, c.awaited h = k :: ks ∧ c.locks.holder? k = none ∧
      c' = ⟨⟨c.locks.held ++ [(k, h)]⟩, Function.update c.awaited h ks⟩ := by
  rw [take]
  cases c.awaited h with
  | nil => simp
  | cons k ks =>
      simp only [LockTable.acquire]
      cases hholder : c.locks.holder? k with
      | some g => simp [hholder]
      | none => simp [hholder, eq_comm]

omit [LinearOrder κ] in
/-- A transaction leaves exactly if it needs no further key, and it frees all that it has. -/
theorem leave_eq_some_iff {c c' : Contention κ η} {h : η} :
    c.leave h = some c' ↔ c.awaited h = [] ∧ c' = { c with locks := c.locks.releaseAll h } := by
  rw [leave]
  cases c.awaited h <;> simp [eq_comm]

/-- If nobody comes between, a transaction takes the keys that `acquireAll` locks, and then waits or
needs no more. -/
theorem takes_acquireAll (c : Contention κ η) (h : η) : ∃ rest,
    Relation.ReflTransGen (fun c c' => c.take h = some c') c
      ⟨(c.locks.acquireAll h (c.awaited h)).1, Function.update c.awaited h rest⟩ ∧
    (c.locks.acquireAll h (c.awaited h)).2 = rest.isEmpty := by
  generalize hkeys : c.awaited h = keys
  induction keys generalizing c with
  | nil =>
      refine ⟨[], ?_, rfl⟩
      rw [LockTable.acquireAll, ← hkeys, Function.update_eq_self]
  | cons k ks ih =>
      rw [LockTable.acquireAll]
      cases hlock : c.locks.acquire k h with
      | none =>
          refine ⟨k :: ks, ?_, rfl⟩
          rw [← hkeys, Function.update_eq_self]
      | some locks =>
          obtain ⟨rest, htakes, hall⟩ :=
            ih ⟨locks, Function.update c.awaited h ks⟩ (Function.update_self ..)
          rw [Function.update_idem] at htakes
          refine ⟨rest, .head ?_ htakes, hall⟩
          simp only [take, hkeys, hlock, Option.map_some]

/-- **To lock all keys in one call is to take them step by step**, with nobody coming between. -/
theorem takes_lock (s : LockingSet κ υ) (h : Holder) (ops : List (Operation κ υ))
    {c : Contention κ Holder} (hlocks : c.locks = s.locks) (hkeys : c.awaited h = keysFor ops) :
    ∃ rest, Relation.ReflTransGen (fun c c' => c.take h = some c') c
        ⟨(s.lock h ops).1.locks, Function.update c.awaited h rest⟩ ∧
      ((s.lock h ops).2 = .ok () ↔ rest = []) := by
  obtain ⟨rest, htakes, hall⟩ := c.takes_acquireAll h
  rw [hlocks, hkeys] at htakes hall
  refine ⟨rest, htakes, ?_⟩
  rw [keysFor] at hall
  rw [LockingSet.lock]
  dsimp only
  rw [hall]
  cases rest <;> simp

/-! ### Every transaction has locked an initial segment of its keys -/

/-- No key is locked twice, and every transaction has locked its keys up to the one it needs next,
or has had them all and has freed them. -/
structure Ranked (ops : η → List (Operation κ υ)) (c : Contention κ η) : Prop where
  exclusive : c.locks.Exclusive
  segment : ∀ h, c.locks.keysOf h ++ c.awaited h = keysFor (ops h) ∨
    c.locks.keysOf h = [] ∧ c.awaited h = []

omit [LinearOrder κ] in
/-- A key that is locked is added behind those of its holder. -/
theorem keysOf_append (held : List (κ × η)) (k : κ) (h g : η) :
    LockTable.keysOf ⟨held ++ [(k, h)]⟩ g =
      LockTable.keysOf ⟨held⟩ g ++ if h = g then [k] else [] := by
  rw [LockTable.keysOf, List.filter_append, List.map_append]
  by_cases hg : h = g
  · simp [hg, LockTable.keysOf]
  · simp [hg, LockTable.keysOf]

omit [LinearOrder κ] in
/-- A holder that releases everything has no key left, and the others keep theirs. -/
theorem keysOf_releaseAll (t : LockTable κ η) (h g : η) :
    (t.releaseAll h).keysOf g = if g = h then [] else t.keysOf g := by
  rw [LockTable.keysOf, LockTable.releaseAll, List.filter_filter]
  by_cases hg : g = h
  · rw [if_pos hg, List.map_eq_nil_iff, List.filter_eq_nil_iff]
    intro e he
    simp [hg]
  · rw [if_neg hg, LockTable.keysOf]
    congr 1
    refine List.filter_congr fun e _ => ?_
    by_cases he : e.2 = g
    · simp [he, hg]
    · simp [he]

/-- In an exclusive table, the keys of a holder are those that it holds. -/
theorem mem_keysOf_iff {t : LockTable κ η} (ht : t.Exclusive) {k : κ} {h : η} :
    k ∈ t.keysOf h ↔ t.holder? k = some h := by
  rw [ht.holder?_eq_some_iff, LockTable.keysOf, List.mem_map]
  constructor
  · rintro ⟨⟨x, g⟩, he, rfl⟩
    obtain ⟨hmem, hg⟩ := List.mem_filter.mp he
    obtain rfl : g = h := by simpa using hg
    exact hmem
  · intro hmem
    exact ⟨(k, h), List.mem_filter.mpr ⟨hmem, by simp⟩, rfl⟩

namespace Ranked

variable {ops : η → List (Operation κ υ)} {c c' : Contention κ η} {h g : η} {k k' : κ}
  {ks ks' : List κ}

/-- At the start nobody has a lock, and all keys are ahead of everybody. -/
theorem start (ops : η → List (Operation κ υ)) : Ranked ops (start ops) where
  exclusive := List.nodup_nil
  segment _ := Or.inl rfl

/-- **Taking the next key** moves it from those needed to those locked. -/
theorem take (hc : Ranked ops c) (htake : c.take h = some c') : Ranked ops c' := by
  obtain ⟨k, ks, hkeys, hfree, rfl⟩ := take_eq_some_iff.mp htake
  refine ⟨hc.exclusive.append hfree h, fun g => ?_⟩
  dsimp only
  rw [keysOf_append]
  by_cases hg : h = g
  · subst hg
    have hsegment := hc.segment h
    rw [hkeys] at hsegment
    rw [if_pos rfl, Function.update_self, List.append_assoc, List.singleton_append]
    refine Or.inl (hsegment.resolve_right ?_)
    rintro ⟨-, hnil⟩
    cases hnil
  · rw [if_neg hg, List.append_nil, Function.update_of_ne (Ne.symm hg)]
    exact hc.segment g

/-- Freeing all keys leaves the others theirs. -/
theorem leave (hc : Ranked ops c) (hleave : c.leave h = some c') : Ranked ops c' := by
  obtain ⟨hkeys, rfl⟩ := leave_eq_some_iff.mp hleave
  refine ⟨hc.exclusive.filter _, fun g => ?_⟩
  dsimp only
  rw [keysOf_releaseAll]
  by_cases hg : g = h
  · rw [if_pos hg, hg]
    exact Or.inr ⟨rfl, hkeys⟩
  · rw [if_neg hg]
    exact hc.segment g

/-- A transaction that needs another key has its keys in front of it locked. -/
theorem segment_of_awaited (hc : Ranked ops c) (hkeys : c.awaited h = k :: ks) :
    c.locks.keysOf h ++ k :: ks = keysFor (ops h) := by
  have hsegment := hc.segment h
  rw [hkeys] at hsegment
  refine hsegment.resolve_right ?_
  rintro ⟨-, hnil⟩
  cases hnil

/-- What a transaction has locked is smaller than the next key it needs. -/
theorem lt_of_holder? (hc : Ranked ops c) (hkeys : c.awaited h = k :: ks)
    (hholder : c.locks.holder? k' = some h) : k' < k := by
  have hsorted := pairwise_ascending ((ops h).map Operation.key)
  rw [← keysFor, ← hc.segment_of_awaited hkeys, List.pairwise_append] at hsorted
  exact hsorted.2.2 k' ((mem_keysOf_iff hc.exclusive).mpr hholder) k List.mem_cons_self

/-- **No transaction waits for a key that it has locked itself.** -/
theorem holder?_ne (hc : Ranked ops c) (hkeys : c.awaited h = k :: ks) :
    c.locks.holder? k ≠ some h :=
  fun hholder => lt_irrefl k (hc.lt_of_holder? hkeys hholder)

/-- **Along waits, the keys that are waited for grow.** -/
theorem lt_of_transGen (hc : Ranked ops c) (hwaits : Relation.TransGen c.WaitsFor h g)
    (hkeys : c.awaited h = k :: ks) (hkeys' : c.awaited g = k' :: ks') : k < k' := by
  induction hwaits generalizing k' ks' with
  | single hwait =>
      obtain ⟨x, xs, hx, hholder⟩ := hwait
      obtain ⟨rfl, -⟩ := List.cons.inj (hx.symm.trans hkeys)
      exact hc.lt_of_holder? hkeys' hholder
  | tail _ hwait ih =>
      obtain ⟨x, xs, hx, hholder⟩ := hwait
      exact lt_trans (ih hx) (hc.lt_of_holder? hkeys' hholder)

/-- **The waits never form a cycle.** -/
theorem acyclic (hc : Ranked ops c) (h : η) : ¬ Relation.TransGen c.WaitsFor h h := by
  intro hcycle
  obtain ⟨g, ⟨k, ks, hkeys, -⟩, -⟩ := Relation.TransGen.head'_iff.mp hcycle
  exact lt_irrefl k (hc.lt_of_transGen hcycle hkeys hkeys)

/-- A transaction that has locked a key and needs no more has locked all its keys. -/
theorem holder?_of_awaited_eq_nil (hc : Ranked ops c) (hkeys : c.awaited h = [])
    (hholder : c.locks.holder? k = some h) {op : Operation κ υ} (hop : op ∈ ops h) :
    c.locks.holder? op.key = some h := by
  have hsome : k ∈ c.locks.keysOf h := (mem_keysOf_iff hc.exclusive).mpr hholder
  rw [← mem_keysOf_iff hc.exclusive]
  rcases hc.segment h with hall | ⟨hnil, -⟩
  · rw [hkeys, List.append_nil] at hall
    rw [hall]
    exact mem_ascending.mpr (List.mem_map_of_mem hop)
  · rw [hnil] at hsome
    cases hsome

end Ranked

/-- In every state that is reached, each transaction has locked its keys up to the one that it needs
next. -/
theorem Reachable.ranked {ops : η → List (Operation κ υ)} {c : Contention κ η}
    (hc : Reachable ops c) : Ranked ops c := by
  induction hc with
  | start => exact Ranked.start ops
  | take _ htake ih => exact ih.take htake
  | leave _ hleave ih => exact ih.leave hleave

/-! ### No transaction waits in vain -/

/-- The transaction needs another key, and that key is free or locked by a transaction that has all
its locks. -/
def Unhindered (ops : η → List (Operation κ υ)) (c : Contention κ η) (h : η) : Prop :=
  ∃ k ks, c.awaited h = k :: ks ∧ (c.locks.holder? k = none ∨
    ∃ g, c.locks.holder? k = some g ∧ c.awaited g = [] ∧
      ∀ op ∈ ops g, c.locks.holder? op.key = some g)

/-- No transaction waits in vain. -/
structure DeadlockFree (ops : η → List (Operation κ υ)) (c : Contention κ η) : Prop where
  /-- A transaction has locked its keys up to the one it needs next, or has freed them all. -/
  segment : ∀ h, c.locks.keysOf h ++ c.awaited h = keysFor (ops h) ∨
    c.locks.keysOf h = [] ∧ c.awaited h = []
  /-- A transaction that needs another key waits, through others if need be, for one that is
  unhindered, unless it is unhindered itself. -/
  progress : ∀ h, c.awaited h ≠ [] →
    ∃ g, Relation.ReflTransGen c.WaitsFor h g ∧ Unhindered ops c g
  /-- No transaction waits for itself through others. -/
  acyclic : ∀ h, ¬ Relation.TransGen c.WaitsFor h h
  /-- No transaction waits for a key that it has locked. -/
  not_own : ∀ h k ks, c.awaited h = k :: ks → c.locks.holder? k ≠ some h

/-- A chain of waits ends, as there are finitely many transactions and none waits for itself. -/
theorem Ranked.progress [Finite η] {ops : η → List (Operation κ υ)} {c : Contention κ η}
    (hc : Ranked ops c) {h : η} (hkeys : c.awaited h ≠ []) :
    ∃ g, Relation.ReflTransGen c.WaitsFor h g ∧ Unhindered ops c g := by
  have : IsTrans η (fun g h => Relation.TransGen c.WaitsFor h g) :=
    ⟨fun _ _ _ hba hcb => hcb.trans hba⟩
  have : Std.Irrefl (fun g h => Relation.TransGen c.WaitsFor h g) := ⟨hc.acyclic⟩
  have hwf := Finite.wellFounded_of_trans_of_irrefl fun g h => Relation.TransGen c.WaitsFor h g
  induction h using hwf.induction with
  | _ h ih =>
      obtain ⟨k, ks, hcons⟩ := List.exists_cons_of_ne_nil hkeys
      cases hholder : c.locks.holder? k with
      | none => exact ⟨h, .refl, k, ks, hcons, Or.inl hholder⟩
      | some g =>
          have hwait : c.WaitsFor h g := ⟨k, ks, hcons, hholder⟩
          by_cases hg : c.awaited g = []
          · exact ⟨h, .refl, k, ks, hcons, Or.inr ⟨g, hholder, hg, fun op hop =>
              hc.holder?_of_awaited_eq_nil hg hholder hop⟩⟩
          · obtain ⟨x, hpath, hx⟩ := ih g (.single hwait) hg
            exact ⟨x, .head hwait hpath, hx⟩

/-- **Locking in key order does not deadlock**, whatever keys finitely many transactions name,
however often, and in whatever order they take their steps. -/
theorem Reachable.deadlockFree [Finite η] {ops : η → List (Operation κ υ)} {c : Contention κ η}
    (hc : Reachable ops c) : DeadlockFree ops c where
  segment := hc.ranked.segment
  progress _ := hc.ranked.progress
  acyclic := hc.ranked.acyclic
  not_own _ _ _ := hc.ranked.holder?_ne

/-- Three transactions that name keys more than once, and out of order. -/
def crossing : Fin 3 → List (Operation Nat Nat)
  | 0 => [.insert 2 20, .find 1, .delete 2]
  | 1 => [.find 3, .find 2, .delete 3]
  | 2 => [.delete 3, .insert 1 10, .find 1]

/-- The first of them has locked 1 and the second 2, so that the third waits for the first, and the
first for the second. -/
theorem deadlockFree_crossing : ∃ c, Reachable crossing c ∧
    (c.WaitsFor 2 0 ∧ c.WaitsFor 0 1 ∧ Unhindered crossing c 1) ∧ DeadlockFree crossing c := by
  have hstart : Reachable crossing (start crossing) := Reachable.start
  have hreachable := (hstart.take (h := 0) rfl).take (h := 1) rfl
  exact ⟨_, hreachable, ⟨⟨1, [3], rfl, rfl⟩, ⟨2, [], rfl, rfl⟩, ⟨3, [], rfl, Or.inl rfl⟩⟩,
    hreachable.deadlockFree⟩

end Contention

end AtomicSet
