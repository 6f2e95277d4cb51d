import AtomicSet.Proofs.Agreement
import AtomicSet.Proofs.Locking.Ownership
import Mathlib.Logic.Function.Basic

/-!
# Two-phase locking

Private transactions change the list in place, before they commit, and others work on the list in
the meantime. As long as each applies operations only to keys that it has the lock of, this does not
show: to abort one gives each of its keys back what the key held when it was locked, and what keys
hold that no private transaction has locked is what the committed transactions leave that are run
one after another.

## Convention

To open a transaction under a name that is taken ends the open one of that name and keeps its
changes, so it counts as a commit.

## Main definitions

* `LockingSession.TwoPhase` — commands that apply operations only to locked keys.
* `Ledger` — what has been committed, in the order of the commits, and what is pending.
* `LockingSession.Tied` — how what an open transaction has done and how it is undone fit together.
* `LockingSession.Balanced` — the list is what the ledger says.
* `LockingSession.Obtained` — when a transaction locked a key, and what the key held then.
* `LockingSession.Serialized` — every abort restores, and the committed transactions explain the
  rest.

## Main results

* `LockingSession.Balanced.perform` — every command keeps the ledger balanced, and what is committed
  at a locked key stays.
* `LockingSession.TwoPhase.balanced` — so it is balanced after all of them.
* `LockingSession.TwoPhase.serialized` — two-phase locking makes transactions atomic and
  serializable.
-/

namespace AtomicSet

variable {κ υ : Type}

/-! ### The ledger -/

/-- The operations of committed transactions with what they read, in the order of the commits, and
those of open private transactions. -/
structure Ledger (κ υ : Type) where
  settled : List (Operation κ υ × Option υ) := []
  pending : String → List (Operation κ υ × Option υ) := fun _ => []

namespace Ledger

open LockingSession (Command Reply)

/-- A whole transaction commits. -/
def settle (l : Ledger κ υ) (ops : List (Operation κ υ)) (reads : List (Option υ)) : Ledger κ υ :=
  { l with settled := l.settled ++ ops.zip reads }

/-- An open transaction has done an operation. -/
def add (l : Ledger κ υ) (name : String) (op : Operation κ υ) (read : Option υ) : Ledger κ υ :=
  { l with pending := Function.update l.pending name (l.pending name ++ [(op, read)]) }

/-- An open transaction commits. -/
def close (l : Ledger κ υ) (name : String) : Ledger κ υ where
  settled := l.settled ++ l.pending name
  pending := Function.update l.pending name []

/-- An open transaction aborts. -/
def drop (l : Ledger κ υ) (name : String) : Ledger κ υ :=
  { l with pending := Function.update l.pending name [] }

section Pending

variable (l : Ledger κ υ) {name x : String}

/-- An operation is added behind those that are pending for its transaction. -/
theorem pending_add_self (op : Operation κ υ) (read : Option υ) :
    (l.add name op read).pending name = l.pending name ++ [(op, read)] :=
  Function.update_self ..

/-- An operation is pending for its own transaction only. -/
theorem pending_add_of_ne (hx : x ≠ name) (op : Operation κ υ) (read : Option υ) :
    (l.add name op read).pending x = l.pending x :=
  Function.update_of_ne hx ..

/-- Nothing is pending for a transaction that has committed. -/
theorem pending_close_self : (l.close name).pending name = [] :=
  Function.update_self ..

/-- A commit leaves what is pending for the others. -/
theorem pending_close_of_ne (hx : x ≠ name) : (l.close name).pending x = l.pending x :=
  Function.update_of_ne hx ..

/-- Nothing is pending for a transaction that was aborted. -/
theorem pending_drop_self : (l.drop name).pending name = [] :=
  Function.update_self ..

/-- An abort leaves what is pending for the others. -/
theorem pending_drop_of_ne (hx : x ≠ name) : (l.drop name).pending x = l.pending x :=
  Function.update_of_ne hx ..

/-- Where nothing is pending there is nothing to drop. -/
theorem drop_eq_self (h : l.pending name = []) : l.drop name = l := by
  rw [drop, ← h, Function.update_eq_self]

end Pending

/-- Takes a command and its reply down. -/
def note (l : Ledger κ υ) : Command κ υ → Reply κ υ → Ledger κ υ
  | .execute ops, .outcome o => if o.isCommitted then l.settle ops o.reads else l
  | .find k, .value (some v) => l.settle [.find k] [some v]
  | .insert k v, .flag true => l.settle [.insert k v] [none]
  | .delete k, .flag true => l.settle [.delete k] [none]
  | .tryExecute ops, .reads (.ok reads) => l.settle ops reads
  | .apply name _ op, .applied (.ok read) _ => l.add name op read
  | .begin name, _ => l.close name
  | .commit name, _ => l.close name
  | .abort name, _ => l.drop name
  | _, _ => l

end Ledger

/-- No refusal has the code of a commit. -/
theorem Refusal.isCommitted_code (r : Refusal) : r.code.isCommitted = false := by
  cases r <;> rfl

variable [LinearOrder κ]

namespace LockingSet

variable {s : LockingSet κ υ}

/-- A transaction of one call that meets a locked key is refused and leaves no trace. -/
theorem tryExecute_of_locked (hcall : ∀ e ∈ s.locks.held, e.2 ≠ .call) {ops : List (Operation κ υ)}
    {op : Operation κ υ} (hop : op ∈ ops) (hlocked : s.locks.holder? op.key ≠ none) :
    s.tryExecute ops = (s, .error (.refusal (.lockTimeout s.timeout))) := by
  obtain ⟨got, rest, hkeys, hlock, hgot, -⟩ := s.locks_lock .call ops
  have hmem : op.key ∈ got ++ rest :=
    hkeys ▸ mem_ascending.mpr (List.mem_map_of_mem hop)
  cases rest with
  | nil =>
      rw [List.append_nil] at hmem
      exact absurd (hgot _ hmem) hlocked
  | cons k rest =>
      rw [tryExecute, hlock]
      simp only [List.isEmpty_cons, Bool.false_eq_true, if_false, giveUp, abort, rollback, if_true,
        releaseAll_call hcall got]

/-- A transaction of one call runs as it does on the map, on free keys, or leaves no trace. -/
theorem tryExecute_cases {m : Contents κ υ} (h : s.items.Holds m)
    (hcall : ∀ e ∈ s.locks.held, e.2 ≠ .call) (ops : List (Operation κ υ)) :
    (∃ m' reads items, m.run ops = .ok (m', reads) ∧
      (∀ op ∈ ops, s.locks.holder? op.key = none) ∧
      s.tryExecute ops = ({ s with items }, .ok reads) ∧ items.Holds m') ∨
    ∃ r, s.tryExecute ops = (s, .error (.refusal r)) := by
  by_cases hfree : ∀ op ∈ ops, s.locks.holder? op.key = none
  · cases hrun : m.run ops with
    | ok r =>
        obtain ⟨items, htry, hholds⟩ := tryExecute_of_run_eq_ok h hcall hfree hrun
        exact Or.inl ⟨r.1, r.2, items, rfl, hfree, htry, hholds⟩
    | error j => exact Or.inr ⟨_, tryExecute_of_run_eq_error h hcall hfree hrun⟩
  · simp only [not_forall] at hfree
    obtain ⟨op, hop, hlocked⟩ := hfree
    exact Or.inr ⟨_, tryExecute_of_locked hcall hop hlocked⟩

end LockingSet

namespace LockingSession

/-! ### Commands under two-phase locking -/

/-- The listed entries have `held` at the key. -/
def Shows (s : LockingSession κ υ) (k : κ) (held : Option υ) : Prop :=
  ∀ v, (k, v) ∈ s.set.entries ↔ held = some v

/-- An open private transaction applies operations only to keys that it has the lock of. -/
def Allowed (s : LockingSession κ υ) : Command κ υ → Prop
  | .apply name _ op => (s.log? name).isSome → s.Owns name op.key
  | .execute _ | .find _ | .insert _ _ | .delete _ | .tryExecute _ => True
  | .entries | .tally | .resetTally | .hold _ | .unhold _ => True
  | .begin _ | .lock _ _ | .commit _ | .abort _ => True

instance decidableAllowed (s : LockingSession κ υ) : DecidablePred s.Allowed
  | .apply name _ op => inferInstanceAs (Decidable ((s.log? name).isSome → s.Owns name op.key))
  | .execute _ | .find _ | .insert _ _ | .delete _ | .tryExecute _ => .isTrue trivial
  | .entries | .tally | .resetTally | .hold _ | .unhold _ => .isTrue trivial
  | .begin _ | .lock _ _ | .commit _ | .abort _ => .isTrue trivial

/-- Commands each of which is allowed when it is its turn. -/
def TwoPhase (s : LockingSession κ υ) : List (Command κ υ) → Prop
  | [] => True
  | c :: cs => s.Allowed c ∧ (s.perform c).1.TwoPhase cs

instance decidableTwoPhase : (s : LockingSession κ υ) → DecidablePred s.TwoPhase
  | _, [] => .isTrue trivial
  | s, c :: cs =>
    have := decidableTwoPhase (s.perform c).1 cs
    inferInstanceAs (Decidable (s.Allowed c ∧ (s.perform c).1.TwoPhase cs))

/-- A set with this time limit, on which nothing has been done. -/
def fresh (timeout : Duration) : LockingSession κ υ :=
  { set := { timeout } }

/-- What commands lead to. -/
def after (timeout : Duration) (cs : List (Command κ υ)) : LockingSession κ υ :=
  (performAll perform (fresh timeout) cs).1

/-- The ledger of commands. -/
def ledger (timeout : Duration) (cs : List (Command κ υ)) : Ledger κ υ :=
  (cs.zip (performAll perform (fresh timeout) cs).2).foldl (fun l e => l.note e.1 e.2) {}

/-- One more command keeps two-phase locking if it is allowed then. -/
theorem twoPhase_concat {s : LockingSession κ υ} {cs : List (Command κ υ)} {c : Command κ υ} :
    s.TwoPhase (cs ++ [c]) ↔ s.TwoPhase cs ∧ (performAll perform s cs).1.Allowed c := by
  induction cs generalizing s with
  | nil => exact and_comm
  | cons c' cs ih =>
      rw [List.cons_append, TwoPhase, ih, TwoPhase, and_assoc]
      rfl

section Runs

variable {timeout : Duration} {cs : List (Command κ υ)} {c : Command κ υ}

/-- The session after one more command. -/
theorem after_concat :
    after timeout (cs ++ [c]) = ((after timeout cs).perform c).1 := by
  rw [after, performAll_append]
  rfl

/-- The ledger after one more command. -/
theorem ledger_concat :
    ledger timeout (cs ++ [c]) = (ledger timeout cs).note c ((after timeout cs).perform c).2 := by
  rw [ledger, performAll_append, List.zip_append (length_performAll ..).symm, List.foldl_append]
  rfl

end Runs

/-! ### One open transaction -/

/-- A private transaction that has locked the keys `owned`, done the operations `done` and has the
log `undo`, from the map `base` of what is committed to the map `m` of what is there: on its keys
the operations lead from the one to the other, and the log leads back. -/
structure Tied (m base : Contents κ υ) (owned : κ → Prop) (undo : List (Undo κ υ))
    (done : List (Operation κ υ × Option υ)) : Prop where
  owned_of_done : ∀ e ∈ done, owned e.1.key
  owned_of_undo : ∀ u ∈ undo, owned u.operation.key
  forth : ∃ m', base.run (done.map Prod.fst) = .ok (m', done.map Prod.snd) ∧
    ∀ k, owned k → m' k = m k
  back : ∃ base' reads, m.run (undo.map Undo.operation) = .ok (base', reads) ∧
    ∀ k, owned k → base' k = base k

namespace Tied

variable {m base m₂ base₂ : Contents κ υ} {owned owned₂ : κ → Prop} {undo : List (Undo κ υ)}
  {done : List (Operation κ υ × Option υ)}

/-- A transaction that has done nothing is tied to what is committed at its keys. -/
theorem start (h : ∀ k, owned k → m k = base k) : Tied m base owned [] [] where
  owned_of_done e he := by cases he
  owned_of_undo u hu := by cases hu
  forth := ⟨base, rfl, fun k hk => (h k hk).symm⟩
  back := ⟨m, [], rfl, h⟩

/-- The operations that were done are on keys that are locked. -/
theorem owned_of_mem_ops (h : Tied m base owned undo done) :
    ∀ op ∈ done.map Prod.fst, owned op.key := by
  intro op hop
  obtain ⟨e, he, rfl⟩ := List.mem_map.mp hop
  exact h.owned_of_done e he

/-- The operations of the log are on keys that are locked. -/
theorem owned_of_mem_undo (h : Tied m base owned undo done) :
    ∀ op ∈ undo.map Undo.operation, owned op.key := by
  intro op hop
  obtain ⟨u, hu, rfl⟩ := List.mem_map.mp hop
  exact h.owned_of_undo u hu

/-- **What others do to other keys** does not matter. -/
theorem congr (h : Tied m base owned undo done) (hm : ∀ k, owned k → m₂ k = m k)
    (hbase : ∀ k, owned k → base₂ k = base k) : Tied m₂ base₂ owned undo done where
  owned_of_done := h.owned_of_done
  owned_of_undo := h.owned_of_undo
  forth := by
    obtain ⟨m', hrun, hm'⟩ := h.forth
    obtain ⟨m₂', hrun₂, hagree⟩ :=
      Contents.run_of_agree hrun fun op hop => hbase _ (h.owned_of_mem_ops op hop)
    exact ⟨m₂', hrun₂, fun k hk => by rw [hagree k (hbase k hk), hm' k hk, hm k hk]⟩
  back := by
    obtain ⟨base', reads, hrun, hbase'⟩ := h.back
    obtain ⟨base₂', hrun₂, hagree⟩ :=
      Contents.run_of_agree hrun fun op hop => hm _ (h.owned_of_mem_undo op hop)
    exact ⟨base₂', reads, hrun₂, fun k hk => by rw [hagree k (hm k hk), hbase' k hk, hbase k hk]⟩

/-- More keys may be locked where nothing is pending. -/
theorem mono (h : Tied m base owned undo done) (hsub : ∀ k, owned k → owned₂ k)
    (hnew : ∀ k, owned₂ k → ¬ owned k → m k = base k) : Tied m base owned₂ undo done where
  owned_of_done e he := hsub _ (h.owned_of_done e he)
  owned_of_undo u hu := hsub _ (h.owned_of_undo u hu)
  forth := by
    obtain ⟨m', hrun, hm'⟩ := h.forth
    refine ⟨m', hrun, fun k hk => ?_⟩
    by_cases hold : owned k
    · exact hm' k hold
    · rw [hnew k hk hold]
      exact Contents.run_of_ne hrun fun op hop heq => hold (heq ▸ h.owned_of_mem_ops op hop)
  back := by
    obtain ⟨base', reads, hrun, hbase'⟩ := h.back
    refine ⟨base', reads, hrun, fun k hk => ?_⟩
    by_cases hold : owned k
    · exact hbase' k hold
    · rw [← hnew k hk hold]
      exact Contents.run_of_ne hrun fun op hop heq => hold (heq ▸ h.owned_of_mem_undo op hop)

/-- **One operation more**, on a locked key. -/
theorem apply (h : Tied m base owned undo done) {op : Operation κ υ} (hop : owned op.key)
    {held : Option υ} (hafter : op.after? (m op.key) = some held) {log : List (Undo κ υ)}
    (hlog : ∀ u ∈ log, u.operation.key = op.key) {reads : List (Option υ)}
    (hrun : (m.set op.key held).run (log.map Undo.operation) = .ok (m, reads)) :
    Tied (m.set op.key held) base owned (log ++ undo) (done ++ [(op, op.readOf held)]) where
  owned_of_done e he := by
    rcases List.mem_append.mp he with he | he
    · exact h.owned_of_done e he
    · obtain rfl := List.mem_singleton.mp he
      exact hop
  owned_of_undo u hu := by
    rcases List.mem_append.mp hu with hu | hu
    · rw [hlog u hu]
      exact hop
    · exact h.owned_of_undo u hu
  forth := by
    obtain ⟨m', hdone, hm'⟩ := h.forth
    refine ⟨m'.set op.key held, ?_, fun k hk => ?_⟩
    · rw [List.map_append, List.map_append, Contents.run_append hdone, List.map_singleton,
        Contents.run_singleton, hm' _ hop, hafter]
      rfl
    · rw [Contents.set, Contents.set, hm' k hk]
  back := by
    obtain ⟨base', reads', hundo, hbase'⟩ := h.back
    refine ⟨base', reads ++ reads', ?_, hbase'⟩
    rw [List.map_append, Contents.run_append hrun, hundo]

/-- **A commit** moves what is committed to what is there, at the keys of the transaction. -/
theorem commit (h : Tied m base owned undo done) :
    ∃ base', base.run (done.map Prod.fst) = .ok (base', done.map Prod.snd) ∧
      (∀ k, owned k → base' k = m k) ∧ ∀ k, ¬ owned k → base' k = base k := by
  obtain ⟨base', hrun, howned⟩ := h.forth
  exact ⟨base', hrun, howned, fun k hk =>
    Contents.run_of_ne hrun fun op hop heq => hk (heq ▸ h.owned_of_mem_ops op hop)⟩

/-- **An abort** succeeds, and moves what is there to what is committed, at the keys of the
transaction. -/
theorem rollback (h : Tied m base owned undo done) {items : OrderedList κ υ}
    (hitems : items.Holds m) :
    ∃ m' items', LockingSet.rollback items undo = (items', true) ∧ items'.Holds m' ∧
      (∀ k, owned k → m' k = base k) ∧ ∀ k, ¬ owned k → m' k = m k := by
  obtain ⟨m', reads, hrun, howned⟩ := h.back
  obtain ⟨items', hholds, hroll⟩ := LockingSet.rollback_of_run hitems hrun
  refine ⟨m', items', ?_, hholds, howned, fun k hk =>
    Contents.run_of_ne hrun fun op hop heq => hk (heq ▸ h.owned_of_mem_undo op hop)⟩
  have hall := hroll []
  rw [List.append_nil] at hall
  exact hall

/-- Nothing has become of a key on which nothing was done. -/
theorem eq_of_ne (h : Tied m base owned undo done) {k : κ} (hk : owned k)
    (hne : ∀ e ∈ done, e.1.key ≠ k) : m k = base k := by
  obtain ⟨m', hrun, howned⟩ := h.forth
  rw [← howned k hk]
  refine Contents.run_of_ne hrun fun op hop => ?_
  obtain ⟨e, he, rfl⟩ := List.mem_map.mp hop
  exact hne e he

end Tied

/-! ### The list is what the ledger says -/

/-- The list holds `m`, the committed transactions lead to `base` when they are run one after
another, and the two differ only by what the open private transactions have done to their keys. -/
structure Balanced (s : LockingSession κ υ) (l : Ledger κ υ) (m base : Contents κ υ) : Prop where
  accountable : s.Accountable
  holds : s.set.items.Holds m
  settled : Contents.empty.run (l.settled.map Prod.fst) = .ok (base, l.settled.map Prod.snd)
  free : ∀ k, (∀ name, ¬ s.Owns name k) → m k = base k
  tied : ∀ name undo, s.log? name = some undo → Tied m base (s.Owns name) undo (l.pending name)
  closed : ∀ name, s.log? name = none → l.pending name = []

/-- The ledger is balanced after a step too, and what is committed at the keys that are locked then
is what it was. -/
def Advances (base : Contents κ υ) (s' : LockingSession κ υ) (l' : Ledger κ υ) : Prop :=
  ∃ m' base', Balanced s' l' m' base' ∧ ∀ name k, s'.Owns name k → base' k = base k

omit [LinearOrder κ] in
/-- Sessions with the same open transactions have the same logs. -/
theorem log?_eq_of_opened {s s' : LockingSession κ υ} (h : s'.opened = s.opened) :
    s'.log? = s.log? := by
  funext name
  rw [log?, log?, h]

namespace Balanced

variable {s s' : LockingSession κ υ} {l : Ledger κ υ} {m base : Contents κ υ}

/-- The listed entries have at each key what the list holds there. -/
theorem shows (h : Balanced s l m base) (k : κ) : s.Shows k (m k) :=
  h.holds.lists_entries.mem_iff k

/-- Nothing happens to the list, to the keys of the private transactions or to their logs. -/
theorem of_eq (h : Balanced s l m base) (haccountable : s'.Accountable)
    (hitems : s'.set.items = s.set.items) (howns : s'.Owns = s.Owns) (hlog : s'.log? = s.log?) :
    Advances base s' l := by
  refine ⟨m, base, ⟨haccountable, hitems ▸ h.holds, h.settled, ?_, ?_, ?_⟩, fun _ _ _ => rfl⟩
  · rw [howns]
    exact h.free
  · rw [howns, hlog]
    exact h.tied
  · rw [hlog]
    exact h.closed

/-! ### Transactions of one call -/

/-- **A whole transaction commits**, on keys that nobody has locked. -/
theorem settle (h : Balanced s l m base) {ops : List (Operation κ υ)} {m' : Contents κ υ}
    {reads : List (Option υ)} (hrun : m.run ops = .ok (m', reads))
    (hfree : ∀ op ∈ ops, s.set.locks.holder? op.key = none) (haccountable : s'.Accountable)
    (hholds : s'.set.items.Holds m') (howns : s'.Owns = s.Owns) (hlog : s'.log? = s.log?) :
    Advances base s' (l.settle ops reads) := by
  have hnot : ∀ op ∈ ops, ∀ name, ¬ s.Owns name op.key := fun op hop =>
    not_owns_of_holder?_eq_none (hfree op hop)
  obtain ⟨base', hbase, hagree⟩ :=
    Contents.run_of_agree hrun fun op hop => (h.free _ (hnot op hop)).symm
  have hm : ∀ name k, s.Owns name k → m' k = m k := fun name k hk =>
    Contents.run_of_ne hrun fun op hop heq => hnot op hop name (heq ▸ hk)
  have hkept : ∀ name k, s.Owns name k → base' k = base k := fun name k hk =>
    Contents.run_of_ne hbase fun op hop heq => hnot op hop name (heq ▸ hk)
  have hlength : reads.length = ops.length := Contents.length_of_run hrun
  refine ⟨m', base', ⟨haccountable, hholds, ?_, ?_, ?_, ?_⟩, ?_⟩
  · rw [Ledger.settle, List.map_append, List.map_append, List.map_fst_zip hlength.ge,
      List.map_snd_zip hlength.le, Contents.run_append h.settled, hbase]
  · rw [howns]
    exact fun k hk => (hagree k (h.free k hk).symm).symm
  · rw [howns, hlog]
    exact fun name undo hopen => (h.tied name undo hopen).congr (hm name) (hkept name)
  · rw [hlog]
    exact h.closed
  · rw [howns]
    exact hkept

/-- A call that commits or is refused as a transaction is. -/
theorem transact (h : Balanced s l m base) {ops : List (Operation κ υ)}
    {reply : Outcome υ → Reply κ υ} {c : Command κ υ} (hc : s.perform c = s.transact ops reply)
    (hcommitted : ∀ m' reads, m.run ops = .ok (m', reads) →
      l.note c (reply ⟨.ofCommitted ops, reads⟩) = l.settle ops reads)
    (hrefused : ∀ r : Refusal, l.note c (reply (.aborted r.code ops.length)) = l) :
    Advances base (s.perform c).1 (l.note c (s.perform c).2) := by
  have haccountable := h.accountable.perform c
  rcases LockingSet.tryExecute_cases h.holds h.accountable.not_call ops with
    ⟨m', reads, items, hrun, hfree, htry, hholds⟩ | ⟨r, htry⟩
  · rw [hc, LockingSession.transact, LockingSet.execute, htry] at haccountable ⊢
    dsimp only at haccountable ⊢
    rw [hcommitted m' reads hrun]
    exact h.settle hrun hfree haccountable hholds (owns_eq_of_locks rfl) (log?_eq_of_opened rfl)
  · rw [hc, LockingSession.transact, LockingSet.execute, htry] at haccountable ⊢
    dsimp only at haccountable ⊢
    rw [hrefused r]
    exact h.of_eq haccountable rfl (owns_eq_of_locks rfl) (log?_eq_of_opened rfl)

/-- A call without waiting advances the ledger. -/
theorem tryExecute (h : Balanced s l m base) (ops : List (Operation κ υ)) :
    Advances base (s.perform (.tryExecute ops)).1
      (l.note (.tryExecute ops) (s.perform (.tryExecute ops)).2) := by
  have haccountable := h.accountable.perform (.tryExecute ops)
  rcases LockingSet.tryExecute_cases h.holds h.accountable.not_call ops with
    ⟨m', reads, items, hrun, hfree, htry, hholds⟩ | ⟨r, htry⟩
  · rw [LockingSession.perform, htry] at haccountable ⊢
    exact h.settle hrun hfree haccountable hholds (owns_eq_of_locks rfl) (log?_eq_of_opened rfl)
  · rw [LockingSession.perform, htry] at haccountable ⊢
    exact h.of_eq haccountable rfl (owns_eq_of_locks rfl) (log?_eq_of_opened rfl)

/-! ### Parts of private transactions -/

/-- More keys are locked, which were free. -/
theorem lock (h : Balanced s l m base) (name : String) (ops : List (Operation κ υ)) :
    Advances base (s.perform (.lock name ops)).1 l := by
  have hitems : (s.perform (.lock name ops)).1.set.items = s.set.items := by
    rw [LockingSession.perform]
    cases s.log? name <;> rfl
  have hlogs : (s.perform (.lock name ops)).1.log? = s.log? := by
    refine log?_eq_of_opened ?_
    rw [LockingSession.perform]
    cases s.log? name <;> rfl
  refine ⟨m, base, ⟨h.accountable.perform _, hitems ▸ h.holds, h.settled, ?_, ?_, ?_⟩,
    fun _ _ _ => rfl⟩
  · exact fun k hk => h.free k fun x howns => hk x (howns.lock name ops)
  · intro x undo hopen
    rw [hlogs] at hopen
    refine (h.tied x undo hopen).mono (fun k howns => howns.lock name ops) fun k howns hnot => ?_
    obtain ⟨hfree, -⟩ := (owns_of_lock howns).resolve_left hnot
    exact h.free k (not_owns_of_holder?_eq_none hfree)
  · rw [hlogs]
    exact h.closed

/-- An operation is applied to a locked key, or fails. -/
theorem apply (h : Balanced s l m base) (name : String) (i : Nat) (op : Operation κ υ)
    (hallowed : s.Allowed (.apply name i op)) :
    Advances base (s.perform (.apply name i op)).1
      (l.note (.apply name i op) (s.perform (.apply name i op)).2) := by
  have haccountable := h.accountable.perform (.apply name i op)
  rw [LockingSession.perform] at haccountable ⊢
  cases hlog : s.log? name with
  | none => exact h.of_eq h.accountable rfl rfl rfl
  | some undo =>
      simp only [hlog] at haccountable ⊢
      rcases LockingSet.apply_cases h.holds undo i op with
        ⟨-, happly⟩ | ⟨held, items, log, hafter, happly, hholds, hkeys, reads, hrun⟩
      · rw [happly] at haccountable ⊢
        refine h.of_eq haccountable rfl (owns_eq_of_locks rfl) ?_
        funext x
        rw [log?_cons_others]
        by_cases hx : x = name
        · rw [if_pos hx, hx, hlog]
        · rw [if_neg hx]
      · rw [happly] at haccountable ⊢
        have howns : s.Owns name op.key := hallowed (by rw [hlog]; rfl)
        have hother : ∀ k, ¬ s.Owns name k → m.set op.key held k = m k := fun k hk =>
          Contents.set_of_ne m (by rintro rfl; exact hk howns) held
        refine ⟨m.set op.key held, base, ⟨haccountable, hholds, h.settled, ?_, ?_, ?_⟩,
          fun _ _ _ => rfl⟩
        · exact fun k hk => (hother k (hk name)).trans (h.free k hk)
        · intro x undo' hopen
          rw [log?_cons_others] at hopen
          by_cases hx : x = name
          · subst hx
            rw [if_pos rfl] at hopen
            obtain rfl := Option.some.inj hopen
            rw [Ledger.note, Ledger.pending_add_self]
            exact (h.tied x undo hlog).apply howns hafter hkeys hrun
          · rw [if_neg hx] at hopen
            rw [Ledger.note, Ledger.pending_add_of_ne _ hx]
            exact (h.tied x undo' hopen).congr
              (fun k hk => hother k fun hk' => hx (hk.eq hk')) fun _ _ => rfl
        · intro x hclosed
          rw [log?_cons_others] at hclosed
          by_cases hx : x = name
          · simp [hx] at hclosed
          · rw [if_neg hx] at hclosed
            rw [Ledger.note, Ledger.pending_add_of_ne _ hx]
            exact h.closed x hclosed

/-- What a commit would settle, also if nothing is open under the name. -/
theorem commit (h : Balanced s l m base) (name : String) :
    ∃ base', base.run ((l.pending name).map Prod.fst) = .ok (base', (l.pending name).map Prod.snd) ∧
      (∀ k, s.Owns name k → base' k = m k) ∧ ∀ k, ¬ s.Owns name k → base' k = base k := by
  cases hlog : s.log? name with
  | some undo => exact (h.tied name undo hlog).commit
  | none =>
      rw [h.closed name hlog]
      exact ⟨base, rfl, fun k hk => absurd hk (h.accountable.holder?_ne hlog k), fun _ _ => rfl⟩

/-- **A private transaction ends and keeps its changes.** -/
theorem close (h : Balanced s l m base) {name : String}
    (hfrees : s.set.locks.Frees s'.set.locks (.owner name)) (haccountable : s'.Accountable)
    (hitems : s'.set.items = s.set.items) (hlog : ∀ x, x ≠ name → s'.log? x = s.log? x)
    (hnew : ∀ undo, s'.log? name = some undo → undo = []) :
    Advances base s' (l.close name) := by
  obtain ⟨base', hrun, howned, hkept⟩ := h.commit name
  have hother : ∀ x k, x ≠ name → s.Owns x k → base' k = base k := fun x k hx hk =>
    hkept k fun hk' => hx (hk.eq hk')
  refine ⟨m, base', ⟨haccountable, hitems ▸ h.holds, ?_, ?_, ?_, ?_⟩, ?_⟩
  · rw [Ledger.close, List.map_append, List.map_append, Contents.run_append h.settled, hrun]
  · intro k hk
    by_cases hname : s.Owns name k
    · exact (howned k hname).symm
    · rw [hkept k hname]
      exact h.free k ((owns_or_of_frees hfrees hk).resolve_left hname)
  · intro x undo hopen
    by_cases hx : x = name
    · subst hx
      rw [hnew undo hopen, Ledger.pending_close_self]
      exact Tied.start fun k hk => absurd hk (not_owns_of_frees hfrees)
    · rw [hlog x hx] at hopen
      rw [owns_of_frees hfrees hx, Ledger.pending_close_of_ne _ hx]
      exact (h.tied x undo hopen).congr (fun _ _ => rfl) (hother x · hx)
  · intro x hclosed
    by_cases hx : x = name
    · rw [hx, Ledger.pending_close_self]
    · rw [Ledger.pending_close_of_ne _ hx]
      exact h.closed x (hlog x hx ▸ hclosed)
  · intro x k hk
    by_cases hx : x = name
    · exact absurd (hx ▸ hk) (not_owns_of_frees hfrees)
    · rw [owns_of_frees hfrees hx] at hk
      exact hother x k hx hk

/-- **An abort** of an open transaction succeeds, and puts what is committed back at its keys; if
nothing is open under the name, there are no such keys. -/
theorem abort (h : Balanced s l m base) (name : String) :
    ∃ m', ((s.log? name).isSome → (s.perform (.abort name)).2 = .done) ∧
      Balanced (s.perform (.abort name)).1 (l.drop name) m' base ∧
      (∀ k, s.Owns name k → m' k = base k) ∧ ∀ k, ¬ s.Owns name k → m' k = m k := by
  cases hopen : s.log? name with
  | none =>
      rw [LockingSession.perform, hopen, Ledger.drop_eq_self l (h.closed name hopen)]
      exact ⟨m, fun hsome => (by cases hsome), h,
        fun k hk => absurd hk (h.accountable.holder?_ne hopen k), fun _ _ => rfl⟩
  | some undo =>
      obtain ⟨m', items, hroll, hholds, howned, hkept⟩ := (h.tied name undo hopen).rollback h.holds
      have haccountable := h.accountable.perform (.abort name)
      have hfrees := h.accountable.frees_of_end (c := .abort name) (Or.inr rfl)
      simp only [LockingSession.perform, hopen, LockingSet.abort, hroll, if_true]
        at haccountable hfrees ⊢
      refine ⟨m', fun _ => trivial, ⟨haccountable, hholds, h.settled, ?_, ?_, ?_⟩, howned, hkept⟩
      · intro k hk
        by_cases hname : s.Owns name k
        · exact howned k hname
        · rw [hkept k hname]
          exact h.free k ((owns_or_of_frees hfrees hk).resolve_left hname)
      · intro x undo' hopen'
        rw [log?_others] at hopen'
        by_cases hx : x = name
        · simp [hx] at hopen'
        · rw [if_neg hx] at hopen'
          rw [owns_of_frees hfrees hx, Ledger.pending_drop_of_ne _ hx]
          exact (h.tied x undo' hopen').congr
            (fun k hk => hkept k fun hk' => hx (hk.eq hk')) fun _ _ => rfl
      · intro x hclosed
        rw [log?_others] at hclosed
        by_cases hx : x = name
        · rw [hx, Ledger.pending_drop_self]
        · rw [if_neg hx] at hclosed
          rw [Ledger.pending_drop_of_ne _ hx]
          exact h.closed x hclosed

/-- A transaction has locked the keys of its operations. -/
theorem owns_of_pending (h : Balanced s l m base) {name : String}
    {e : Operation κ υ × Option υ} (he : e ∈ l.pending name) : s.Owns name e.1.key := by
  cases hopen : s.log? name with
  | none =>
      rw [h.closed name hopen] at he
      cases he
  | some undo => exact (h.tied name undo hopen).owned_of_done e he

/-- What is there is what is committed, at a key on which no operation is pending. -/
theorem eq_of_ne (h : Balanced s l m base) {name : String} {k : κ} (hk : s.Owns name k)
    (hne : ∀ e ∈ l.pending name, e.1.key ≠ k) : m k = base k := by
  cases hopen : s.log? name with
  | none => exact absurd hk (h.accountable.holder?_ne hopen k)
  | some undo => exact (h.tied name undo hopen).eq_of_ne hk hne

/-! ### Every command -/

/-- A call of a single operation. -/
theorem single (h : Balanced s l m base) {op : Operation κ υ} {reply : Outcome υ → Reply κ υ}
    {c : Command κ υ} (hc : s.perform c = s.transact [op] reply)
    (hcommitted : ∀ held, op.after? (m op.key) = some held →
      l.note c (reply ⟨.ofCommitted [op], [op.readOf held]⟩) = l.settle [op] [op.readOf held])
    (hrefused : ∀ r : Refusal, l.note c (reply (.aborted r.code 1)) = l) :
    Advances base (s.perform c).1 (l.note c (s.perform c).2) := by
  refine h.transact hc (fun m' reads hrun => ?_) hrefused
  rw [Contents.run_singleton] at hrun
  cases hop : op.after? (m op.key) with
  | none => simp [hop] at hrun
  | some held =>
      simp only [hop, Except.ok.injEq, Prod.mk.injEq] at hrun
      obtain ⟨-, rfl⟩ := hrun
      exact hcommitted held hop

/-- **Every command keeps the ledger balanced.** -/
theorem perform (h : Balanced s l m base) {c : Command κ υ} (hallowed : s.Allowed c) :
    Advances base (s.perform c).1 (l.note c (s.perform c).2) := by
  cases c with
  | execute ops =>
      refine h.transact rfl (fun m' reads _ => ?_) fun r => ?_
      · rw [Ledger.note, Outcome.isCommitted, if_pos (Code.isCommitted_ofCommitted ops)]
      · rw [Ledger.note, Outcome.isCommitted, Outcome.aborted, r.isCommitted_code]
        rfl
  | find k =>
      refine h.single rfl (fun held hheld => ?_) fun _ => rfl
      obtain ⟨-, hsome⟩ := Operation.after?_eq_of_isFind rfl hheld
      obtain ⟨v, rfl⟩ := Option.isSome_iff_exists.mp hsome
      rfl
  | insert k v =>
      refine h.single rfl (fun held _ => rfl) fun r => ?_
      rw [Outcome.isCommitted, Outcome.aborted, r.isCommitted_code]
      rfl
  | delete k =>
      refine h.single rfl (fun held _ => rfl) fun r => ?_
      rw [Outcome.isCommitted, Outcome.aborted, r.isCommitted_code]
      rfl
  | tryExecute ops => exact h.tryExecute ops
  | entries => exact h.of_eq h.accountable rfl rfl rfl
  | tally => exact h.of_eq h.accountable rfl rfl rfl
  | resetTally => exact h.of_eq (h.accountable.perform .resetTally) rfl rfl rfl
  | hold k =>
      have hrest : (s.perform (.hold k)).1.set.items = s.set.items ∧
          (s.perform (.hold k)).1.opened = s.opened := by
        rw [LockingSession.perform]
        split <;> exact ⟨rfl, rfl⟩
      exact h.of_eq (h.accountable.perform (.hold k)) hrest.1 (s.owns_hold k)
        (log?_eq_of_opened hrest.2)
  | unhold k =>
      exact h.of_eq (h.accountable.perform (.unhold k)) rfl (h.accountable.owns_unhold k) rfl
  | begin name =>
      refine h.close (h.accountable.exclusive.frees_releaseAll (.owner name))
        (h.accountable.perform (.begin name)) rfl (fun x hx => ?_) fun undo hopen => ?_
      · rw [LockingSession.perform, log?_cons_others, if_neg hx]
      · rw [LockingSession.perform, log?_cons_others, if_pos rfl] at hopen
        exact (Option.some.inj hopen).symm
  | lock name ops => exact h.lock name ops
  | apply name i op => exact h.apply name i op hallowed
  | commit name =>
      have hfrees := h.accountable.frees_of_end (c := .commit name) (Or.inl rfl)
      have haccountable := h.accountable.perform (.commit name)
      rw [LockingSession.perform] at hfrees haccountable ⊢
      cases hopen : s.log? name with
      | none =>
          simp only [hopen] at hfrees haccountable ⊢
          refine h.close hfrees haccountable rfl (fun _ _ => rfl) fun undo hundo => ?_
          rw [hopen] at hundo
          cases hundo
      | some undo =>
          simp only [hopen] at hfrees haccountable ⊢
          refine h.close hfrees haccountable rfl (fun x hx => ?_) fun undo hundo => ?_
          · rw [log?_others, if_neg hx]
          · rw [log?_others, if_pos rfl] at hundo
            cases hundo
  | abort name =>
      obtain ⟨m', -, hbalanced, -, -⟩ := h.abort name
      exact ⟨m', base, hbalanced, fun _ _ _ => rfl⟩

end Balanced

/-! ### When a key was locked -/

/-- The transaction of this name got the lock of the key by one of the commands, when the key held
`held`, and has had it ever since. -/
def Obtained (timeout : Duration) (cs : List (Command κ υ)) (name : String) (k : κ)
    (held : Option υ) : Prop :=
  ∃ before ops later, cs = before ++ .lock name ops :: later ∧
    (after timeout before).set.locks.holder? k = none ∧ (after timeout before).Shows k held ∧
    ∀ mid rest, later = mid ++ rest → (after timeout (before ++ .lock name ops :: mid)).Owns name k

/-- A key that is still owned after one more command was obtained when it was. -/
theorem Obtained.concat {timeout : Duration} {cs : List (Command κ υ)} {c : Command κ υ}
    {name : String} {k : κ} {held : Option υ} (h : Obtained timeout cs name k held)
    (howns : (after timeout (cs ++ [c])).Owns name k) :
    Obtained timeout (cs ++ [c]) name k held := by
  obtain ⟨before, ops, later, rfl, hfree, hshows, hsince⟩ := h
  have hsplit : (before ++ Command.lock name ops :: later) ++ [c] =
      before ++ .lock name ops :: (later ++ [c]) := by simp
  refine ⟨before, ops, later ++ [c], hsplit, hfree, hshows, fun mid rest hmid => ?_⟩
  rcases List.eq_nil_or_concat rest with rfl | ⟨rest, c', rfl⟩
  · rw [List.append_nil] at hmid
    rw [← hmid, ← hsplit]
    exact howns
  · rw [List.concat_eq_append, ← List.append_assoc] at hmid
    exact hsince mid rest (List.append_inj_left' hmid rfl)

/-- **The ledger is balanced after commands under two-phase locking**, and what is committed at a
locked key is what the key held when it was locked. -/
theorem TwoPhase.balanced {timeout : Duration} {cs : List (Command κ υ)}
    (h : (fresh timeout).TwoPhase cs) :
    ∃ m base, Balanced (after timeout cs) (ledger timeout cs) m base ∧
      ∀ name k, (after timeout cs).Owns name k → Obtained timeout cs name k (base k) := by
  induction cs using List.reverseRecOn with
  | nil =>
      have haccountable : (fresh timeout : LockingSession κ υ).Accountable :=
        (Reachable.fresh timeout).accountable
      refine ⟨.empty, .empty, ⟨haccountable, .fresh, rfl, fun _ _ => rfl, ?_, fun _ _ => rfl⟩, ?_⟩
      · intro name undo hopen
        cases hopen
      · intro name k howns
        cases howns
  | append_singleton cs c ih =>
      obtain ⟨hcs, hc⟩ := twoPhase_concat.mp h
      obtain ⟨m, base, hbalanced, hobtained⟩ := ih hcs
      obtain ⟨m', base', hbalanced', hkept⟩ := hbalanced.perform hc
      rw [after_concat, ledger_concat]
      refine ⟨m', base', hbalanced', fun name k howns => ?_⟩
      rw [hkept name k howns]
      have hafter : (after timeout (cs ++ [c])).Owns name k := by
        rw [after_concat]
        exact howns
      rcases hbalanced.accountable.owns_of_perform howns with hbefore | ⟨hfree, ops, rfl⟩
      · exact (hobtained name k hbefore).concat hafter
      · -- A free key holds what is committed there.
        refine ⟨cs, ops, [], rfl, hfree, ?_, fun mid rest hmid => ?_⟩
        · rw [← hbalanced.free k (not_owns_of_holder?_eq_none hfree)]
          exact hbalanced.shows k
        · obtain ⟨rfl, -⟩ := List.append_eq_nil_iff.mp hmid.symm
          exact hafter

/-! ### Atomic and serializable -/

/-- Transactions are atomic, and those that have committed are as if run one after another. -/
structure Serialized (timeout : Duration) (cs : List (Command κ υ)) : Prop where
  /-- To abort an open transaction is never a fault. -/
  abort_done : ∀ name, ((after timeout cs).log? name).isSome →
    ((after timeout cs).perform (.abort name)).2 = .done
  /-- It gives each key that the transaction has locked what the key held when it was locked. -/
  restored : ∀ name k, (after timeout cs).Owns name k → ∃ held, Obtained timeout cs name k held ∧
    ((after timeout cs).perform (.abort name)).1.Shows k held
  /-- The transaction has locked the keys of its operations. -/
  locked : ∀ name, ∀ e ∈ (ledger timeout cs).pending name, (after timeout cs).Owns name e.1.key
  /-- An abort leaves all other keys alone. -/
  unchanged : ∀ name k, (∀ e ∈ (ledger timeout cs).pending name, e.1.key ≠ k) → ∀ v,
    (k, v) ∈ ((after timeout cs).perform (.abort name)).1.set.entries ↔
      (k, v) ∈ (after timeout cs).set.entries
  /-- The operations of the committed transactions, run in the order of the commits, read what they
  have read, and leave what there is at all keys that no private transaction has locked. -/
  replayed : ∃ base,
    Contents.empty.run ((ledger timeout cs).settled.map Prod.fst) =
      .ok (base, (ledger timeout cs).settled.map Prod.snd) ∧
    (∀ k, (∀ name, ¬ (after timeout cs).Owns name k) → (after timeout cs).Shows k (base k)) ∧
    ((after timeout cs).opened = [] → base.Lists (after timeout cs).set.entries)

/-- **Two-phase locking makes transactions atomic and serializable.** -/
theorem TwoPhase.serialized {timeout : Duration} {cs : List (Command κ υ)}
    (h : (fresh timeout).TwoPhase cs) : Serialized timeout cs := by
  obtain ⟨m, base, hbalanced, hobtained⟩ := h.balanced
  refine ⟨fun name hopen => ?_, fun name k howns => ?_, fun name e he => ?_,
    fun name k hne v => ?_, base, hbalanced.settled, fun k hk => ?_, fun hopened => ?_⟩
  · obtain ⟨m', hdone, -⟩ := hbalanced.abort name
    exact hdone hopen
  · obtain ⟨m', -, haborted, howned, -⟩ := hbalanced.abort name
    refine ⟨base k, hobtained name k howns, ?_⟩
    rw [← howned k howns]
    exact haborted.shows k
  · exact hbalanced.owns_of_pending he
  · obtain ⟨m', -, haborted, howned, hkept⟩ := hbalanced.abort name
    rw [haborted.shows k v, hbalanced.shows k v]
    by_cases howns : (after timeout cs).Owns name k
    · rw [howned k howns, hbalanced.eq_of_ne howns hne]
    · rw [hkept k howns]
  · rw [← hbalanced.free k hk]
    exact hbalanced.shows k
  · have hsame : m = base := by
      funext k
      refine hbalanced.free k fun name => hbalanced.accountable.holder?_ne ?_ k
      rw [log?, hopened]
      rfl
    rw [← hsame]
    exact hbalanced.holds.lists_entries

/-- Two private transactions on neighbouring keys; one has committed, and so has a call, while the
other has replaced the value of one key and inserted another. -/
def interleaved : List (Command Nat Nat) :=
  [.insert 2 20, .begin "a", .lock "a" [.insert 1 10, .delete 2], .apply "a" 0 (.insert 1 10),
    .begin "b", .lock "b" [.insert 3 30], .apply "b" 0 (.insert 3 30), .apply "a" 1 (.delete 2),
    .execute [.insert 4 40], .apply "a" 2 (.insert 2 21), .apply "a" 3 (.find 1), .commit "b"]

/-- The open transaction can be aborted, and the others stay. -/
theorem serialized_interleaved : (fresh (.ofMilliseconds 100)).TwoPhase interleaved ∧
    (after (.ofMilliseconds 100) interleaved).set.entries = [(1, 10), (2, 21), (3, 30), (4, 40)] ∧
    ((after (.ofMilliseconds 100) interleaved).perform (.abort "a")).1.set.entries =
      [(2, 20), (3, 30), (4, 40)] ∧
    (ledger (.ofMilliseconds 100) interleaved).settled =
      [(.insert 2 20, none), (.insert 4 40, none), (.insert 3 30, none)] ∧
    Serialized (.ofMilliseconds 100) interleaved := by
  have h : (fresh (.ofMilliseconds 100)).TwoPhase interleaved := by decide
  exact ⟨h, by rfl, by rfl, by rfl, TwoPhase.serialized h⟩

end LockingSession

end AtomicSet
