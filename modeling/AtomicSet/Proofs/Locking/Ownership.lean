import AtomicSet.Proofs.Locking.Exclusion

/-!
# The keys of a private transaction

A private transaction gets the lock of a key in one way only, by locking the key while nobody holds
it, and loses it in one way only, by its end. What the outsider and the calls do in the meantime
does not matter.

## Main definitions

* `LockingSession.Owns` — a private transaction has the lock of a key.

## Main results

* `LockingSession.owns_of_frees`, `LockingSession.owns_or_of_frees` — when a transaction ends.
* `LockingSession.Owns.lock`, `LockingSession.owns_of_lock` — when one locks.
* `LockingSession.Accountable.owns_of_perform` — only by locking a free key does a transaction get
  it.
-/

namespace AtomicSet

variable {κ υ : Type} [LinearOrder κ]

namespace LockingSession

/-- The private transaction of this name has the lock of the key. -/
def Owns (s : LockingSession κ υ) (name : String) (k : κ) : Prop :=
  s.set.locks.holder? k = some (.owner name)

instance decidableOwns (s : LockingSession κ υ) (name : String) (k : κ) :
    Decidable (s.Owns name k) :=
  inferInstanceAs (Decidable (_ = _))

section Owners

variable {s s' : LockingSession κ υ} {name x : String} {k : κ}

/-- A key has one owner. -/
theorem Owns.eq (h : s.Owns name k) (h' : s.Owns x k) : name = x :=
  Holder.owner.inj (Option.some.inj (h.symm.trans h'))

/-- A free key is in nobody's transaction. -/
theorem not_owns_of_holder?_eq_none (h : s.set.locks.holder? k = none) (name : String) :
    ¬ s.Owns name k := by
  intro howns
  rw [Owns, h] at howns
  cases howns

/-- Sessions with the same locks have the same owners. -/
theorem owns_eq_of_locks (h : s'.set.locks = s.set.locks) : s'.Owns = s.Owns := by
  funext name k
  rw [Owns, Owns, h]

/-! ### Transactions that end

The keys of the transaction are freed, and no others. -/

/-- Who frees everything owns nothing any more. -/
theorem not_owns_of_frees (h : s.set.locks.Frees s'.set.locks (.owner name)) :
    ¬ s'.Owns name k := by
  rw [Owns, h k]
  by_cases hk : s.set.locks.holder? k = some (.owner name)
  · rw [if_pos hk]
    exact Option.some_ne_none _ ∘ Eq.symm
  · rwa [if_neg hk]

/-- When one owner frees everything, the others keep what they own. -/
theorem owns_of_frees (h : s.set.locks.Frees s'.set.locks (.owner name)) (hx : x ≠ name) :
    s'.Owns x = s.Owns x := by
  funext k
  rw [Owns, Owns, h k]
  by_cases hk : s.set.locks.holder? k = some (.owner name)
  · rw [if_pos hk, hk]
    simp [Ne.symm hx]
  · rw [if_neg hk]

/-- A key that is in no transaction afterwards was in this one, or in none. -/
theorem owns_or_of_frees (h : s.set.locks.Frees s'.set.locks (.owner name))
    (hk : ∀ x, ¬ s'.Owns x k) : s.Owns name k ∨ ∀ x, ¬ s.Owns x k := by
  refine or_iff_not_imp_left.mpr fun hname x howns => hk x ?_
  rw [owns_of_frees h]
  · exact howns
  · rintro rfl
    exact hname howns

/-! ### Commands that lock or free one key, or several -/

/-- A key that changes hands, but not from or to a private transaction. -/
theorem owns_eq_of_holder? {p : Prop} [Decidable p] {holder : Option Holder}
    (hholder : ∀ x, s'.set.locks.holder? x = if x = k ∧ p then holder else s.set.locks.holder? x)
    (hbefore : p → ∀ name, ¬ s.Owns name k) (hafter : ∀ name, holder ≠ some (.owner name)) :
    s'.Owns = s.Owns := by
  funext name x
  rw [Owns, hholder x]
  by_cases hx : x = k ∧ p
  · rw [if_pos hx]
    exact propext (iff_of_false (hafter name) (hx.1 ▸ hbefore hx.2 name))
  · rw [if_neg hx]
    rfl

/-- What the outsider holds is owned by nobody, so that the owners stay the same. -/
theorem owns_hold (s : LockingSession κ υ) (k : κ) : (s.perform (.hold k)).1.Owns = s.Owns := by
  obtain ⟨got, -, hgot, hholder⟩ := s.takesIfFree k
  refine owns_eq_of_holder? hholder (fun htaken => ?_) fun name => by simp
  exact not_owns_of_holder?_eq_none (hgot.mp htaken)

/-- What the outsider frees was owned by nobody, so that the owners stay the same. -/
theorem Accountable.owns_unhold (h : s.Accountable) (k : κ) :
    (s.perform (.unhold k)).1.Owns = s.Owns := by
  obtain ⟨freed, -, hfreed, hholder⟩ := h.freesIfHeld k
  refine owns_eq_of_holder? hholder (fun hwas name howns => ?_) fun name => by simp
  rw [Owns, hfreed.mp hwas] at howns
  cases howns

/-- To lock takes no key from a transaction. -/
theorem Owns.lock (h : s.Owns x k) (name : String) (ops : List (Operation κ υ)) :
    (s.perform (.lock name ops)).1.Owns x k := by
  cases hopen : s.log? name with
  | none =>
      rw [perform, hopen]
      exact h
  | some undo =>
      have hisSome : (s.log? name).isSome := by rw [hopen]; rfl
      obtain ⟨-, got, -, -, -, -, -, -, hgot, -, hholder, -, -⟩ := locksPrefix hisSome ops
      rw [Owns, hholder k, if_neg]
      · exact h
      · exact fun hmem => not_owns_of_holder?_eq_none (hgot k hmem) x h

/-- **What a transaction locks was free.** -/
theorem owns_of_lock {ops : List (Operation κ υ)} (h : (s.perform (.lock name ops)).1.Owns x k) :
    s.Owns x k ∨ s.set.locks.holder? k = none ∧ x = name := by
  cases hopen : s.log? name with
  | none =>
      rw [perform, hopen] at h
      exact Or.inl h
  | some undo =>
      have hisSome : (s.log? name).isSome := by rw [hopen]; rfl
      obtain ⟨-, got, -, -, -, -, -, -, hgot, -, hholder, -, -⟩ := locksPrefix hisSome ops
      rw [Owns, hholder k] at h
      by_cases hmem : k ∈ got
      · rw [if_pos hmem] at h
        exact Or.inr ⟨hgot k hmem, (Holder.owner.inj (Option.some.inj h)).symm⟩
      · rw [if_neg hmem] at h
        exact Or.inl h

/-- **Only by locking a free key** does a transaction get it. -/
theorem Accountable.owns_of_perform (h : s.Accountable) {c : Command κ υ}
    (howns : (s.perform c).1.Owns name k) :
    s.Owns name k ∨ s.set.locks.holder? k = none ∧ ∃ ops, c = .lock name ops := by
  have hleaves : LeavesLocks c → s.Owns name k := fun hc =>
    owns_eq_of_locks (h.locks_perform hc) ▸ howns
  have hended : ∀ x, s.set.locks.Frees (s.perform c).1.set.locks (.owner x) → s.Owns name k := by
    intro x hfrees
    by_cases hx : name = x
    · exact absurd (hx ▸ howns) (not_owns_of_frees hfrees)
    · exact owns_of_frees hfrees hx ▸ howns
  cases c with
  | execute ops => exact Or.inl (hleaves trivial)
  | find k' => exact Or.inl (hleaves trivial)
  | insert k' v => exact Or.inl (hleaves trivial)
  | delete k' => exact Or.inl (hleaves trivial)
  | entries => exact Or.inl (hleaves trivial)
  | tally => exact Or.inl (hleaves trivial)
  | resetTally => exact Or.inl (hleaves trivial)
  | tryExecute ops => exact Or.inl (hleaves trivial)
  | hold k' => exact Or.inl (s.owns_hold k' ▸ howns)
  | unhold k' => exact Or.inl (h.owns_unhold k' ▸ howns)
  | begin x => exact Or.inl (hended x (h.exclusive.frees_releaseAll (.owner x)))
  | lock x ops =>
      rcases owns_of_lock howns with hbefore | ⟨hfree, rfl⟩
      · exact Or.inl hbefore
      · exact Or.inr ⟨hfree, ops, rfl⟩
  | apply x i op => exact Or.inl (hleaves trivial)
  | commit x => exact Or.inl (hended x (h.frees_of_end (Or.inl rfl)))
  | abort x => exact Or.inl (hended x (h.frees_of_end (Or.inr rfl)))

end Owners

end LockingSession

end AtomicSet
