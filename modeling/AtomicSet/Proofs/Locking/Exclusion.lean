import AtomicSet.Locking.Session
import AtomicSet.Proofs.Locking.Transactions

/-!
# Key locks are exclusive and never leak

Whatever is asked of a session, no key is ever held twice, and all that hold keys are the outsider
and open private transactions: a transaction of one call frees its keys again on every way out. A
private transaction that locks gets the keys of its operations in ascending order up to the first
one that is not free, and its end frees what it holds and nothing else, even if the rollback fails
halfway.

## Main definitions

* `LockTable.Exclusive` — no key is held twice.
* `LockTable.Frees` — the keys of one holder are free, and all others are held as before.
* `LockingSession.Reachable` — what any commands in any order lead to.
* `LockingSession.Accountable` — who holds keys.
* `LockingSession.Guarded` — what each command does to the locks.

## Main results

* `LockTable.acquireAll_spec` — the keys that are locked are the longest prefix of free ones.
* `LockTable.Exclusive.frees_releaseAll` — what a holder held is free, and nothing else.
* `LockingSet.locks_tryExecute` — a transaction of one call leaves the locks as they were.
* `LockingSession.Accountable.perform` — every command keeps locks accounted for.
* `LockingSession.Reachable.guarded` — all of it, for every session.
-/

namespace AtomicSet

variable {κ υ η : Type} [LinearOrder κ]

namespace LockTable

/-- No key is held twice. -/
def Exclusive (t : LockTable κ η) : Prop :=
  (t.held.map Prod.fst).Nodup

/-- In `t'` the keys of `h` are free, and all other keys have the holders that they have in `t`. -/
def Frees (t t' : LockTable κ η) (h : η) [DecidableEq η] : Prop :=
  ∀ k, t'.holder? k = if t.holder? k = some h then none else t.holder? k

/-- A key is free exactly if no entry of the table is about it. -/
theorem holder?_eq_none_iff {t : LockTable κ η} {k : κ} :
    t.holder? k = none ↔ ∀ e ∈ t.held, e.1 ≠ k := by
  simp [holder?]

/-- Keys that one holder takes at once. -/
theorem holder?_append_map (held : List (κ × η)) (keys : List κ) (h : η) (x : κ) :
    holder? ⟨held ++ keys.map fun k => (k, h)⟩ x =
      (holder? ⟨held⟩ x).or (if x ∈ keys then some h else none) := by
  induction keys generalizing held with
  | nil => simp
  | cons k keys ih =>
      have hsplit : held ++ (k :: keys).map (fun k => (k, h)) =
          (held ++ [(k, h)]) ++ keys.map fun k => (k, h) := by simp
      rw [hsplit, ih, holder?_append, Option.or_assoc]
      congr 1
      by_cases hx : x = k
      · simp [hx]
      · simp [hx, Ne.symm hx]

namespace Exclusive

variable {t : LockTable κ η} {k : κ} {h : η}

/-- In an exclusive table, the holder of a key is the one in its only entry. -/
theorem holder?_eq_some_iff (ht : t.Exclusive) : t.holder? k = some h ↔ (k, h) ∈ t.held := by
  rw [holder?, Option.map_eq_some_iff]
  constructor
  · rintro ⟨⟨x, h'⟩, hfind, rfl⟩
    obtain rfl : x = k := by simpa using List.find?_some hfind
    exact List.mem_of_find?_eq_some hfind
  · intro hmem
    cases hfind : t.held.find? fun e => e.1 = k with
    | none =>
        have hnone := List.find?_eq_none.mp hfind (k, h) hmem
        simp at hnone
    | some e =>
        have hkey : e.1 = k := by simpa using List.find?_some hfind
        exact ⟨e, rfl, congrArg Prod.snd
          (List.inj_on_of_nodup_map ht (List.mem_of_find?_eq_some hfind) hmem hkey)⟩

omit [LinearOrder κ] in
/-- An exclusive table stays so when entries are taken away. -/
theorem filter (ht : t.Exclusive) (p : κ × η → Bool) : Exclusive ⟨t.held.filter p⟩ :=
  List.Nodup.sublist (List.filter_sublist.map Prod.fst) ht

/-- Taking entries away frees the keys of these entries, and no others. -/
theorem holder?_filter (ht : t.Exclusive) (p : κ × η → Bool) :
    holder? ⟨t.held.filter p⟩ k = (t.holder? k).filter fun h => p (k, h) := by
  refine Option.ext fun h => ?_
  rw [(ht.filter p).holder?_eq_some_iff, List.mem_filter, Option.filter_eq_some_iff,
    ht.holder?_eq_some_iff]

/-- A free key may be taken. -/
theorem append (ht : t.Exclusive) (hfree : t.holder? k = none) (h : η) :
    Exclusive ⟨t.held ++ [(k, h)]⟩ := by
  rw [Exclusive, List.map_append, List.nodup_append]
  refine ⟨ht, List.nodup_singleton k, ?_⟩
  rintro x hx y hy rfl
  obtain rfl : x = k := by simpa using hy
  obtain ⟨e, he, hkey⟩ := List.mem_map.mp hx
  exact holder?_eq_none_iff.mp hfree e he hkey

/-- **What a holder held is free**, and nothing else. -/
theorem frees_releaseAll [DecidableEq η] (ht : t.Exclusive) (h : η) :
    t.Frees (t.releaseAll h) h := by
  intro k
  rw [releaseAll, ht.holder?_filter]
  cases t.holder? k with
  | none => rfl
  | some h' => by_cases heq : h' = h <;> simp [heq]

end Exclusive

/-- **The keys that are locked** are the longest prefix of free ones, if no key is asked for
twice. -/
theorem acquireAll_spec (t : LockTable κ η) (h : η) {keys : List κ} (hnodup : keys.Nodup) :
    ∃ got rest, keys = got ++ rest ∧
      t.acquireAll h keys = (⟨t.held ++ got.map fun k => (k, h)⟩, rest.isEmpty) ∧
      (∀ k ∈ got, t.holder? k = none) ∧ ∀ k ∈ rest.head?, t.holder? k ≠ none := by
  induction keys generalizing t with
  | nil => exact ⟨[], [], rfl, by simp [acquireAll], by simp, by simp⟩
  | cons k keys ih =>
      obtain ⟨hnot, hnodup⟩ := List.nodup_cons.mp hnodup
      cases hk : t.holder? k with
      | some h' =>
          refine ⟨[], k :: keys, rfl, ?_, by simp, by simp [hk]⟩
          simp [acquireAll, acquire, hk]
      | none =>
          obtain ⟨got, rest, rfl, hall, hgot, hrest⟩ := ih ⟨t.held ++ [(k, h)]⟩ hnodup
          -- The other keys are not this one, so taking it does not matter to them.
          have hother : ∀ x ∈ got ++ rest, holder? ⟨t.held ++ [(k, h)]⟩ x = t.holder? x := by
            intro x hx
            have hne : k ≠ x := fun heq => hnot (heq ▸ hx)
            rw [holder?_append, if_neg hne, Option.or_none]
          refine ⟨k :: got, rest, rfl, ?_, fun x hx => ?_, fun x hx => ?_⟩
          · simp only [acquireAll, acquire, hk, hall]
            simp
          · rcases List.mem_cons.mp hx with rfl | hx
            · exact hk
            · rw [← hother x (List.mem_append_left rest hx)]
              exact hgot x hx
          · rw [← hother x (List.mem_append_right got (List.mem_of_mem_head? hx))]
            exact hrest x hx

/-- An exclusive table stays so when keys are acquired one after another. -/
theorem Exclusive.acquireAll {t : LockTable κ η} (ht : t.Exclusive) (h : η) (keys : List κ) :
    (t.acquireAll h keys).1.Exclusive := by
  induction keys generalizing t with
  | nil => exact ht
  | cons k keys ih =>
      rw [LockTable.acquireAll, acquire]
      cases hk : t.holder? k with
      | some h' => exact ht
      | none => exact ih (ht.append hk h)

end LockTable

namespace LockingSet

variable (s : LockingSet κ υ)

/-! ### Transactions of one call -/

/-- An operation takes and frees no lock. -/
theorem locks_apply (undo : List (Undo κ υ)) (i : Nat) (op : Operation κ υ) :
    (s.apply undo i op).1.locks = s.locks := by
  cases op with
  | find k =>
      rw [apply]
      rcases s.items.get k with ⟨items, _ | v⟩
      · rfl
      · rfl
  | insert k v =>
      rw [apply]
      rcases s.items.insert k v with ⟨items, _ | _⟩
      · rfl
      · rfl
  | delete k =>
      rw [apply]
      rcases s.items.remove k with ⟨items, _ | v⟩
      · rfl
      · rfl

/-- Applying operations leaves the locks. -/
theorem locks_applyAll (undo : List (Undo κ υ)) (i : Nat) (ops : List (Operation κ υ)) :
    (s.applyAll undo i ops).1.locks = s.locks := by
  induction ops generalizing s undo i with
  | nil => rfl
  | cons op ops ih =>
      have hop := s.locks_apply undo i op
      rw [applyAll]
      generalize s.apply undo i op = applied at hop
      obtain ⟨s₁, undo₁, r | read⟩ := applied
      · exact hop
      · have hops := ih s₁ undo₁ (i + 1)
        dsimp only
        generalize s₁.applyAll undo₁ (i + 1) ops = applied at hops
        obtain ⟨s₂, undo₂, r | reads⟩ := applied
        · exact hops.trans hop
        · exact hops.trans hop

/-- An abort frees what its holder holds, whatever becomes of the undo log. -/
theorem locks_abort (h : Holder) (undo : List (Undo κ υ)) :
    (s.abort h undo).1.locks = s.locks.releaseAll h :=
  rfl

/-- A call that is given up frees what it holds. -/
theorem locks_giveUp (undo : List (Undo κ υ)) (r : Refusal) :
    (s.giveUp undo r).1.locks = s.locks.releaseAll .call := by
  rw [giveUp, ← s.locks_abort .call undo]
  rcases s.abort .call undo with ⟨s', _ | _⟩
  · rfl
  · rfl

/-- The locks that are taken for the keys of operations. -/
theorem locks_lock (h : Holder) (ops : List (Operation κ υ)) :
    ∃ got rest, ascending (ops.map Operation.key) = got ++ rest ∧
      s.lock h ops = ({ s with locks := ⟨s.locks.held ++ got.map fun k => (k, h)⟩ },
        if rest.isEmpty then .ok () else .error (.lockTimeout s.timeout)) ∧
      (∀ k ∈ got, s.locks.holder? k = none) ∧ ∀ k ∈ rest.head?, s.locks.holder? k ≠ none := by
  have hnodup : (ascending (ops.map Operation.key)).Nodup :=
    (pairwise_ascending _).imp fun hlt => ne_of_lt hlt
  obtain ⟨got, rest, hkeys, hall, hgot, hrest⟩ := s.locks.acquireAll_spec h hnodup
  refine ⟨got, rest, hkeys, ?_, hgot, hrest⟩
  rw [lock]
  simp only [hall]

/-- **A transaction of one call leaves the locks as they were**, whatever becomes of it. -/
theorem locks_tryExecute (hcall : ∀ e ∈ s.locks.held, e.2 ≠ .call) (ops : List (Operation κ υ)) :
    (s.tryExecute ops).1.locks = s.locks := by
  obtain ⟨got, rest, -, hlock, -, -⟩ := s.locks_lock .call ops
  have hfree : (s.lock .call ops).1.locks.releaseAll .call = s.locks := by
    rw [hlock]
    exact releaseAll_call hcall got
  rw [tryExecute]
  generalize s.lock .call ops = locked at hfree
  obtain ⟨s₁, r | _⟩ := locked
  · exact (s₁.locks_giveUp [] r).trans hfree
  · have hall := s₁.locks_applyAll [] 0 ops
    dsimp only
    generalize s₁.applyAll [] 0 ops = applied at hall
    obtain ⟨s₂, undo, r | reads⟩ := applied
    · exact (s₂.locks_giveUp undo r).trans ((congrArg (·.releaseAll .call) hall).trans hfree)
    · exact (congrArg (·.releaseAll .call) hall).trans hfree

/-- A call leaves the locks as they were. -/
theorem locks_execute (hcall : ∀ e ∈ s.locks.held, e.2 ≠ .call) (ops : List (Operation κ υ)) :
    (s.execute ops).1.locks = s.locks := by
  have htry := s.locks_tryExecute hcall ops
  rw [execute]
  generalize s.tryExecute ops = tried at htry
  obtain ⟨s₁, (r | fault) | reads⟩ := tried
  · exact htry
  · exact htry
  · exact htry

end LockingSet

namespace LockingSession

/-- What any commands, in any order, lead to, on a set with any time limit. -/
inductive Reachable : LockingSession κ υ → Prop where
  | fresh (timeout : Duration) : Reachable { set := { timeout } }
  | perform {s : LockingSession κ υ} (h : Reachable s) (c : Command κ υ) :
      Reachable (s.perform c).1

/-! ### Open private transactions -/

section Opened

variable {set : LockingSet κ υ} {s : LockingSession κ υ} {name x : String} {undo : List (Undo κ υ)}

omit [LinearOrder κ] in
/-- Without the transaction of a name, the other ones have the logs they had. -/
theorem log?_others :
    log? ⟨set, s.others name⟩ x = if x = name then none else s.log? x := by
  rw [log?, log?, others, List.find?_filter]
  by_cases hx : x = name
  · simp [hx]
  · rw [if_neg hx]
    congr 2
    funext e
    by_cases he : e.1 = x
    · simp [he, hx]
    · simp [he]

omit [LinearOrder κ] in
/-- A transaction is opened anew in place of the one of its name. -/
theorem log?_cons_others :
    log? ⟨set, (name, undo) :: s.others name⟩ x = if x = name then some undo else s.log? x := by
  have hothers : log? ⟨set, s.others name⟩ x = if x = name then none else s.log? x := log?_others
  rw [log?] at hothers ⊢
  by_cases hx : x = name
  · simp [hx]
  · rw [if_neg hx] at hothers ⊢
    rw [← hothers, List.find?_cons_of_neg (by simpa using Ne.symm hx)]

end Opened

/-- A call changes nothing but the set. -/
theorem fst_transact (s : LockingSession κ υ) (ops : List (Operation κ υ))
    (reply : Outcome υ → Reply κ υ) :
    (s.transact ops reply).1 = { s with set := (s.set.execute ops).1 } := by
  rw [transact]
  generalize s.set.execute ops = executed
  obtain ⟨set, fault | o⟩ := executed
  · rfl
  · rfl

/-- A call without waiting changes nothing but the set. -/
theorem fst_tryExecute (s : LockingSession κ υ) (ops : List (Operation κ υ)) :
    (s.perform (.tryExecute ops)).1 = { s with set := (s.set.tryExecute ops).1 } := by
  rw [perform]
  generalize s.set.tryExecute ops = tried
  obtain ⟨set, (r | fault) | reads⟩ := tried
  · rfl
  · rfl
  · rfl

/-! ### Who holds keys -/

/-- No key is held twice, and nobody holds keys but the outsider and open private transactions. -/
structure Accountable (s : LockingSession κ υ) : Prop where
  exclusive : s.set.locks.Exclusive
  holders : ∀ e ∈ s.set.locks.held,
    e.2 = .outsider ∨ ∃ name, e.2 = .owner name ∧ (s.log? name).isSome

/-- The commands that lock nothing, or that run a whole transaction. -/
def LeavesLocks : Command κ υ → Prop
  | .execute _ | .find _ | .insert _ _ | .delete _ | .tryExecute _ => True
  | .entries | .tally | .resetTally | .apply _ _ _ => True
  | .hold _ | .unhold _ | .begin _ | .lock _ _ | .commit _ | .abort _ => False

namespace Accountable

variable {s : LockingSession κ υ}

omit [LinearOrder κ] in
/-- Between two commands no key is held by a call. -/
theorem not_call (h : s.Accountable) : ∀ e ∈ s.set.locks.held, e.2 ≠ .call := by
  intro e he heq
  rcases h.holders e he with houtsider | ⟨name, howner, -⟩
  · cases heq.symm.trans houtsider
  · cases heq.symm.trans howner

/-- Nobody holds keys for a private transaction that is not open. -/
theorem holder?_ne (h : s.Accountable) {name : String} (hclosed : s.log? name = none) (k : κ) :
    s.set.locks.holder? k ≠ some (.owner name) := by
  intro hholder
  rcases h.holders _ (h.exclusive.holder?_eq_some_iff.mp hholder) with
    houtsider | ⟨name', howner, hopen⟩
  · cases houtsider
  · obtain rfl := Holder.owner.inj howner
    rw [hclosed] at hopen
    cases hopen

/-- **Whole transactions leave the locks as they were**, and so does what locks nothing. -/
theorem locks_perform (h : s.Accountable) {c : Command κ υ} (hc : LeavesLocks c) :
    (s.perform c).1.set.locks = s.set.locks := by
  have htransact : ∀ ops (reply : Outcome υ → Reply κ υ),
      (s.transact ops reply).1.set.locks = s.set.locks := fun ops reply => by
    rw [fst_transact]
    exact s.set.locks_execute h.not_call ops
  cases c with
  | execute ops => exact htransact ops _
  | find k => exact htransact _ _
  | insert k v => exact htransact _ _
  | delete k => exact htransact _ _
  | tryExecute ops =>
      rw [fst_tryExecute]
      exact s.set.locks_tryExecute h.not_call ops
  | entries => rfl
  | tally => rfl
  | resetTally => rfl
  | apply name i op =>
      rw [perform]
      cases s.log? name with
      | none => rfl
      | some undo => exact s.set.locks_apply undo i op
  | hold k => cases hc
  | unhold k => cases hc
  | begin name => cases hc
  | lock name ops => cases hc
  | commit name => cases hc
  | abort name => cases hc

omit [LinearOrder κ] in
/-- Fewer keys may be held, as long as those who hold the others stay open. -/
theorem of_filter (h : s.Accountable) {s' : LockingSession κ υ} (p : κ × Holder → Bool)
    (hlocks : s'.set.locks = ⟨s.set.locks.held.filter p⟩)
    (hopen : ∀ e ∈ s.set.locks.held, p e → ∀ name, e.2 = .owner name → (s.log? name).isSome →
      (s'.log? name).isSome) : s'.Accountable where
  exclusive := by
    rw [hlocks]
    exact h.exclusive.filter p
  holders e he := by
    rw [hlocks, List.mem_filter] at he
    exact (h.holders e he.1).imp_right fun ⟨name, howner, hisSome⟩ =>
      ⟨name, howner, hopen e he.1 he.2 name howner hisSome⟩

omit [LinearOrder κ] in
/-- More keys may be held by one who is entitled to. -/
theorem of_append (h : s.Accountable) {s' : LockingSession κ υ}
    (hexclusive : s'.set.locks.Exclusive) (keys : List κ) {holder : Holder}
    (hlocks : s'.set.locks.held = s.set.locks.held ++ keys.map fun k => (k, holder))
    (hopened : s'.opened = s.opened)
    (hholder : holder = .outsider ∨ ∃ name, holder = .owner name ∧ (s.log? name).isSome) :
    s'.Accountable where
  exclusive := hexclusive
  holders e he := by
    have hlog : ∀ name, s'.log? name = s.log? name := fun name => by rw [log?, log?, hopened]
    simp only [hlog]
    rw [hlocks, List.mem_append, List.mem_map] at he
    rcases he with he | ⟨k, -, rfl⟩
    · exact h.holders e he
    · exact hholder

omit [LinearOrder κ] in
/-- The locks stay, and so do the open private transactions. -/
theorem of_eq (h : s.Accountable) {s' : LockingSession κ υ} (hlocks : s'.set.locks = s.set.locks)
    (hopen : ∀ name, (s.log? name).isSome → (s'.log? name).isSome) : s'.Accountable where
  exclusive := hlocks ▸ h.exclusive
  holders e he := (h.holders e (hlocks ▸ he)).imp_right fun ⟨name, howner, hisSome⟩ =>
    ⟨name, howner, hopen name hisSome⟩

omit [LinearOrder κ] in
/-- To end a private transaction frees its keys, so that nobody else is left unaccounted for. -/
theorem of_releaseAll (h : s.Accountable) {s' : LockingSession κ υ} (name : String)
    (hlocks : s'.set.locks = s.set.locks.releaseAll (.owner name))
    (hopen : ∀ x, x ≠ name → (s.log? x).isSome → (s'.log? x).isSome) : s'.Accountable :=
  h.of_filter _ hlocks fun e _ hp x howner hisSome => by
    refine hopen x ?_ hisSome
    rintro rfl
    simp [howner] at hp

/-- **Every command keeps locks accounted for.** -/
theorem perform (h : s.Accountable) (c : Command κ υ) : (s.perform c).1.Accountable := by
  have hleaves : LeavesLocks c → (s.perform c).1.opened = s.opened → (s.perform c).1.Accountable :=
    fun hc hopened => h.of_eq (h.locks_perform hc) fun name hopen => by
      rw [log?, hopened]
      exact hopen
  cases c with
  | execute ops => exact hleaves trivial (by rw [LockingSession.perform, fst_transact])
  | find k => exact hleaves trivial (by rw [LockingSession.perform, fst_transact])
  | insert k v => exact hleaves trivial (by rw [LockingSession.perform, fst_transact])
  | delete k => exact hleaves trivial (by rw [LockingSession.perform, fst_transact])
  | tryExecute ops => exact hleaves trivial (by rw [fst_tryExecute])
  | entries => exact h
  | tally => exact h
  | resetTally => exact h.of_eq rfl fun _ => id
  | apply name i op =>
      refine h.of_eq (h.locks_perform trivial) fun x hopen => ?_
      rw [LockingSession.perform]
      cases hlog : s.log? name with
      | none => exact hopen
      | some undo =>
          dsimp only
          rw [log?_cons_others]
          split
          · rfl
          · exact hopen
  | hold k =>
      rw [LockingSession.perform, LockTable.acquire]
      cases hk : s.set.locks.holder? k with
      | some holder => exact h
      | none =>
          exact h.of_append (h.exclusive.append hk .outsider) [k] rfl rfl (Or.inl rfl)
  | unhold k =>
      rw [LockingSession.perform]
      by_cases hk : s.set.locks.holder? k = some .outsider
      · simp only [LockTable.releaseOwn, hk, if_true]
        exact h.of_filter (fun e => e.1 ≠ k) rfl fun _ _ _ _ _ => id
      · simp only [LockTable.releaseOwn, hk, if_false]
        exact h
  | begin name =>
      refine h.of_releaseAll name rfl fun x hx hopen => ?_
      rw [LockingSession.perform, log?_cons_others, if_neg hx]
      exact hopen
  | lock name ops =>
      rw [LockingSession.perform]
      cases hlog : s.log? name with
      | none => exact h
      | some undo =>
          obtain ⟨got, rest, -, hlock, -⟩ := s.set.locks_lock (.owner name) ops
          have hexclusive :=
            h.exclusive.acquireAll (.owner name) (ascending (ops.map Operation.key))
          exact h.of_append hexclusive got (by dsimp only; rw [hlock]) rfl
            (Or.inr ⟨name, rfl, by rw [hlog]; rfl⟩)
  | commit name =>
      rw [LockingSession.perform]
      cases hlog : s.log? name with
      | none => exact h
      | some undo =>
          refine h.of_releaseAll name rfl fun x hx hopen => ?_
          rw [log?_others, if_neg hx]
          exact hopen
  | abort name =>
      rw [LockingSession.perform]
      cases hlog : s.log? name with
      | none => exact h
      | some undo =>
          refine h.of_releaseAll name rfl fun x hx hopen => ?_
          dsimp only
          rw [log?_others, if_neg hx]
          exact hopen

end Accountable

/-- Whatever is asked of a session, its locks can be accounted for. -/
theorem Reachable.accountable {s : LockingSession κ υ} (h : s.Reachable) : s.Accountable := by
  induction h with
  | fresh timeout => exact ⟨List.nodup_nil, fun e he => by cases he⟩
  | perform _ c ih => exact ih.perform c

/-! ### What commands do to locks -/

/-- An open private transaction gets the longest prefix of free keys, of the distinct keys of the
operations in ascending order, and is told whether these are all. -/
def LocksPrefix (s : LockingSession κ υ) (name : String) (ops : List (Operation κ υ)) : Prop :=
  ∃ keys got rest result count,
    keys.Pairwise (· < ·) ∧ (∀ k, k ∈ keys ↔ ∃ op ∈ ops, op.key = k) ∧ keys = got ++ rest ∧
    (∀ k ∈ got, s.set.locks.holder? k = none) ∧
    (∀ k ∈ rest.head?, s.set.locks.holder? k ≠ none) ∧
    (∀ k, (s.perform (.lock name ops)).1.set.locks.holder? k =
      if k ∈ got then some (.owner name) else s.set.locks.holder? k) ∧
    (s.perform (.lock name ops)).2 = .locked result count ∧ (result = .ok () ↔ rest = [])

/-- The outsider gets the key if nobody holds it. -/
def TakesIfFree (s : LockingSession κ υ) (k : κ) : Prop :=
  ∃ got, (s.perform (.hold k)).2 = .flag got ∧ (got = true ↔ s.set.locks.holder? k = none) ∧
    ∀ x, (s.perform (.hold k)).1.set.locks.holder? x =
      if x = k ∧ got = true then some .outsider else s.set.locks.holder? x

/-- The outsider frees the key if it holds it. -/
def FreesIfHeld (s : LockingSession κ υ) (k : κ) : Prop :=
  ∃ freed, (s.perform (.unhold k)).2 = .flag freed ∧
    (freed = true ↔ s.set.locks.holder? k = some .outsider) ∧
    ∀ x, (s.perform (.unhold k)).1.set.locks.holder? x =
      if x = k ∧ freed = true then none else s.set.locks.holder? x

/-- No key is held twice or by nobody, and every command does to the locks what it should. -/
structure Guarded (s : LockingSession κ υ) : Prop where
  accountable : s.Accountable
  /-- Whole transactions leave the locks as they are, whatever their outcome. -/
  leaves : ∀ c, LeavesLocks c → (s.perform c).1.set.locks = s.set.locks
  lock : ∀ name ops, (s.log? name).isSome → s.LocksPrefix name ops
  /-- A commit frees the keys of its transaction. -/
  commit : ∀ name, s.set.locks.Frees (s.perform (.commit name)).1.set.locks (.owner name)
  /-- So does an abort, whatever the answer. -/
  abort : ∀ name, s.set.locks.Frees (s.perform (.abort name)).1.set.locks (.owner name)
  /-- So does opening a transaction in place of one of the same name. -/
  begin : ∀ name, s.set.locks.Frees (s.perform (.begin name)).1.set.locks (.owner name)
  hold : ∀ k, s.TakesIfFree k
  unhold : ∀ k, s.FreesIfHeld k

/-- An open transaction gets the free keys up to the first that is held. -/
theorem locksPrefix {s : LockingSession κ υ} {name : String} (hopen : (s.log? name).isSome)
    (ops : List (Operation κ υ)) : s.LocksPrefix name ops := by
  obtain ⟨undo, hlog⟩ := Option.isSome_iff_exists.mp hopen
  obtain ⟨got, rest, hkeys, hlock, hgot, hrest⟩ := s.set.locks_lock (.owner name) ops
  have hperform : s.perform (.lock name ops) =
      ({ s with set := (s.set.lock (.owner name) ops).1 },
        .locked (s.set.lock (.owner name) ops).2
          ((s.set.lock (.owner name) ops).1.locks.keysOf (.owner name)).length) := by
    simp only [perform, hlog]
  rw [LocksPrefix, hperform, hlock]
  refine ⟨_, got, rest, _, _, pairwise_ascending _, fun k => ?_, hkeys, hgot, hrest, fun k => ?_,
    rfl, ?_⟩
  · rw [mem_ascending, List.mem_map]
  · rw [LockTable.holder?_append_map]
    by_cases hmem : k ∈ got
    · rw [if_pos hmem, if_pos hmem, hgot k hmem]
      rfl
    · rw [if_neg hmem, if_neg hmem, Option.or_none]
  · cases rest <;> simp

/-- A key is held for the outsider exactly if it was free. -/
theorem takesIfFree (s : LockingSession κ υ) (k : κ) : s.TakesIfFree k := by
  rw [TakesIfFree, perform, LockTable.acquire]
  cases hk : s.set.locks.holder? k with
  | some holder => exact ⟨false, rfl, by simp, fun x => by simp⟩
  | none =>
      refine ⟨true, rfl, by simp, fun x => ?_⟩
      dsimp only
      rw [LockTable.holder?_append]
      by_cases hx : x = k
      · simp [hx, hk]
      · simp [hx, Ne.symm hx]

namespace Accountable

variable {s : LockingSession κ υ}

/-- A key is freed exactly if it was the outsider who held it. -/
theorem freesIfHeld (h : s.Accountable) (k : κ) : s.FreesIfHeld k := by
  rw [FreesIfHeld, LockingSession.perform]
  by_cases hk : s.set.locks.holder? k = some .outsider
  · simp only [LockTable.releaseOwn, hk, if_true]
    refine ⟨true, rfl, by simp, fun x => ?_⟩
    rw [LockTable.release, h.exclusive.holder?_filter]
    by_cases hx : x = k
    · simp [hx]
    · cases s.set.locks.holder? x <;> simp [hx]
  · simp only [LockTable.releaseOwn, hk, if_false]
    exact ⟨false, rfl, by simp, fun x => by simp⟩

/-- **To end a private transaction**, by a commit or by an abort, frees its keys. If it is not open
there is nothing to free. -/
theorem frees_of_end (h : s.Accountable) {name : String} {c : Command κ υ}
    (hc : c = .commit name ∨ c = .abort name) :
    s.set.locks.Frees (s.perform c).1.set.locks (.owner name) := by
  have hlocks : (s.perform c).1.set.locks =
      if (s.log? name).isSome then s.set.locks.releaseAll (.owner name) else s.set.locks := by
    rcases hc with rfl | rfl
    · rw [LockingSession.perform]
      cases s.log? name <;> rfl
    · rw [LockingSession.perform]
      cases s.log? name <;> rfl
  rw [hlocks]
  cases hlog : s.log? name with
  | none => exact fun k => (if_neg (h.holder?_ne hlog k)).symm
  | some undo => exact h.exclusive.frees_releaseAll (.owner name)

end Accountable

/-- **Key locks are exclusive and never leak**, whatever is asked in whatever order. -/
theorem Reachable.guarded {s : LockingSession κ υ} (h : s.Reachable) : s.Guarded where
  accountable := h.accountable
  leaves _ hc := h.accountable.locks_perform hc
  lock _ ops hopen := locksPrefix hopen ops
  commit _ := h.accountable.frees_of_end (Or.inl rfl)
  abort _ := h.accountable.frees_of_end (Or.inr rfl)
  begin name := h.accountable.exclusive.frees_releaseAll (.owner name)
  hold k := s.takesIfFree k
  unhold k := h.accountable.freesIfHeld k

/-- A private transaction that inserted a key without locking it, which somebody else deleted. -/
def undermined : LockingSession Nat Nat :=
  (performAll perform {} [.begin "a", .apply "a" 0 (.insert 1 10), .delete 1,
    .lock "a" [.find 3, .find 2], .hold 4]).1

/-- To abort it is a fault, and frees the keys that it holds nevertheless. -/
theorem guarded_undermined : undermined.Reachable ∧
    undermined.set.locks.holder? 2 = some (.owner "a") ∧
    (undermined.perform (.abort "a")).2 = .fault .undoFailed ∧
    (undermined.perform (.abort "a")).1.set.locks.holder? 2 = none ∧ undermined.Guarded := by
  have hreachable : undermined.Reachable :=
    (((((Reachable.fresh (.ofMilliseconds 100)).perform (.begin "a")).perform
      (.apply "a" 0 (.insert 1 10))).perform (.delete 1)).perform
      (.lock "a" [.find 3, .find 2])).perform (.hold 4)
  exact ⟨hreachable, by decide, by rfl, by decide, Reachable.guarded hreachable⟩

end LockingSession

end AtomicSet
