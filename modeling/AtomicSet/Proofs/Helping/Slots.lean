import AtomicSet.Helping.Cleanup
import AtomicSet.Helping.Attempt

/-!
# What is written to transactions

The registry changes in three ways: a transaction is added, an active one is decided, and the slot
of an operation is filled. Each of the lemmas here says what one write leaves in a slot or in a
status, for every transaction and every position, so that nothing below has to open the writes
again.

## Main results

* `Store.effect?_publish`, `Store.read?_publish` — what publishing leaves in the slots.
* `Store.isActive_settle`, `Store.status_settle` — what deciding a transaction leaves.
-/

namespace AtomicSet

variable {κ υ : Type}

namespace Transaction

/-- Deciding a transaction does not change its identifier. -/
@[simp] theorem id_finalize (t : Transaction κ υ) (final : Status) :
    (t.finalize final).id = t.id := by
  rw [finalize]
  split <;> rfl

/-- Deciding a transaction does not touch what it has on record of its insertions. -/
@[simp] theorem effect?_finalize (t : Transaction κ υ) (final : Status) (i : Nat) :
    (t.finalize final).effect? i = t.effect? i := by
  rw [finalize]
  split <;> rfl

/-- Deciding a transaction does not touch what it has on record of its lookups. -/
@[simp] theorem read?_finalize (t : Transaction κ υ) (final : Status) (i : Nat) :
    (t.finalize final).read? i = t.read? i := by
  rw [finalize]
  split <;> rfl

/-- An operation stands at a position below the size. -/
theorem lt_size_of_op? {t : Transaction κ υ} {i : Nat} {op : Operation κ υ}
    (h : t.op? i = some op) : i < t.size := by
  rw [← Nat.not_le, ← op?_eq_none_iff, h]
  exact Option.some_ne_none op

/-- Transactions with the same operations have the same operation at each position. -/
theorem op?_congr {t t' : Transaction κ υ} (h : t'.ops = t.ops) (i : Nat) :
    t'.op? i = t.op? i := by
  rw [op?_eq, op?_eq, h]

/-- Transactions with the same operations have the same kind at each position. -/
theorem kind?_congr {t t' : Transaction κ υ} (h : t'.ops = t.ops) (i : Nat) :
    t'.kind? i = t.kind? i := by
  rw [kind?, kind?, op?_congr h]

/-- A record of an effect fills one empty slot. -/
theorem effect?_recordEffect {t : Transaction κ υ} {i : Nat} {op : Operation κ υ}
    (h : t.op? i = some op) (node : NodeId) (j : Nat) :
    (t.recordEffect i node).effect? j =
      if j = i then (t.effect? j).or (some node) else t.effect? j := by
  simp only [recordEffect, effect?, List.getElem?_modify]
  by_cases hj : j = i
  · obtain ⟨step, hstep, -⟩ := Option.map_eq_some_iff.mp h
    simp [hj, hstep]
  · simp [hj, Ne.symm hj]

/-- A record of a read fills one empty slot. -/
theorem read?_recordRead {t : Transaction κ υ} {i : Nat} {op : Operation κ υ}
    (h : t.op? i = some op) (v : υ) (j : Nat) :
    (t.recordRead i v).read? j = if j = i then (t.read? j).or (some v) else t.read? j := by
  simp only [recordRead, read?, List.getElem?_modify]
  by_cases hj : j = i
  · obtain ⟨step, hstep, -⟩ := Option.map_eq_some_iff.mp h
    simp [hj, hstep]
  · simp [hj, Ne.symm hj]

/-- A record of an effect leaves what was read. -/
@[simp] theorem read?_recordEffect (t : Transaction κ υ) (i : Nat) (node : NodeId) (j : Nat) :
    (t.recordEffect i node).read? j = t.read? j := by
  simp only [recordEffect, read?, List.getElem?_modify]
  cases t.steps[j]? <;> by_cases h : i = j <;> simp [h]

/-- A record of a value leaves the effects. -/
@[simp] theorem effect?_recordRead (t : Transaction κ υ) (i : Nat) (v : υ) (j : Nat) :
    (t.recordRead i v).effect? j = t.effect? j := by
  simp only [recordRead, effect?, List.getElem?_modify]
  cases t.steps[j]? <;> by_cases h : i = j <;> simp [h]

/-- An update that changes nothing at its position changes nothing. -/
private theorem steps_modify_eq_self {steps : List (Step κ υ)} {i : Nat}
    {f : Step κ υ → Step κ υ} (h : ∀ step, steps[i]? = some step → f step = step) :
    steps.modify i f = steps := by
  refine List.ext_getElem? fun j => ?_
  rw [List.getElem?_modify]
  by_cases hij : i = j
  · subst hij
    cases hstep : steps[i]? with
    | none => rfl
    | some step => simp [h step hstep]
  · simp [hij]

/-- Nothing is recorded over an effect. -/
theorem recordEffect_of_effect? {t : Transaction κ υ} {i : Nat} {id : NodeId}
    (h : t.effect? i = some id) (node : NodeId) : t.recordEffect i node = t := by
  rw [recordEffect, steps_modify_eq_self]
  intro step hstep
  rw [effect?, hstep, Option.bind_some] at h
  rw [h, Option.some_or, ← h]

/-- Nothing is recorded over a read. -/
theorem recordRead_of_read? {t : Transaction κ υ} {i : Nat} {w : υ} (h : t.read? i = some w)
    (v : υ) : t.recordRead i v = t := by
  rw [recordRead, steps_modify_eq_self]
  intro step hstep
  rw [read?, hstep, Option.bind_some] at h
  rw [h, Option.some_or, ← h]

/-- A new transaction has nothing in its slots. -/
theorem effect?_ofOperations (id : Nat) (ops : List (Operation κ υ)) (i : Nat) :
    (ofOperations id ops).effect? i = none := by
  simp only [ofOperations, effect?, List.getElem?_map]
  cases ops[i]? <;> rfl

/-- A new transaction has read nothing. -/
theorem read?_ofOperations (id : Nat) (ops : List (Operation κ υ)) (i : Nat) :
    (ofOperations id ops).read? i = none := by
  simp only [ofOperations, read?, List.getElem?_map]
  cases ops[i]? <;> rfl

/-- The reads are what the positions have read. -/
theorem reads_eq_map_range (t : Transaction κ υ) : t.reads = (List.range t.size).map t.read? := by
  refine List.ext_getElem ?_ fun i hi _ => ?_
  · simp [reads, size]
  · have hlt : i < t.steps.length := by simpa [reads] using hi
    simp [reads, read?, hlt]

/-- The effects on record, by position. -/
theorem effects_eq_map_range (t : Transaction κ υ) :
    (t.steps.map fun s => s.effect.isSome) =
      (List.range t.size).map fun i => (t.effect? i).isSome := by
  refine List.ext_getElem ?_ fun i hi _ => ?_
  · simp [size]
  · have hlt : i < t.steps.length := by simpa using hi
    simp [effect?, hlt]

end Transaction

namespace Registry

/-- To be active is a status. -/
theorem isActive_iff {r : Registry κ υ} {t : TxnRef} :
    r.isActive t = true ↔ (r.get t).status = .active := by
  simp [isActive, Transaction.isActive]

/-- A transaction that is not active is committed or aborted. -/
theorem decided_of_not_active {r : Registry κ υ} {t : TxnRef} (h : r.isActive t = false) :
    r.status t = .committed ∨ r.status t = .aborted := by
  rw [isActive, Transaction.isActive, decide_eq_false_iff_not] at h
  rw [status]
  cases hstatus : (r.get t).status with
  | active => exact absurd hstatus h
  | committed => exact Or.inl rfl
  | aborted => exact Or.inr rfl

/-- Whoever has an operation is in the registry. -/
theorem lt_size_of_op? {r : Registry κ υ} {t : TxnRef} {i : Nat} {op : Operation κ υ}
    (h : (r.get t).op? i = some op) : t < r.size := by
  rw [← Nat.not_le]
  intro hle
  rw [get_of_size_le hle] at h
  cases h

/-- A write to a transaction with an operation is seen by whoever refers to it. -/
theorem get_modify_of_op? {r : Registry κ υ} {t : TxnRef} {i : Nat} {op : Operation κ υ}
    (h : (r.get t).op? i = some op) (f : Transaction κ υ → Transaction κ υ) (u : TxnRef) :
    (r.modify t f).get u = if u = t then f (r.get u) else r.get u := by
  rw [get_modify]
  by_cases hu : u = t
  · subst hu
    simp [lt_size_of_op? h]
  · simp [hu, Ne.symm hu]

/-- A write that changes nothing. -/
theorem modify_eq_self {r : Registry κ υ} {t : TxnRef} {f : Transaction κ υ → Transaction κ υ}
    (h : f (r.get t) = r.get t) : r.modify t f = r := by
  obtain ⟨txns⟩ := r
  rw [modify, mk.injEq]
  refine Array.ext Array.size_modify fun i _ hi => ?_
  rw [Array.getElem_modify]
  by_cases heq : t = i
  · subst heq
    rw [if_pos rfl]
    simpa [get, Array.getD, hi] using h
  · rw [if_neg heq]

end Registry

namespace Store

/-! ### Publishing -/

/-- Only insertions have an effect on record. -/
theorem effect?_noteEffect (s : Store κ υ) (t : TxnRef) (i : Nat) (id : NodeId) (u : TxnRef)
    (j : Nat) :
    ((s.noteEffect t i id).registry.get u).effect? j =
      if u = t ∧ j = i ∧ (s.registry.get t).kind? i = some .insert then
        ((s.registry.get u).effect? j).or (some id)
      else (s.registry.get u).effect? j := by
  rw [noteEffect]
  by_cases hkind : (s.registry.get t).kind? i = some .insert
  · rw [if_pos hkind]
    obtain ⟨op, hop, -⟩ := Option.map_eq_some_iff.mp hkind
    rw [modifyTxn, Registry.get_modify_of_op? hop]
    by_cases hu : u = t
    · subst hu
      rw [if_pos rfl, Transaction.effect?_recordEffect hop]
      simp [hkind]
    · simp [hu]
  · simp [hkind]

/-- Noting an effect writes no read and no identifier. -/
theorem read?_noteEffect (s : Store κ υ) (t : TxnRef) (i : Nat) (id : NodeId) (u : TxnRef)
    (j : Nat) :
    ((s.noteEffect t i id).registry.get u).read? j = (s.registry.get u).read? j := by
  rw [noteEffect]
  split
  · rw [modifyTxn, Registry.get_modify]
    split <;> simp
  · rfl

/-- A note of an effect leaves all identifiers. -/
@[simp] theorem id_noteEffect (s : Store κ υ) (t : TxnRef) (i : Nat) (id : NodeId) (u : TxnRef) :
    ((s.noteEffect t i id).registry.get u).id = (s.registry.get u).id := by
  rw [noteEffect]
  split
  · rw [modifyTxn, Registry.get_modify]
    split <;> rfl
  · rfl

section Publish

variable {s : Store κ υ} {t : TxnRef} {i : Nat} {op : Operation κ υ}

/-- **Publishing an insertion** puts its node on record, if none is. -/
theorem effect?_publish (h : (s.registry.get t).op? i = some op) (id : NodeId)
    (after : Option υ) (u : TxnRef) (j : Nat) :
    ((s.publish t i op id after).registry.get u).effect? j =
      if u = t ∧ j = i ∧ op.kind = .insert then ((s.registry.get u).effect? j).or (some id)
      else (s.registry.get u).effect? j := by
  have hkind : (s.registry.get t).kind? i = some op.kind := by rw [Transaction.kind?, h]; rfl
  cases op with
  | insert k v =>
      rw [publish, effect?_noteEffect, hkind]
      simp [Operation.kind]
  | find k =>
      cases after with
      | none => simp [publish, Operation.kind]
      | some v =>
          rw [publish, modifyTxn, Registry.get_modify]
          split <;> simp [Operation.kind]
  | delete k => simp [publish, Operation.kind]

/-- **Publishing a lookup** puts what it read on record, if nothing is. -/
theorem read?_publish (h : (s.registry.get t).op? i = some op) (id : NodeId)
    (after : Option υ) (u : TxnRef) (j : Nat) :
    ((s.publish t i op id after).registry.get u).read? j =
      if u = t ∧ j = i ∧ op.isFind then ((s.registry.get u).read? j).or after
      else (s.registry.get u).read? j := by
  cases op with
  | insert k v =>
      rw [publish, read?_noteEffect]
      simp [Operation.isFind, Operation.kind]
  | find k =>
      cases after with
      | none => simp [publish, Operation.isFind, Operation.kind]
      | some v =>
          rw [publish, modifyTxn, Registry.get_modify_of_op? h]
          by_cases hu : u = t
          · subst hu
            rw [if_pos rfl, Transaction.read?_recordRead h]
            simp [Operation.isFind, Operation.kind]
          · simp [hu]
  | delete k => simp [publish, Operation.isFind, Operation.kind]

/-- Publishing leaves all identifiers. -/
@[simp] theorem id_publish (s : Store κ υ) (t : TxnRef) (i : Nat) (op : Operation κ υ)
    (id : NodeId) (after : Option υ) (u : TxnRef) :
    ((s.publish t i op id after).registry.get u).id = (s.registry.get u).id := by
  cases op with
  | insert k v => exact id_noteEffect ..
  | find k =>
      cases after with
      | none => rfl
      | some v =>
          rw [publish, modifyTxn, Registry.get_modify]
          split <;> rfl
  | delete k => rfl

/-- To publish what is on record changes nothing. -/
theorem publish_of_recorded
    (heffect : op.kind = .insert → ∃ id, (s.registry.get t).effect? i = some id)
    (hread : op.isFind → ∃ v, (s.registry.get t).read? i = some v) (id : NodeId)
    (after : Option υ) : s.publish t i op id after = s := by
  cases op with
  | insert k v =>
      obtain ⟨id', hid⟩ := heffect rfl
      rw [publish, noteEffect, modifyTxn,
        Registry.modify_eq_self (Transaction.recordEffect_of_effect? hid id)]
      split <;> rfl
  | find k =>
      obtain ⟨w, hw⟩ := hread rfl
      cases after with
      | none => rfl
      | some v =>
          rw [publish, modifyTxn, Registry.modify_eq_self (Transaction.recordRead_of_read? hw v)]
  | delete k => rfl

/-- To note the effect of an operation is to publish it with nothing read. -/
theorem noteEffect_eq_publish (h : (s.registry.get t).op? i = some op) (id : NodeId) :
    s.noteEffect t i id = s.publish t i op id none := by
  cases op with
  | insert k v => rfl
  | find k =>
      rw [noteEffect, Transaction.kind?, h]
      rfl
  | delete k =>
      rw [noteEffect, Transaction.kind?, h]
      rfl

end Publish

/-- Noting an effect writes to the registry only. -/
theorem noteEffect_eq (s : Store κ υ) (t : TxnRef) (i : Nat) (id : NodeId) :
    s.noteEffect t i id = { s with registry := (s.noteEffect t i id).registry } := by
  rw [noteEffect]
  split <;> rfl

/-- Publishing writes to the registry only. -/
theorem publish_eq (s : Store κ υ) (t : TxnRef) (i : Nat) (op : Operation κ υ) (id : NodeId)
    (after : Option υ) :
    s.publish t i op id after = { s with registry := (s.publish t i op id after).registry } := by
  cases op with
  | insert k v => exact noteEffect_eq ..
  | find k => cases after <;> rfl
  | delete k => rfl

/-- Publishing leaves the chain. -/
@[simp] theorem chain_publish (s : Store κ υ) (t : TxnRef) (i : Nat) (op : Operation κ υ)
    (id : NodeId) (after : Option υ) : (s.publish t i op id after).chain = s.chain := by
  rw [publish_eq]

/-- A note of an effect leaves the chain. -/
@[simp] theorem chain_noteEffect (s : Store κ υ) (t : TxnRef) (i : Nat) (id : NodeId) :
    (s.noteEffect t i id).chain = s.chain := by
  rw [noteEffect_eq]

/-- Publishing does not count. -/
@[simp] theorem tally_publish (s : Store κ υ) (t : TxnRef) (i : Nat) (op : Operation κ υ)
    (id : NodeId) (after : Option υ) : (s.publish t i op id after).tally = s.tally := by
  rw [publish_eq]

/-- A note of an effect does not count. -/
@[simp] theorem tally_noteEffect (s : Store κ υ) (t : TxnRef) (i : Nat) (id : NodeId) :
    (s.noteEffect t i id).tally = s.tally := by
  rw [noteEffect_eq]

/-- Publishing what another thread did leaves the chain. -/
@[simp] theorem chain_republish (s : Store κ υ) (t : TxnRef) (i : Nat) (op : Operation κ υ)
    (n : Node κ υ) : (s.republish t i op n).chain = s.chain := by
  rw [republish]
  split
  · rfl
  · exact chain_publish ..

/-! ### Deciding -/

/-- **To decide a transaction** gives it its status, if it is active, and no other one. -/
theorem status_settle (s : Store κ υ) (t : TxnRef) (final : Status) (fake : Bool) (u : TxnRef) :
    ((s.settle t final fake).registry.get u).status =
      if u = t ∧ s.registry.isActive t then final else (s.registry.get u).status := by
  rw [get_settle]
  by_cases hu : u = t
  · subst hu
    simp only [if_true, Transaction.finalize, Registry.isActive, true_and]
    split <;> rfl
  · simp [hu, Ne.symm hu]

/-- A transaction that was active and is over once `t` has been decided is `t`, and has the status
that `t` was to get. -/
theorem eq_of_status_settle {s : Store κ υ} {t u : TxnRef} {final st : Status} {fake : Bool}
    (hactive : s.registry.isActive u) (hst : st ≠ .active)
    (h : (s.settle t final fake).registry.status u = st) : u = t ∧ st = final := by
  have hstatus : (s.registry.get u).status = .active := Registry.isActive_iff.mp hactive
  rw [Registry.status, status_settle] at h
  by_cases hcase : u = t ∧ s.registry.isActive t
  · rw [if_pos hcase] at h
    exact ⟨hcase.1, h.symm⟩
  · rw [if_neg hcase, hstatus] at h
    exact absurd h.symm hst

/-- After a transaction is decided, the others are as active as before. -/
theorem isActive_settle {final : Status} (hfinal : final ≠ .active) (s : Store κ υ) (t : TxnRef)
    (fake : Bool) (u : TxnRef) :
    (s.settle t final fake).registry.isActive u = (decide (u ≠ t) && s.registry.isActive u) := by
  rw [Registry.isActive, Transaction.isActive, status_settle]
  by_cases hu : u = t
  · subst hu
    by_cases hactive : s.registry.isActive u
    · simp [hactive, hfinal]
    · rw [Registry.isActive_iff] at hactive
      simp [Registry.isActive_iff, hactive]
  · simp [hu, Registry.isActive, Transaction.isActive]

/-- Deciding a transaction leaves all operations. -/
@[simp] theorem ops_settle (s : Store κ υ) (t : TxnRef) (final : Status) (fake : Bool)
    (u : TxnRef) : ((s.settle t final fake).registry.get u).ops = (s.registry.get u).ops := by
  rw [get_settle]
  split <;> simp

/-- Deciding a transaction leaves all identifiers. -/
@[simp] theorem id_settle (s : Store κ υ) (t : TxnRef) (final : Status) (fake : Bool)
    (u : TxnRef) : ((s.settle t final fake).registry.get u).id = (s.registry.get u).id := by
  rw [get_settle]
  split <;> simp

/-- Deciding a transaction leaves all effects on record. -/
@[simp] theorem effect?_settle (s : Store κ υ) (t : TxnRef) (final : Status) (fake : Bool)
    (u : TxnRef) (i : Nat) :
    ((s.settle t final fake).registry.get u).effect? i = (s.registry.get u).effect? i := by
  rw [get_settle]
  split <;> simp

/-- Deciding a transaction leaves all values on record. -/
@[simp] theorem read?_settle (s : Store κ υ) (t : TxnRef) (final : Status) (fake : Bool)
    (u : TxnRef) (i : Nat) :
    ((s.settle t final fake).registry.get u).read? i = (s.registry.get u).read? i := by
  rw [get_settle]
  split <;> simp

/-- Deciding a transaction leaves the chain. -/
@[simp] theorem chain_settle (s : Store κ υ) (t : TxnRef) (final : Status) (fake : Bool) :
    (s.settle t final fake).chain = s.chain := by
  rw [settle]
  split <;> rfl

/-- Deciding a transaction makes no node. -/
@[simp] theorem nextNode_settle (s : Store κ υ) (t : TxnRef) (final : Status) (fake : Bool) :
    (s.settle t final fake).nextNode = s.nextNode := by
  rw [settle]
  split <;> rfl

/-- Deciding an active transaction counts it. -/
theorem tally_settle {s : Store κ υ} {t : TxnRef} (hactive : s.registry.isActive t)
    (final : Status) (fake : Bool) : (s.settle t final fake).tally =
      if final = .committed then s.tally.commit else s.tally.abort fake := by
  rw [settle, if_pos hactive]

end Store

end AtomicSet
