import AtomicSet.Contents
import Mathlib.Data.List.Sort
import Mathlib.Order.Lattice

/-!
# A transaction, one key at a time

Operations on different keys do not see each other, so a transaction can be replayed for each key
on its own: `replay k ops held` is what `k` holds after those of the operations that are about it,
or `none` if one of them must fail. A run on the whole map succeeds exactly if every key's replay
does, and its reads are those of the replays (`run_eq_ok_iff`). This is the form in which both
engines carry a transaction out: what they store is about single keys.

## Main definitions

* `Operation.replay` — the operations about one key.
* `Operation.readOf` — what an operation reads that leaves a key with some content.
* `Contents.readsOf` — the reads of a run, from the replays.

## Main results

* `Contents.run_eq_ok_iff` — a run, key by key.
* `Contents.run_eq_error`, `Contents.exists_of_run_eq_error` — the position at which a run fails.
* `Contents.Lists.unique` — a map has one list of entries.
-/

namespace AtomicSet

variable {κ υ : Type} [DecidableEq κ]

namespace Operation

/-- What the key `k` holds after those operations that are about it, in order, if it holds `held`
before them; `none` if one of them must fail. -/
def replay (k : κ) : List (Operation κ υ) → Option υ → Option (Option υ)
  | [], held => some held
  | op :: ops, held =>
    if op.key = k then (op.after? held).bind (replay k ops) else replay k ops held

/-- What the operation reads if its key holds `held` after it. -/
def readOf (op : Operation κ υ) (held : Option υ) : Option υ :=
  if op.isFind then held else none

/-- Operations one after another act on a key one after another. -/
theorem replay_append (k : κ) (ops ops' : List (Operation κ υ)) (held : Option υ) :
    replay k (ops ++ ops') held = (replay k ops held).bind (replay k ops') := by
  induction ops generalizing held with
  | nil => rfl
  | cons op ops ih =>
      simp only [List.cons_append, replay]
      split
      · cases op.after? held with
        | none => rfl
        | some held' => exact ih held'
      · exact ih held

/-- Operations on other keys do not matter. -/
theorem replay_of_ne {k : κ} {ops : List (Operation κ υ)} (h : ∀ op ∈ ops, op.key ≠ k)
    (held : Option υ) : replay k ops held = some held := by
  induction ops with
  | nil => rfl
  | cons op ops ih =>
      rw [replay, if_neg (h op List.mem_cons_self)]
      exact ih fun op' hop' => h op' (List.mem_cons_of_mem op hop')

/-- One operation more. -/
theorem replay_take_succ {k : κ} {ops : List (Operation κ υ)} {i : Nat} {op : Operation κ υ}
    (hop : ops[i]? = some op) (held : Option υ) :
    replay k (ops.take (i + 1)) held =
      (replay k (ops.take i) held).bind fun x => if op.key = k then op.after? x else some x := by
  rw [List.take_add_one, hop, replay_append]
  congr 1
  funext x
  simp only [Option.toList_some, replay]
  split
  · cases op.after? x <;> rfl
  · rfl

/-- A replay that succeeds has succeeded at every earlier position. -/
theorem replay_take_of_le {k : κ} {ops : List (Operation κ υ)} {i j : Nat} (hij : i ≤ j)
    {held x : Option υ} (h : replay k (ops.take j) held = some x) :
    ∃ y, replay k (ops.take i) held = some y := by
  have hsplit : ops.take j = ops.take i ++ (ops.take j).drop i := by
    rw [show ops.take i = (ops.take j).take i by rw [List.take_take, Nat.min_eq_left hij],
      List.take_append_drop]
  rw [hsplit, replay_append] at h
  obtain ⟨y, hy, -⟩ := Option.bind_eq_some_iff.mp h
  exact ⟨y, hy⟩

/-- Between two positions without an operation on `k` the replay stands still. -/
theorem replay_take_eq {k : κ} {ops : List (Operation κ υ)} {i j : Nat} (hij : i ≤ j)
    (h : ∀ l op, i ≤ l → l < j → ops[l]? = some op → op.key ≠ k) (held : Option υ) :
    replay k (ops.take j) held = replay k (ops.take i) held := by
  induction j, hij using Nat.le_induction with
  | base => rfl
  | succ j hij ih =>
      rw [← ih fun l op hil hlj => h l op hil (by omega)]
      cases hop : ops[j]? with
      | none =>
          rw [List.take_add_one, hop, Option.toList_none, List.append_nil]
      | some op =>
          have hne : op.key ≠ k := h j op hij (by omega) hop
          rw [replay_take_succ hop]
          simp only [hne, if_false]
          cases replay k (ops.take j) held <;> rfl

omit [DecidableEq κ] in
/-- A lookup that succeeds leaves its key as it is, and there is something to read. -/
theorem after?_eq_of_isFind {op : Operation κ υ} (h : op.isFind) {held after : Option υ}
    (hafter : op.after? held = some after) : after = held ∧ after.isSome := by
  cases op with
  | find k =>
      cases held with
      | none => cases hafter
      | some v =>
          cases hafter
          exact ⟨rfl, rfl⟩
  | insert k v => simp [isFind, kind] at h
  | delete k => simp [isFind, kind] at h

omit [DecidableEq κ] in
/-- Only an insertion succeeds on an absent key. -/
theorem kind_of_after?_none {op : Operation κ υ} {after : Option υ}
    (h : op.after? none = some after) : op.kind = .insert := by
  cases op with
  | find k => cases h
  | insert k v => rfl
  | delete k => cases h

end Operation

namespace Contents

open Operation

/-- The reads of a run, from the replays of the keys. -/
def readsOf (m : Contents κ υ) (ops : List (Operation κ υ)) : List (Option υ) :=
  ops.mapIdx fun i op => op.readOf (replay op.key (ops.take (i + 1)) (m op.key)).join

/-- A key that was set holds what it was set to. -/
@[simp] theorem set_self (m : Contents κ υ) (k : κ) (held : Option υ) : m.set k held k = held := by
  simp [set]

/-- Setting a key leaves the others. -/
theorem set_of_ne (m : Contents κ υ) {k x : κ} (h : x ≠ k) (held : Option υ) :
    m.set k held x = m x := by
  simp [set, h]

/-- To set a key back is to have the map of before. -/
theorem set_set_of_eq {m : Contents κ υ} {k : κ} {held : Option υ} (hk : m k = held)
    (x : Option υ) : (m.set k x).set k held = m := by
  funext y
  by_cases hy : y = k
  · rw [hy, set_self, hk]
  · rw [set_of_ne _ hy, set_of_ne _ hy]

/-- An operation on the map is one on the content of its key. -/
theorem apply_eq (m : Contents κ υ) (op : Operation κ υ) :
    m.apply op = (op.after? (m op.key)).map fun held => (m.set op.key held, op.readOf held) := by
  cases op with
  | find k =>
      simp only [apply, key]
      cases hk : m k with
      | none => rfl
      | some v =>
          have hset : m.set k (some v) = m := by
            funext x
            by_cases hx : x = k
            · rw [hx, set_self, hk]
            · exact set_of_ne m hx _
          simp [after?, hset, readOf, isFind, kind]
  | insert k v =>
      simp only [apply, key]
      cases m k <;> simp [after?, readOf, isFind, kind]
  | delete k =>
      simp only [apply, key]
      cases m k <;> simp [after?, readOf, isFind, kind]

/-- The first operation seen from a key: its effect is there before the others. -/
theorem replay_cons (m : Contents κ υ) {op : Operation κ υ} {held : Option υ}
    (h : op.after? (m op.key) = some held) (k : κ) (ops : List (Operation κ υ)) :
    replay k (op :: ops) (m k) = replay k ops (m.set op.key held k) := by
  rw [replay]
  by_cases hk : op.key = k
  · subst hk
    rw [if_pos rfl, h, Option.bind_some, set_self]
  · rw [if_neg hk, set_of_ne m (Ne.symm hk)]

/-- The first read, and then those of the operations after it. -/
theorem readsOf_cons (m : Contents κ υ) {op : Operation κ υ} {held : Option υ}
    (h : op.after? (m op.key) = some held) (ops : List (Operation κ υ)) :
    m.readsOf (op :: ops) = op.readOf held :: (m.set op.key held).readsOf ops := by
  rw [readsOf, List.mapIdx_cons]
  congr 1
  · rw [List.take_succ_cons, replay_cons m h, List.take_zero, set_self]
    rfl
  · rw [readsOf]
    congr 1
    funext i op'
    rw [List.take_succ_cons, replay_cons m h]

/-- **A run, key by key.** The operations succeed exactly if the replay for every key does; then
the replays give the map after them and what they read. -/
theorem run_eq_ok_iff (m m' : Contents κ υ) (ops : List (Operation κ υ))
    (reads : List (Option υ)) :
    m.run ops = .ok (m', reads) ↔
      (∀ k, replay k ops (m k) = some (m' k)) ∧ reads = m.readsOf ops := by
  induction ops generalizing m reads with
  | nil =>
      simp only [run, Except.ok.injEq, Prod.mk.injEq, replay, Option.some.injEq, readsOf,
        List.mapIdx_nil]
      exact and_congr ⟨fun h k => h ▸ rfl, funext⟩ eq_comm
  | cons op ops ih =>
      rw [run, apply_eq]
      cases hop : op.after? (m op.key) with
      | none =>
          simp only [Option.map_none, reduceCtorEq, false_iff, not_and]
          intro h
          have := h op.key
          simp [replay, hop] at this
      | some held =>
          simp only [Option.map_some]
          have hstep : (∀ k, replay k (op :: ops) (m k) = some (m' k)) ↔
              ∀ k, replay k ops (m.set op.key held k) = some (m' k) :=
            forall_congr' fun k => by rw [replay_cons m hop]
          rw [hstep, readsOf_cons m hop]
          cases hrun : (m.set op.key held).run ops with
          | error i =>
              simp only [reduceCtorEq, false_iff, not_and]
              intro h
              have := (ih (m.set op.key held) _).mpr ⟨h, rfl⟩
              rw [hrun] at this
              cases this
          | ok r =>
              obtain ⟨m₂, reads₂⟩ := r
              have hr := ih (m.set op.key held) reads₂
              simp only [Except.ok.injEq, Prod.mk.injEq]
              constructor
              · rintro ⟨rfl, rfl⟩
                obtain ⟨hall, hreads⟩ := hr.mp hrun
                exact ⟨hall, by rw [hreads]⟩
              · rintro ⟨hall, rfl⟩
                have := (ih (m.set op.key held) _).mpr ⟨hall, rfl⟩
                rw [hrun, Except.ok.injEq, Prod.mk.injEq] at this
                exact ⟨this.1, by rw [this.2]⟩

/-- A run has one read for each operation. -/
theorem length_of_run {m m' : Contents κ υ} {ops : List (Operation κ υ)} {reads : List (Option υ)}
    (h : m.run ops = .ok (m', reads)) : reads.length = ops.length := by
  rw [((run_eq_ok_iff m m' ops reads).mp h).2, readsOf, List.length_mapIdx]

/-- A run leaves alone what its operations are not about. -/
theorem run_of_ne {m m' : Contents κ υ} {ops : List (Operation κ υ)} {reads : List (Option υ)}
    (h : m.run ops = .ok (m', reads)) {k : κ} (hk : ∀ op ∈ ops, op.key ≠ k) : m' k = m k := by
  have hreplay := ((run_eq_ok_iff m m' ops reads).mp h).1 k
  rw [replay_of_ne hk] at hreplay
  exact (Option.some.inj hreplay).symm

/-- A run depends on nothing but the keys that its operations are about: from a map that agrees on
them it reads the same, and leaves the same wherever the maps agree. -/
theorem run_of_agree {m m' m₂ : Contents κ υ} {ops : List (Operation κ υ)}
    {reads : List (Option υ)} (h : m.run ops = .ok (m', reads))
    (hagree : ∀ op ∈ ops, m₂ op.key = m op.key) :
    ∃ m₂', m₂.run ops = .ok (m₂', reads) ∧ ∀ k, m₂ k = m k → m₂' k = m' k := by
  induction ops generalizing m m₂ reads with
  | nil =>
      obtain ⟨rfl, rfl⟩ := Prod.mk.inj (Except.ok.inj h)
      exact ⟨m₂, rfl, fun k hk => hk⟩
  | cons op ops ih =>
      rw [run, apply_eq] at h ⊢
      rw [hagree op List.mem_cons_self]
      cases hop : op.after? (m op.key) with
      | none => simp [hop] at h
      | some held =>
          simp only [hop, Option.map_some] at h ⊢
          have hset : ∀ k, m₂ k = m k → m₂.set op.key held k = m.set op.key held k := by
            intro k hk
            rw [set, set, hk]
          cases hrun : (m.set op.key held).run ops with
          | error i => simp [hrun] at h
          | ok r =>
              simp only [hrun, Except.ok.injEq, Prod.mk.injEq] at h
              obtain ⟨rfl, rfl⟩ := h
              obtain ⟨m₂', hrun₂, hagree'⟩ := ih hrun fun op' hop' =>
                hset _ (hagree op' (List.mem_cons_of_mem op hop'))
              exact ⟨m₂', by rw [hrun₂], fun k hk => hagree' k (hset k hk)⟩

/-- A run of one operation. -/
theorem run_singleton (m : Contents κ υ) (op : Operation κ υ) :
    m.run [op] =
      match op.after? (m op.key) with
      | none => .error 0
      | some held => .ok (m.set op.key held, [op.readOf held]) := by
  rw [run, apply_eq]
  cases op.after? (m op.key) <;> rfl

/-- A run in two parts. -/
theorem run_append {m m₁ : Contents κ υ} {ops : List (Operation κ υ)} {reads : List (Option υ)}
    (h : m.run ops = .ok (m₁, reads)) (ops' : List (Operation κ υ)) :
    m.run (ops ++ ops') =
      match m₁.run ops' with
      | .error i => .error (ops.length + i)
      | .ok (m₂, reads') => .ok (m₂, reads ++ reads') := by
  induction ops generalizing m reads with
  | nil =>
      obtain ⟨rfl, rfl⟩ := Prod.mk.inj (Except.ok.inj h)
      rw [List.nil_append]
      cases m.run ops' <;> simp
  | cons op ops ih =>
      simp only [run, List.cons_append] at h ⊢
      cases hop : m.apply op with
      | none => simp [hop] at h
      | some r =>
          simp only [hop] at h ⊢
          cases hrun : r.1.run ops with
          | error i => simp [hrun] at h
          | ok r' =>
              simp only [hrun, Except.ok.injEq, Prod.mk.injEq] at h
              obtain ⟨rfl, rfl⟩ := h
              rw [ih hrun]
              cases r'.1.run ops' with
              | error i =>
                  simp only [List.length_cons, Except.error.injEq]
                  omega
              | ok r'' => rfl

/-- A run with one more operation. -/
theorem run_take_succ {m m₁ : Contents κ υ} {ops : List (Operation κ υ)} {i : Nat}
    {reads : List (Option υ)} {op : Operation κ υ} {after : Option υ}
    (hrun : m.run (ops.take i) = .ok (m₁, reads)) (hop : ops[i]? = some op)
    (hafter : op.after? (m₁ op.key) = some after) :
    m.run (ops.take (i + 1)) = .ok (m₁.set op.key after, reads ++ [op.readOf after]) := by
  rw [List.take_add_one, hop, Option.toList_some, run_append hrun, run_singleton, hafter]

/-- A run fails at the first operation whose precondition does not hold of what the operations
before it leave. -/
theorem run_eq_error {m m₁ : Contents κ υ} {ops : List (Operation κ υ)} {i : Nat}
    {op : Operation κ υ} (hop : ops[i]? = some op)
    (hpre : ∀ k, replay k (ops.take i) (m k) = some (m₁ k)) (hfail : op.after? (m₁ op.key) = none) :
    m.run ops = .error i := by
  obtain ⟨hlt, hget⟩ := List.getElem?_eq_some_iff.mp hop
  have hrun : m.run (ops.take i) = .ok (m₁, m.readsOf (ops.take i)) :=
    (run_eq_ok_iff m m₁ _ _).mpr ⟨hpre, rfl⟩
  have hsplit : ops = ops.take i ++ op :: ops.drop (i + 1) := by
    rw [← hget, List.getElem_cons_drop, List.take_append_drop]
  have hfirst : m₁.run (op :: ops.drop (i + 1)) = .error 0 := by
    rw [run, apply_eq, hfail]
    rfl
  rw [hsplit, run_append hrun, hfirst]
  simp only [List.length_take, Nat.add_zero, Except.error.injEq]
  omega

/-- If a run fails, the operations before the position it names run, and the one there fails on what
they leave. -/
theorem exists_of_run_eq_error {m : Contents κ υ} {ops : List (Operation κ υ)} {i : Nat}
    (h : m.run ops = .error i) :
    ∃ op m₁ reads, ops[i]? = some op ∧ m.run (ops.take i) = .ok (m₁, reads) ∧
      m₁.apply op = none := by
  induction ops generalizing m i with
  | nil => cases h
  | cons op ops ih =>
      rw [run] at h
      cases hop : m.apply op with
      | none =>
          rw [hop] at h
          obtain rfl := Except.error.inj h
          exact ⟨op, m, [], rfl, rfl, hop⟩
      | some r =>
          simp only [hop] at h
          cases hrest : r.1.run ops with
          | ok r' => simp [hrest] at h
          | error j =>
              simp only [hrest, Except.error.injEq] at h
              subst h
              obtain ⟨op', m₁, reads, hget, hrun, hnone⟩ := ih hrest
              refine ⟨op', m₁, r.2 :: reads, hget, ?_, hnone⟩
              rw [List.take_succ_cons, run, hop]
              dsimp only
              rw [hrun]

omit [DecidableEq κ] in
/-- A map has only one list of entries. -/
theorem Lists.unique [LinearOrder κ] {m : Contents κ υ} {es es' : List (κ × υ)}
    (h : m.Lists es) (h' : m.Lists es') : es = es' := by
  have : Std.Irrefl fun a b : κ × υ => a.1 < b.1 := ⟨fun a => lt_irrefl a.1⟩
  exact h.ascending.eq_of_mem_iff h'.ascending fun (k, v) => by rw [h.mem_iff, h'.mem_iff]

end Contents

end AtomicSet
