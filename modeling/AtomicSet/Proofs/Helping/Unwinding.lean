import AtomicSet.Proofs.Helping.Cycles

/-!
# Where a stack is cut

Two functions on stacks decide what a thread gives up when a cycle is broken: one chooses the
position at which to cut, the other cuts there. Both are exact on every stack, also on those that no
thread ever has, with one transaction in several frames or one identifier for several transactions.
The position is the topmost of those with the largest identifier from the start of the cycle on, and
there is no other such position; the cut answers the frame at the position and leaves the frames
below it, none of them changed.

## Main definitions

* `Stack.Youngest` — what makes a position the one to cut at.
* `Stack.CutAt` — what a cut answers and leaves.

## Main results

* `Stack.youngest_victim`, `Stack.Youngest.unique` — the youngest of a cycle is chosen, and there is
  no other.
* `Stack.unwind_eq_ok_iff` — what a cut answers and what it leaves.
* `Stack.cuts_exactly` — both, and that the loop of helping does the one after the other.
-/

namespace AtomicSet

/-- Behind the last maximum there are only smaller numbers. -/
theorem lt_of_mem_drop_lastMax {xs : List Nat} {i m : Nat} (h : lastMax xs = some (i, m)) :
    ∀ x ∈ xs.drop (i + 1), x < m := by
  induction xs generalizing i m with
  | nil => cases h
  | cons x xs ih =>
      rcases Stack.lastMax_cons_eq_some h with
        ⟨rfl, rfl, hempty | ⟨j, n, hrest, hlt⟩⟩ | ⟨j, rfl, hrest, -⟩
      · simp [lastMax_eq_none_iff.mp hempty]
      · exact fun y hy => Nat.lt_of_le_of_lt ((lastMax_spec hrest).2 y hy) hlt
      · exact ih hrest

namespace Stack

variable {s below : Stack} {idOf : TxnRef → Nat} {start v v' pos : Nat} {f : Frame} {t : TxnRef}

/-! ### The position -/

/-- Among the frames from position `start` on, the one at `v` has the largest identifier, and of
those with this identifier it is the topmost. -/
structure Youngest (s : Stack) (idOf : TxnRef → Nat) (start v : Nat) : Prop where
  start_le : start ≤ v
  lt_length : v < s.length
  largest : ∀ i f g, start ≤ i → s.fromBottom[i]? = some f → s.fromBottom[v]? = some g →
    idOf f.txn ≤ idOf g.txn
  topmost : ∀ i f g, v < i → s.fromBottom[i]? = some f → s.fromBottom[v]? = some g →
    idOf f.txn < idOf g.txn

/-- There is a frame at every position below the length. -/
theorem exists_fromBottom (h : pos < s.length) : ∃ f, s.fromBottom[pos]? = some f :=
  ⟨_, List.getElem?_eq_getElem (by simpa using h)⟩

/-- Above the victim there are only older transactions. -/
theorem lt_victim (h : start < s.length) :
    ∀ i f g, s.victim idOf start < i → s.fromBottom[i]? = some f →
      s.fromBottom[s.victim idOf start]? = some g → idOf f.txn < idOf g.txn := by
  intro i f g hi hf hg
  rw [victim] at hi hg
  cases hmax : lastMax ((s.fromBottom.drop start).map fun f => idOf f.txn) with
  | none =>
      rw [lastMax_eq_none_iff, List.map_eq_nil_iff, List.drop_eq_nil_iff, length_fromBottom] at hmax
      exact absurd h (Nat.not_lt.mpr hmax)
  | some r =>
      obtain ⟨offset, m⟩ := r
      simp only [hmax] at hi hg
      have hm : m = idOf g.txn := by
        have hget := (lastMax_spec hmax).1
        rw [List.getElem?_map, List.getElem?_drop, hg] at hget
        exact (Option.some.inj hget).symm
      rw [← hm]
      -- The frame at position `i` is `i - start` places into the list of identifiers.
      refine lt_of_mem_drop_lastMax hmax _ (List.mem_of_getElem? (i := i - (start + offset + 1)) ?_)
      rw [List.getElem?_drop, List.getElem?_map, List.getElem?_drop,
        show start + (offset + 1 + (i - (start + offset + 1))) = i by omega, hf]
      rfl

/-- The victim is the youngest. -/
theorem youngest_victim (h : start < s.length) : s.Youngest idOf start (s.victim idOf start) where
  start_le := (victim_lt idOf h).1
  lt_length := (victim_lt idOf h).2
  largest := by
    intro i f g hi hf hg
    obtain ⟨g', hg', hle⟩ := victim_spec idOf h
    obtain rfl : g' = g := Option.some.inj (hg'.symm.trans hg)
    exact hle i f hi hf
  topmost := lt_victim h

/-- **There is one place to cut at.** -/
theorem Youngest.unique (h : s.Youngest idOf start v) (h' : s.Youngest idOf start v') : v = v' := by
  obtain ⟨f, hf⟩ := exists_fromBottom h.lt_length
  obtain ⟨f', hf'⟩ := exists_fromBottom h'.lt_length
  rcases Nat.lt_trichotomy v v' with hlt | heq | hlt
  · exact absurd (h.topmost v' f' f hlt hf' hf)
      (Nat.not_lt.mpr (h'.largest v f f' h.start_le hf hf'))
  · exact heq
  · exact absurd (h'.topmost v f f' hlt hf hf')
      (Nat.not_lt.mpr (h.largest v' f' f h'.start_le hf' hf))

/-- Where there is a frame at the position, choosing a victim does not go wrong. -/
theorem chooseVictim_eq (h : start < s.length) :
    s.chooseVictim idOf start = .ok (s.victim idOf start) :=
  if_pos (Nat.le_of_lt h)

/-! ### The cut -/

/-- A cut at position `pos` answers the frame `f` and leaves the stack `below`. -/
structure CutAt (s : Stack) (pos : Nat) (f : Frame) (below : Stack) : Prop where
  /-- The frame at the position is answered as it was. -/
  frame : s.fromBottom[pos]? = some f
  /-- The frames below it are left as they were, and no others. -/
  fromBottom_below : below.fromBottom = s.fromBottom.take pos
  /-- A transaction with a frame below the position is found where it was. -/
  kept : ∀ t i, i < pos → s.position t = some i → below.position t = some i
  /-- A transaction without one is not found any more. -/
  lost : ∀ t, (∀ i g, s.fromBottom[i]? = some g → g.txn = t → pos ≤ i) → below.position t = none

/-- A cut that does not go wrong is the one that the loop of helping makes. -/
theorem unwind_eq_ok {cut : Frame × Stack} : s.unwind pos = .ok cut ↔ s.unwind? pos = some cut := by
  rw [unwind]
  cases s.unwind? pos <;> simp

/-- A cut answers the frame at the position and leaves the frames below it. -/
theorem unwind_eq_ok_iff : s.unwind pos = .ok (f, below) ↔
    s.fromBottom[pos]? = some f ∧ below.fromBottom = s.fromBottom.take pos :=
  unwind_eq_ok.trans unwind?_eq_some_iff

/-- The loop of helping cuts a stack where the victim is. -/
theorem cut?_eq_of_unwind {cut : Frame × Stack} (hposition : s.position t = some start)
    (hunwind : s.unwind (s.victim idOf start) = .ok cut) : s.cut? idOf t = some cut :=
  cut?_eq_some_iff.mpr ⟨start, hposition, unwind_eq_ok.mp hunwind⟩

/-- The position of a transaction among the frames below a cut. -/
theorem position_of_fromBottom (h : below.fromBottom = s.fromBottom.take pos) (t : TxnRef) :
    below.position t = (s.position t).bind (Option.guard fun i => decide (i < pos)) := by
  rw [position, h, List.findIdx?_take]
  rfl

/-- Unwinding is a cut at its position. -/
theorem CutAt.of_unwind (h : s.unwind pos = .ok (f, below)) : s.CutAt pos f below := by
  obtain ⟨hget, hbelow⟩ := unwind_eq_ok_iff.mp h
  refine ⟨hget, hbelow, fun t i hi hposition => ?_, fun t hgone => ?_⟩
  · rw [position_of_fromBottom hbelow, hposition, Option.bind_some, Option.guard_pos (by simpa)]
  · rw [position_of_fromBottom hbelow]
    cases hposition : s.position t with
    | none => rfl
    | some i =>
        obtain ⟨g, hg, heq⟩ := frame_of_position hposition
        have hle : pos ≤ i := hgone i g hg heq
        rw [Option.bind_some, Option.guard_eq_none_iff.mpr (by simpa)]

/-- **A stack is cut exactly**, whatever is on it. From every start the position chosen is that of
the youngest transaction, the topmost frame if there are several, and no other position is. A cut
at any position answers the frame there with all that it holds, leaves the frames below it in their
order, and takes every transaction that was only at or above the position off the stack. Where a
transaction on the stack is needed again, the loop of helping does the one after the other. -/
theorem cuts_exactly (s : Stack) (idOf : TxnRef → Nat) :
    (∀ start < s.length, ∃ v, s.chooseVictim idOf start = .ok v ∧ s.Youngest idOf start v ∧
      ∀ v', s.Youngest idOf start v' → v' = v) ∧
    (∀ pos < s.length, ∃ f below, s.unwind pos = .ok (f, below) ∧ s.CutAt pos f below) ∧
    ∀ t start, s.position t = some start → ∃ v f below, s.chooseVictim idOf start = .ok v ∧
      s.unwind v = .ok (f, below) ∧ s.cut? idOf t = some (f, below) := by
  have hchoose : ∀ start < s.length, ∃ v, s.chooseVictim idOf start = .ok v ∧
      s.Youngest idOf start v ∧ ∀ v', s.Youngest idOf start v' → v' = v := fun start hstart =>
    ⟨_, chooseVictim_eq hstart, youngest_victim hstart,
      fun _ h => h.unique (youngest_victim hstart)⟩
  have hunwind : ∀ pos < s.length,
      ∃ f below, s.unwind pos = .ok (f, below) ∧ s.CutAt pos f below := by
    intro pos hpos
    obtain ⟨f, hf⟩ := exists_fromBottom hpos
    obtain ⟨below, hcut⟩ := exists_unwind? hf
    have hok := unwind_eq_ok.mpr hcut
    exact ⟨f, below, hok, .of_unwind hok⟩
  refine ⟨hchoose, hunwind, fun t start hposition => ?_⟩
  have hstart : start < s.length := by
    obtain ⟨f, hf, -⟩ := frame_of_position hposition
    rw [← length_fromBottom]
    exact (List.getElem?_eq_some_iff.mp hf).1
  obtain ⟨f, below, hok, -⟩ := hunwind _ (victim_lt idOf hstart).2
  exact ⟨_, f, below, chooseVictim_eq hstart, hok, cut?_eq_of_unwind hposition hok⟩

/-- The frame at which the stack `tied` is cut. -/
def tiedVictim : Frame := { txn := 3, next := 2, touched := [7, 5] }

/-- A stack on which two transactions have the same identifier. -/
def tied : Stack :=
  ⟨[{ txn := 4, next := 0, failed := true }, tiedVictim, { txn := 2, next := 1, touched := [6] },
    { txn := 1, next := 0 }, { txn := 0, next := 3 }]⟩

/-- The identifiers of the transactions on the stack `tied`. -/
def tiedIds : TxnRef → Nat
  | 0 => 1
  | 1 => 5
  | 2 | 3 => 9
  | _ => 7

/-- Of the two youngest transactions of a cycle the one further up is given up. -/
theorem cuts_exactly_tied :
    (1 < tied.length ∧ tied.chooseVictim tiedIds 1 = .ok 3 ∧ tied.Youngest tiedIds 1 3) ∧
    (3 < tied.length ∧ ∃ below, tied.unwind 3 = .ok (tiedVictim, below) ∧
      tied.CutAt 3 tiedVictim below) ∧
    tied.position 1 = some 1 ∧ ∃ below, tied.cut? tiedIds 1 = some (tiedVictim, below) := by
  obtain ⟨hchoose, hunwind, hcut⟩ := cuts_exactly tied tiedIds
  obtain ⟨v, hv, hyoungest, -⟩ := hchoose 1 (by decide)
  obtain rfl : v = 3 := Except.ok.inj (hv.symm.trans rfl)
  obtain ⟨f, below, hok, hat⟩ := hunwind 3 (by decide)
  obtain rfl : f = tiedVictim := Option.some.inj (hat.frame.symm.trans rfl)
  have hposition : tied.position 1 = some 1 := rfl
  obtain ⟨v', f', below', hv', hok', hcut'⟩ := hcut 1 1 hposition
  obtain rfl : v' = 3 := Except.ok.inj (hv'.symm.trans hv)
  obtain ⟨rfl, rfl⟩ := Prod.mk.inj (Except.ok.inj (hok'.symm.trans hok))
  exact ⟨⟨by decide, hv, hyoungest⟩, ⟨by decide, below', hok, hat⟩, hposition, below', hcut'⟩

end Stack

end AtomicSet
