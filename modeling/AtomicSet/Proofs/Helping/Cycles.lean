import AtomicSet.Proofs.Helping.Termination

/-!
# Breaking cycles of waiting transactions

When a transaction that is on the stack is needed again, the frames from it to the top wait for each
other in a circle. Because no wait is ever stale, this is so at the very moment when the cycle is
broken, and not only when the frames were pushed. One transaction of the cycle is aborted, the one
with the largest identifier; so the transaction with the smallest identifier of all active ones
never is.

## Main definitions

* `Stack.Cycle` — the frames from a position on wait for each other in a circle.
* `Drive.Breaks` — what it is to break such a cycle.
* `Drive.Sacrifices` — in this round the transaction is the victim of a cycle.
* `Drive.Patient` — the stacked transactions are distinct, active and blocked by one another.

## Main results

* `Stack.victim_spec` — the victim is the youngest of the cycle.
* `Drive.Sound.cycle` — whenever a cycle is broken, there is one.
* `HelpingSession.Reachable.breaks_cycles` — all of it, for every thread that a command sets to
  work.
-/

namespace AtomicSet

variable {κ υ : Type}

/-! ### The youngest of a cycle -/

/-- Only an empty list has no largest element. -/
theorem lastMax_eq_none_iff {xs : List Nat} : lastMax xs = none ↔ xs = [] := by
  cases xs with
  | nil => simp [lastMax]
  | cons x xs =>
      rw [lastMax]
      cases lastMax xs with
      | none => simp
      | some r =>
          simp only [reduceCtorEq, iff_false]
          split <;> simp

/-- The last maximum is a member that nothing exceeds. -/
theorem lastMax_spec {xs : List Nat} {i m : Nat} (h : lastMax xs = some (i, m)) :
    xs[i]? = some m ∧ ∀ x ∈ xs, x ≤ m := by
  induction xs generalizing i m with
  | nil => cases h
  | cons x xs ih =>
      rcases Stack.lastMax_cons_eq_some h with
        ⟨rfl, rfl, hempty | ⟨j, n, hrest, hlt⟩⟩ | ⟨j, rfl, hrest, hle⟩
      · simp [lastMax_eq_none_iff.mp hempty]
      · refine ⟨rfl, fun y hy => ?_⟩
        rcases List.mem_cons.mp hy with rfl | hy
        · exact Nat.le_refl _
        · exact Nat.le_of_lt (Nat.lt_of_le_of_lt ((ih hrest).2 y hy) hlt)
      · refine ⟨(ih hrest).1, fun y hy => ?_⟩
        rcases List.mem_cons.mp hy with rfl | hy
        · exact hle
        · exact (ih hrest).2 y hy

namespace Stack

/-- **The victim is the youngest of the cycle.** -/
theorem victim_spec {stack : Stack} (idOf : TxnRef → Nat) {start : Nat}
    (h : start < stack.length) :
    ∃ f, stack.fromBottom[stack.victim idOf start]? = some f ∧
      ∀ p g, start ≤ p → stack.fromBottom[p]? = some g → idOf g.txn ≤ idOf f.txn := by
  rw [victim]
  cases hmax : lastMax ((stack.fromBottom.drop start).map fun f => idOf f.txn) with
  | none =>
      rw [lastMax_eq_none_iff, List.map_eq_nil_iff, List.drop_eq_nil_iff, length_fromBottom] at hmax
      omega
  | some r =>
      obtain ⟨offset, m⟩ := r
      obtain ⟨hget, hle⟩ := lastMax_spec hmax
      rw [List.getElem?_map, List.getElem?_drop] at hget
      obtain ⟨f, hf, rfl⟩ := Option.map_eq_some_iff.mp hget
      refine ⟨f, hf, fun p g hp hg => hle _ (List.mem_map.mpr ⟨g, ?_, rfl⟩)⟩
      refine List.mem_of_getElem? (i := p - start) ?_
      rw [List.getElem?_drop, Nat.add_sub_cancel' hp]
      exact hg

/-! ### Cycles -/

variable [LinearOrder κ]

/-- In the store `s`, the frames from position `start` on are those of at least two active
transactions; each needs a node of the next one, and the top one needs a node of the first. -/
structure Cycle (s : Store κ υ) (stack : Stack) (start : Nat) : Prop where
  two_le : start + 2 ≤ stack.length
  active : ∀ p f, start ≤ p → stack.fromBottom[p]? = some f → s.registry.isActive f.txn
  waits : ∀ p f g, start ≤ p → stack.fromBottom[p]? = some f →
    stack.fromBottom[p + 1]? = some g → s.Waits f g.txn
  closes : ∀ f g, stack.top? = some f → stack.fromBottom[start]? = some g → s.Waits f g.txn

end Stack

namespace Drive

variable [LinearOrder κ]

/-- The cycle from position `start` on is broken in the store `s`: the stack is cut at `victim`, and
`d'` is what is left. -/
structure Breaks (s : Store κ υ) (stack : Stack) (start : Nat) (victim : Frame)
    (d' : Drive κ υ) : Prop where
  cycle : stack.Cycle s start
  /-- The victim is one of the cycle, and the frames below it are left. -/
  cut : ∃ p, start ≤ p ∧ stack.fromBottom[p]? = some victim ∧
    d'.stack.fromBottom = stack.fromBottom.take p
  /-- The others are older. -/
  youngest : ∀ p f, start ≤ p → stack.fromBottom[p]? = some f → f.txn ≠ victim.txn →
    (s.registry.get f.txn).id < (s.registry.get victim.txn).id
  /-- The victim is aborted, and nobody else is. -/
  status_eq : ∀ t, d'.store.registry.status t =
    if t = victim.txn then .aborted else s.registry.status t
  /-- One fake abort is counted. -/
  tally_eq : d'.store.tally = s.tally.abort true
  /-- The victim is not the oldest of the active transactions. -/
  spared : ∀ t, s.registry.isActive t →
    (∀ u, s.registry.isActive u → (s.registry.get t).id ≤ (s.registry.get u).id) →
    t ≠ victim.txn

/-- In this round a cycle of waiting transactions is broken, and its victim is `t`. -/
def Sacrifices (d : Drive κ υ) (t : TxnRef) : Prop :=
  ∃ f op s' owner resume start victim d', d.stack.top? = some f ∧
    f.pending? d.store.registry = some op ∧
    d.store.attempt f.txn f.next op = (s', .blocked owner resume) ∧
    d.stack.position owner = some start ∧
    d.advance = some d' ∧ Breaks s' d.stack start victim d' ∧ victim.txn = t

/-- The stacked transactions are distinct, each is blocked by the one above it, and when a
transaction on the stack is needed again a cycle is broken. -/
structure Patient (d : Drive κ υ) : Prop where
  distinct : (d.stack.frames.map Frame.txn).Nodup
  blocked : ∀ p f g, d.stack.fromBottom[p]? = some f → d.stack.fromBottom[p + 1]? = some g →
    d.store.Blocked f g.txn
  breaks : ∀ f op s' owner resume start, d.stack.top? = some f →
    f.pending? d.store.registry = some op →
    d.store.attempt f.txn f.next op = (s', .blocked owner resume) →
    d.stack.position owner = some start →
    ∃ victim d', d.advance = some d' ∧ Breaks s' d.stack start victim d'

namespace Sound

/-- The frames from the bottom: each waits for the next. -/
theorem waits_getElem? {d : Drive κ υ} (h : d.Sound) {p : Nat} {f g : Frame}
    (hf : d.stack.fromBottom[p]? = some f) (hg : d.stack.fromBottom[p + 1]? = some g) :
    d.store.Waits f g.txn := by
  have hchain : d.stack.fromBottom.IsChain fun f g => d.store.Waits f g.txn :=
    List.isChain_reverse.mpr h.waits
  obtain ⟨hlt, rfl⟩ := List.getElem?_eq_some_iff.mp hg
  obtain ⟨-, rfl⟩ := List.getElem?_eq_some_iff.mp hf
  exact hchain.getElem p hlt

/-- The stacked transactions are active. -/
theorem active_getElem? {d : Drive κ υ} (h : d.Sound) {p : Nat} {f : Frame}
    (hf : d.stack.fromBottom[p]? = some f) : d.store.registry.isActive f.txn :=
  h.active f (List.mem_reverse.mp (List.mem_of_getElem? hf))

/-- The same transaction is at no two positions. -/
theorem eq_of_txn_eq {d : Drive κ υ} (h : d.Sound) {p q : Nat} {f g : Frame}
    (hf : d.stack.fromBottom[p]? = some f) (hg : d.stack.fromBottom[q]? = some g)
    (htxn : f.txn = g.txn) : p = q := by
  have hnodup : (d.stack.fromBottom.map Frame.txn).Nodup := by
    rw [Stack.fromBottom, List.map_reverse]
    exact List.nodup_reverse.mpr h.distinct
  obtain ⟨hlt, -⟩ := List.getElem?_eq_some_iff.mp hf
  refine (List.getElem?_inj (by simpa using hlt) hnodup).mp ?_
  rw [List.getElem?_map, List.getElem?_map, hf, hg, Option.map_some, Option.map_some, htxn]

/-- **Whenever a cycle is broken, there is one.** -/
theorem cycle {s : Store κ υ} {stack : Stack} (h : Sound ⟨s, stack⟩) {f : Frame} {owner : TxnRef}
    {start : Nat} (htop : stack.top? = some f) (hwaits : s.Waits f owner)
    (hposition : stack.position owner = some start) : stack.Cycle s start := by
  obtain ⟨g, hg, rfl⟩ := Stack.frame_of_position hposition
  have hlast : stack.fromBottom[stack.length - 1]? = some f := by
    rw [Stack.fromBottom, Stack.length, ← List.length_reverse, ← List.getLast?_eq_getElem?,
      List.getLast?_reverse]
    exact htop
  have hne : start ≠ stack.length - 1 := by
    rintro rfl
    obtain rfl : g = f := Option.some.inj (hg.symm.trans hlast)
    obtain ⟨-, -, -, -, -, -, hforeign, -⟩ := hwaits
    exact hforeign rfl
  refine ⟨?_, fun p g _ hg => h.active_getElem? hg, fun p g g' _ hg hg' => h.waits_getElem? hg hg',
    fun f' g' htop' hg' => ?_⟩
  · obtain ⟨hlt, -⟩ := List.getElem?_eq_some_iff.mp hg
    rw [Stack.length_fromBottom] at hlt
    omega
  · obtain rfl : f = f' := Option.some.inj (htop.symm.trans htop')
    obtain rfl : g = g' := Option.some.inj (hg.symm.trans hg')
    exact hwaits

/-- A cycle has a member besides any given transaction. -/
theorem exists_ne {s : Store κ υ} {stack : Stack} {start : Nat} (h : Sound ⟨s, stack⟩)
    (hcycle : stack.Cycle s start) (t : TxnRef) :
    ∃ p f, start ≤ p ∧ stack.fromBottom[p]? = some f ∧ f.txn ≠ t := by
  have hlen := hcycle.two_le
  have hget : ∀ p < stack.length, ∃ f, stack.fromBottom[p]? = some f := fun p hp =>
    ⟨_, List.getElem?_eq_getElem (by simpa using hp)⟩
  obtain ⟨f, hf⟩ := hget start (by omega)
  obtain ⟨g, hg⟩ := hget (start + 1) (by omega)
  by_cases hne : f.txn = t
  · refine ⟨start + 1, g, Nat.le_succ _, hg, fun hgt => ?_⟩
    have := h.eq_of_txn_eq hf hg (hne.trans hgt.symm)
    omega
  · exact ⟨start, f, Nat.le_refl _, hf, hne⟩

/-- **A cycle is broken at its youngest member**, which is not the oldest active transaction. -/
theorem breaks {s : Store κ υ} {stack rest : Stack} {victim : Frame} {start : Nat}
    (h : Sound ⟨s, stack⟩) (hcycle : stack.Cycle s start)
    (hunwind : stack.unwind? (stack.victim (fun t => (s.registry.get t).id) start) =
      some (victim, rest)) : Breaks s stack start victim ⟨s.giveUp victim, rest⟩ := by
  have hlt : start < stack.length := Nat.lt_of_succ_lt hcycle.two_le
  obtain ⟨f, hf, hmax⟩ := Stack.victim_spec (fun t => (s.registry.get t).id) hlt
  have hle := (Stack.victim_lt (fun t => (s.registry.get t).id) hlt).1
  obtain ⟨hg, hbelow⟩ := Stack.unwind?_eq_some_iff.mp hunwind
  obtain rfl : f = victim := Option.some.inj (hf.symm.trans hg)
  have hid : ∀ {t}, s.registry.isActive t → (s.registry.get t).id = t := fun ht =>
    h.wellFormed.numbered _ (Registry.lt_size_of_isActive ht)
  have hvictim : s.registry.isActive f.txn := h.active_getElem? hf
  have hyoungest : ∀ p g, start ≤ p → stack.fromBottom[p]? = some g → g.txn ≠ f.txn →
      (s.registry.get g.txn).id < (s.registry.get f.txn).id := by
    intro p g hp hg hne
    refine Nat.lt_of_le_of_ne (hmax p g hp hg) ?_
    rw [hid (h.active_getElem? hg), hid hvictim]
    exact hne
  refine ⟨hcycle, ⟨_, hle, hf, hbelow⟩, hyoungest, fun t => ?_, ?_,
    fun t ht holdest hvt => ?_⟩
  · show ((s.giveUp f).registry.get t).status = _
    rw [Store.giveUp, Store.registry_sweep, Store.status_settle]
    simp only [hvictim, and_true]
    rfl
  · show (s.giveUp f).tally = _
    rw [Store.giveUp, (h.wellFormed.settle f.txn .aborted true).tally_sweep, Store.settle,
      if_pos hvictim]
    rfl
  · -- Another member of the cycle is older.
    obtain ⟨q, g, hq, hg, hne⟩ := h.exists_ne hcycle f.txn
    have hlt' := hyoungest q g hq hg hne
    have hge := holdest g.txn (h.active_getElem? hg)
    rw [hvt] at hge
    omega

/-- When a transaction on the stack is needed again, the stack is cut there, and that breaks a
cycle. -/
theorem breaks_of_blocked {s s' : Store κ υ} {f : Frame} {below : List Frame} {op : Operation κ υ}
    {owner : TxnRef} {resume start : Nat} (h : Sound ⟨s, ⟨f :: below⟩⟩)
    (hpending : f.pending? s.registry = some op)
    (hattempt : s.attempt f.txn f.next op = (s', .blocked owner resume))
    (hposition : Stack.position ⟨f :: below⟩ owner = some start) :
    ∃ victim rest, Stack.cut? ⟨f :: below⟩ (fun t => (s'.registry.get t).id) owner =
        some (victim, rest) ∧
      Breaks s' ⟨f :: below⟩ start victim ⟨s'.giveUp victim, rest⟩ := by
  have h' := h.attempt hpending hattempt
  have hcycle := h'.cycle rfl (h.waits_of_blocked hpending hattempt) hposition
  have hlt : start < Stack.length ⟨f :: below⟩ := Nat.lt_of_succ_lt hcycle.two_le
  obtain ⟨victim, hvictim, -⟩ := Stack.victim_spec (fun t => (s'.registry.get t).id) hlt
  obtain ⟨rest, hunwind⟩ := Stack.exists_unwind? hvictim
  exact ⟨victim, rest, Stack.cut?_eq_some_iff.mpr ⟨start, hposition, hunwind⟩,
    h'.breaks hcycle hunwind⟩

/-- **A sound thread is patient.** -/
theorem patient {d : Drive κ υ} (h : d.Sound) : d.Patient := by
  obtain ⟨s, stack⟩ := d
  refine ⟨h.distinct, fun p f g hf hg => h.wellFormed.waits_iff_blocked.mp (h.waits_getElem? hf hg),
    fun f op s' owner resume start htop hpending hattempt hposition => ?_⟩
  obtain ⟨below, rfl⟩ : ∃ below, stack = ⟨f :: below⟩ := by
    obtain ⟨frames⟩ := stack
    cases frames with
    | nil => cases htop
    | cons g below =>
        obtain rfl : g = f := Option.some.inj htop
        exact ⟨below, rfl⟩
  obtain ⟨victim, rest, hcut, hbreaks⟩ := h.breaks_of_blocked hpending hattempt hposition
  refine ⟨victim, _, ?_, hbreaks⟩
  simp only [Drive.advance, hpending, perform, hattempt, help, hcut]

end Sound

/-- A steady thread is patient, and all frames above its own are of active transactions. -/
theorem Steady.patient {d : Drive κ υ} (h : d.Steady) :
    d.Patient ∧ ∀ p f, d.stack.fromBottom[p]? = some f → 0 < p →
      d.store.registry.isActive f.txn := by
  cases h with
  | sound h => exact ⟨h.patient, fun p f hf _ => h.active_getElem? hf⟩
  | @settled _ g hframes hdecided =>
      have hbottom : d.stack.fromBottom = [g] := by rw [Stack.fromBottom, hframes]; rfl
      refine ⟨⟨by simp [hframes], fun p f f' _ hf' => ?_,
        fun f op s' owner resume start htop hp => ?_⟩, fun p f hf hp => ?_⟩
      · simp [hbottom] at hf'
      · obtain rfl : g = f := by simpa [Stack.top?, hframes] using htop
        simp [Frame.pending?, hdecided] at hp
      · obtain ⟨p, rfl⟩ := Nat.exists_eq_succ_of_ne_zero (Nat.ne_of_gt hp)
        simp [hbottom] at hf

end Drive

namespace HelpingSession

variable [LinearOrder κ]

/-- **Cycle aborts are sound and never hit the oldest.** Whatever was asked of a session before, in
every round of a thread that a command sets to work the stacked transactions are distinct, each is
blocked by the one above it, all are active but perhaps the thread's own, and a cycle is broken only
where there is one, at its youngest member. -/
theorem Reachable.breaks_cycles {s : HelpingSession κ υ} (hs : s.Reachable) {c : Command κ υ}
    {d : Drive κ υ} (hloop : s.loop? c = some d) :
    ∃ t, d.stack = .ofRoot t ∧ ∀ d' ∈ d.rounds, d'.Patient ∧
      ∀ p f, d'.stack.fromBottom[p]? = some f → 0 < p ∨ d.store.registry.isActive t →
        d'.store.registry.isActive f.txn := by
  obtain ⟨hwf, t, hroot⟩ := hs.ofRoot_of_loop? hloop
  obtain ⟨store, stack⟩ := d
  dsimp only at hwf hroot
  subst hroot
  refine ⟨t, rfl, fun d' hd' => ?_⟩
  have hsteady : d'.Steady :=
    Drive.forall_mem_rounds (.ofRoot hwf t) (fun _ _ => Drive.Steady.advance) d' hd'
  refine ⟨hsteady.patient.1, fun p f hf hor => ?_⟩
  rcases hor with hp | hactive
  · exact hsteady.patient.2 p f hf hp
  · have hsound : d'.Sound :=
      Drive.forall_mem_rounds (.ofRoot hwf hactive) (fun _ _ => Drive.Sound.advance) d' hd'
    exact hsound.active_getElem? hf

/-- Running the first of two crossing transactions breaks their cycle, at the younger one. -/
theorem breaks_cycles_crossing :
    crossing.Reachable ∧ crossing.loop? (.run 0) = some ⟨crossing.store, .ofRoot 0⟩ ∧
      (∃ d' ∈ Drive.rounds ⟨crossing.store, .ofRoot 0⟩, d'.Sacrifices 1) ∧
      ∃ t, Stack.ofRoot 0 = .ofRoot t ∧
        ∀ d' ∈ Drive.rounds ⟨crossing.store, .ofRoot 0⟩, d'.Patient ∧
          ∀ p f, d'.stack.fromBottom[p]? = some f → 0 < p ∨ crossing.store.registry.isActive t →
            d'.store.registry.isActive f.txn := by
  obtain ⟨t, hroot, hrounds⟩ := Reachable.breaks_cycles reachable_crossing (c := .run 0) rfl
  refine ⟨reachable_crossing, rfl, ?_, t, hroot, hrounds⟩
  have hmem := Drive.after_mem_rounds ⟨crossing.store, .ofRoot 0⟩ 2
  -- In the third round the younger one is on top, and needs the key of the older one.
  obtain ⟨victim, d', hadvance, hbreaks⟩ :=
    (hrounds _ hmem).1.breaks ⟨1, 1, false, []⟩ (.insert 1 11) _ 0 1 0 rfl rfl rfl rfl
  refine ⟨_, hmem, _, _, _, _, _, _, victim, d', rfl, rfl, rfl, rfl, hadvance, hbreaks, ?_⟩
  by_contra hne
  have hstatus := hbreaks.status_eq 1
  rw [if_neg (Ne.symm hne), ← Option.some.inj hadvance] at hstatus
  exact absurd hstatus (by decide)

end HelpingSession

end AtomicSet
