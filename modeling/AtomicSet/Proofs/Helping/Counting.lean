import AtomicSet.Proofs.Helping.Cycles
import Mathlib.Data.Set.Card

/-!
# Transactions are decided once and counted once

Many threads may try to decide the same transaction: its own one, those that help it, one that
breaks a cycle, and one that was stalled and finishes late. The first of them wins, and it is the
only one that counts. So at every moment of every run the counters are the numbers of transactions
that were committed, aborted, and aborted to break a cycle since the counters were last reset.

## Main definitions

* `Store.Decides`, `Store.GivesUp` — an event decides a transaction, or aborts it to break a cycle.
* `Store.Adds` — an event adds to a counter what it adds to a set of transactions.
* `Store.Counts` — the counters are numbers of transactions.
* `Registry.Settles` — how statuses and slots may change between two moments.
* `HelpingSession.Tallied` — every transaction is decided once and counted once.

## Main results

* `Store.WellFormed.encard_sometime` — a counter that grows with a set is the size of the set.
* `Drive.Steady.sometime_givesUp_iff`, `HelpingSession.Reachable.sometime_givesUp_iff` — those given
  up are the victims of cycles.
* `HelpingSession.Run.counted_once` — all of it, for every run.
-/

namespace AtomicSet

variable {κ υ : Type} [LinearOrder κ]

namespace Store

/-! ### Decisions -/

/-- The event takes `t` from active to `final`. -/
def Decides (t : TxnRef) (final : Status) (s : Store κ υ) (e : Event κ υ) : Prop :=
  s.registry.isActive t ∧ (s.act e).registry.status t = final

/-- The event aborts `t`, which is active, to break a cycle. -/
def GivesUp (t : TxnRef) (s : Store κ υ) (e : Event κ υ) : Prop :=
  s.registry.isActive t ∧ e = .settle t .aborted true

/-- If the event decides a transaction, it commits it or aborts it; to break a cycle it aborts. -/
def Proper : Event κ υ → Prop
  | .settle _ final fake => final ≠ .active ∧ (fake = true → final = .aborted)
  | .allocate _ | .attempt _ _ | .sweep _ | .linkLate _ _ | .resetTally => True

/-! ### Counting -/

/-- The event adds as much to the counter as there are transactions for which `D` holds of it: one,
which it decides, or none. -/
inductive Adds (D : TxnRef → Store κ υ → Event κ υ → Prop) (count : Tally → Nat) (s : Store κ υ)
    (e : Event κ υ) : Prop where
  | one {t : TxnRef} (only : ∀ u, D u s e ↔ u = t) (active : s.registry.isActive t)
      (decided : (s.act e).registry.isActive t = false)
      (counted : count (s.act e).tally = count s.tally + 1)
  | none (nobody : ∀ u, ¬D u s e) (counted : count (s.act e).tally = count s.tally)

namespace WellFormed

variable {s : Store κ υ}

/-- **A counter that grows with a set of transactions is its size.** -/
theorem encard_sometime (h : s.WellFormed) {D : TxnRef → Store κ υ → Event κ υ → Prop}
    {count : Tally → Nat} (hzero : count s.tally = 0) {es : List (Event κ υ)}
    (hes : s.Along (Adds D count) es) :
    {t | s.Sometime (D t) es}.encard = count (s.actAll es).tally := by
  -- Whoever is in the set was decided by the event that put it there.
  have hdecided : ∀ {es}, s.Along (Adds D count) es → ∀ t, s.Sometime (D t) es →
      (s.actAll es).registry.isActive t = false := by
    rintro es hes t ⟨pre, e, post, rfl, he⟩
    have hwf := h.actAll pre
    cases hes.holds_at with
    | one honly hactive hdecided _ =>
        obtain rfl := (honly t).mp he
        have hlt := Nat.lt_of_lt_of_le (Registry.lt_size_of_isActive hactive)
          (hwf.extends_act e).size_le
        rw [← Bool.not_eq_true]
        intro hlater
        rw [actAll_append, actAll_cons] at hlater
        rw [((hwf.act e).extends_actAll post).isActive_of_isActive hlt hlater] at hdecided
        cases hdecided
    | none hnobody _ => exact absurd he (hnobody t)
  induction es using List.reverseRecOn with
  | nil =>
      have hempty : {t | s.Sometime (D t) []} = ∅ := by
        ext t
        simp [not_sometime_nil]
      rw [hempty, Set.encard_empty, actAll_nil, hzero]
      rfl
  | append_singleton es e ih =>
      obtain ⟨hes, he, -⟩ := along_append.mp hes
      rw [actAll_append, actAll_cons, actAll_nil]
      cases he with
      | @one t honly hactive _ hcounted =>
          have hinsert : {u | s.Sometime (D u) (es ++ [e])} =
              Insert.insert t {u | s.Sometime (D u) es} := by
            ext u
            simp only [Set.mem_ofPred_eq, sometime_concat, honly, Set.mem_insert_iff]
            exact Or.comm
          have hnew : t ∉ {u | s.Sometime (D u) es} := fun hmem => by
            rw [hdecided hes t hmem] at hactive
            cases hactive
          rw [hinsert, Set.encard_insert_of_notMem hnew, ih hes, hcounted]
          rfl
      | none hnobody hcounted =>
          have hsame : {u | s.Sometime (D u) (es ++ [e])} = {u | s.Sometime (D u) es} := by
            ext u
            simp [sometime_concat, hnobody]
          rw [hsame, ih hes, hcounted]

/-- An event decides one transaction and counts it, or it does neither, unless it resets the
counters. -/
theorem settles_or_quiet (h : s.WellFormed) {e : Event κ υ} (hreset : e ≠ .resetTally) :
    (∃ t final fake, e = .settle t final fake ∧ s.registry.isActive t) ∨
      (∀ t, s.registry.isActive t → (s.act e).registry.status t = .active) ∧
        (s.act e).tally = s.tally := by
  by_cases hsettle : ∃ t final fake, e = .settle t final fake ∧ s.registry.isActive t
  · exact Or.inl hsettle
  · refine Or.inr ⟨fun t hactive => ?_, h.tally_act hreset fun t final fake heq => ?_⟩
    · by_contra hne
      obtain ⟨fake, heq⟩ := h.eq_settle_of_status_ne hactive hne
      exact hsettle ⟨t, _, fake, heq, hactive⟩
    · rw [← Bool.not_eq_true]
      exact fun hactive => hsettle ⟨t, final, fake, heq, hactive⟩

/-- Deciding counts in one counter. -/
theorem adds_decides (h : s.WellFormed) {e : Event κ υ} (hproper : Proper e)
    (hreset : e ≠ .resetTally) {final : Status} (hfinal : final ≠ .active) {count : Tally → Nat}
    (hcount : ∀ (c : Tally) (st : Status) (fake : Bool), st ≠ .active →
      count (if st = .committed then c.commit else c.abort fake) =
        count c + if st = final then 1 else 0) :
    Adds (fun t => Decides t final) count s e := by
  rcases h.settles_or_quiet hreset with ⟨t, st, fake, rfl, hactive⟩ | ⟨hquiet, htally⟩
  · have hstatus : ∀ u, Decides u final s (.settle t st fake) ↔ u = t ∧ st = final := by
      intro u
      constructor
      · rintro ⟨huactive, hu⟩
        exact (eq_of_status_settle huactive hfinal hu).imp_right Eq.symm
      · rintro ⟨rfl, rfl⟩
        refine ⟨hactive, ?_⟩
        rw [Registry.status, Store.act, status_settle, if_pos ⟨rfl, hactive⟩]
    by_cases heq : st = final
    · refine .one (t := t) (fun u => by rw [hstatus, and_iff_left heq]) hactive ?_ ?_
      · rw [Store.act, isActive_settle hproper.1]
        simp
      · rw [Store.act, tally_settle hactive, hcount _ _ _ hproper.1, if_pos heq]
    · refine .none (fun u hu => heq ((hstatus u).mp hu).2) ?_
      rw [Store.act, tally_settle hactive, hcount _ _ _ hproper.1, if_neg heq]
      rfl
  · exact .none (fun u hu => hfinal (hu.2.symm.trans (hquiet u hu.1))) (congrArg count htally)

/-- Giving a transaction up counts in the counter of the fake aborts. -/
theorem adds_givesUp (h : s.WellFormed) {e : Event κ υ} (hproper : Proper e)
    (hreset : e ≠ .resetTally) : Adds GivesUp Tally.fakeAborts s e := by
  rcases h.settles_or_quiet hreset with ⟨t, st, fake, rfl, hactive⟩ | ⟨hquiet, htally⟩
  · cases fake with
    | true =>
        obtain rfl := hproper.2 rfl
        refine .one (t := t) (fun u => ?_) hactive ?_ ?_
        · constructor
          · rintro ⟨-, heq⟩
            exact ((Event.settle.inj heq).1).symm
          · rintro rfl
            exact ⟨hactive, rfl⟩
        · rw [Store.act, isActive_settle hproper.1]
          simp
        · rw [Store.act, tally_settle hactive]
          rfl
    | false =>
        refine .none (fun u hu => ?_) ?_
        · cases hu.2
        · rw [Store.act, tally_settle hactive]
          split <;> rfl
  · refine .none (fun u hu => ?_) (congrArg Tally.fakeAborts htally)
    obtain ⟨huactive, rfl⟩ := hu
    have hactive := hquiet u huactive
    rw [Registry.status, Store.act, status_settle, if_pos ⟨rfl, huactive⟩] at hactive
    cases hactive

end WellFormed

/-- After the events, the counters are the numbers of transactions that were committed, aborted, and
aborted to break a cycle at one of them. -/
structure Counts (s : Store κ υ) (es : List (Event κ υ)) : Prop where
  commits : {t | s.Sometime (Decides t .committed) es}.encard = (s.actAll es).tally.commits
  aborts : {t | s.Sometime (Decides t .aborted) es}.encard = (s.actAll es).tally.aborts
  fakeAborts : {t | s.Sometime (GivesUp t) es}.encard = (s.actAll es).tally.fakeAborts
  /-- To be given up is to be aborted. -/
  aborted_of_givesUp : ∀ t, s.Sometime (GivesUp t) es → s.Sometime (Decides t .aborted) es
  fakeAborts_le : (s.actAll es).tally.fakeAborts ≤ (s.actAll es).tally.aborts

/-- **Counters that start at zero** are numbers of transactions. -/
theorem WellFormed.counts {s : Store κ υ} (h : s.WellFormed) (hzero : s.tally = {})
    {es : List (Event κ υ)} (hproper : ∀ e ∈ es, Proper e) (hreset : .resetTally ∉ es) :
    s.Counts es := by
  have hall : ∀ {D : TxnRef → Store κ υ → Event κ υ → Prop} {count : Tally → Nat},
      (∀ {s : Store κ υ} {e : Event κ υ}, s.WellFormed → Proper e → e ≠ .resetTally →
        Adds D count s e) → s.Along (Adds D count) es := by
    intro D count hadds
    clear hzero
    induction es generalizing s with
    | nil => exact trivial
    | cons e es ih =>
        rw [List.mem_cons, not_or] at hreset
        refine ⟨hadds h (hproper e List.mem_cons_self) (Ne.symm hreset.1), ?_⟩
        exact ih (h.act e) (fun e' he' => hproper e' (List.mem_cons_of_mem e he')) hreset.2
  have hsub : ∀ t, s.Sometime (GivesUp t) es → s.Sometime (Decides t .aborted) es := by
    rintro t ⟨pre, e, post, heq, hactive, rfl⟩
    refine ⟨pre, _, post, heq, hactive, ?_⟩
    rw [Registry.status, Store.act, status_settle, if_pos ⟨rfl, hactive⟩]
  have haborts : {t | s.Sometime (Decides t .aborted) es}.encard =
      (s.actAll es).tally.aborts := by
    refine h.encard_sometime (by rw [hzero]) (hall fun hwf hproper hreset => ?_)
    refine hwf.adds_decides hproper hreset (by decide) fun c st fake hst => ?_
    cases st with
    | active => exact absurd rfl hst
    | committed => rfl
    | aborted => rfl
  have hfake : {t | s.Sometime (GivesUp t) es}.encard = (s.actAll es).tally.fakeAborts :=
    h.encard_sometime (by rw [hzero]) (hall fun hwf => hwf.adds_givesUp)
  refine ⟨?_, haborts, hfake, hsub, ?_⟩
  · refine h.encard_sometime (by rw [hzero]) (hall fun hwf hproper hreset => ?_)
    refine hwf.adds_decides hproper hreset (by decide) fun c st fake hst => ?_
    cases st with
    | active => exact absurd rfl hst
    | committed => rfl
    | aborted => rfl
  · have hle := Set.encard_le_encard (s := {t | s.Sometime (GivesUp t) es}) hsub
    rw [hfake] at hle
    have hle := hle.trans_eq haborts
    exact_mod_cast hle

end Store

/-! ### Statuses and slots -/

/-- From `r` to `r'` statuses change only from active to committed or aborted, and what is in a slot
stays there. -/
structure Registry.Settles (r r' : Registry κ υ) : Prop where
  size_le : r.size ≤ r'.size
  status : ∀ t < r.size, r'.status t = r.status t ∨
    r.status t = .active ∧ (r'.status t = .committed ∨ r'.status t = .aborted)
  read : ∀ t < r.size, ∀ i v, (r.get t).read? i = some v → (r'.get t).read? i = some v
  effect : ∀ t < r.size, ∀ i id, (r.get t).effect? i = some id → (r'.get t).effect? i = some id

omit [LinearOrder κ] in
/-- In an extension, statuses and slots have changed only as they may. -/
theorem Registry.Extends.settles {r r' : Registry κ υ} (h : r.Extends r') : r.Settles r' where
  size_le := h.size_le
  status t ht := by
    by_cases hactive : r.isActive t
    · by_cases hactive' : r'.isActive t
      · exact Or.inl ((isActive_iff.mp hactive').trans (isActive_iff.mp hactive).symm)
      · exact Or.inr ⟨isActive_iff.mp hactive, decided_of_not_active (by simpa using hactive')⟩
    · exact Or.inl (h.status_eq t ht (by simpa using hactive))
  read := h.read_eq
  effect := h.effect_eq

/-- A transaction that an event registers is active at first. -/
theorem Store.WellFormed.status_of_registered {s : Store κ υ} (h : s.WellFormed) (e : Event κ υ)
    {t : TxnRef} (hold : s.registry.size ≤ t) (hnew : t < (s.act e).registry.size) :
    (s.act e).registry.status t = .active := by
  have hsame : ∀ {r : Registry κ υ}, (s.act e).registry = r → r.size = s.registry.size →
      (s.act e).registry.status t = .active := fun hr hsize => by
    rw [hr, hsize] at hnew
    exact absurd hnew (Nat.not_lt.mpr hold)
  cases e with
  | allocate ops =>
      rw [Store.act, Store.allocate, Registry.size_add] at hnew
      obtain rfl : t = s.registry.size := Nat.le_antisymm (Nat.lt_succ_iff.mp hnew) hold
      rw [Registry.status, Store.act, Store.allocate, Registry.get_add, if_pos rfl]
      rfl
  | attempt u i =>
      refine hsame rfl ?_
      cases hop : (s.registry.get u).op? i with
      | none => rw [Drive.act_attempt_of_none hop]
      | some op =>
          rw [Drive.act_attempt hop]
          exact (s.slotsOnly_attempt u i op).size_eq
  | settle u final fake => exact hsame rfl (s.size_settle u final fake)
  | sweep f => exact hsame (s.registry_sweep f) rfl
  | linkLate u i => exact hsame (h.registry_linkLate u i) rfl
  | resetTally => exact hsame rfl rfl

/-! ### Victims of cycles -/

namespace Store

omit [LinearOrder κ] in
/-- Finishing a frame decides its transaction properly. -/
theorem proper_finishEvents (s : Store κ υ) (f : Frame) : ∀ e ∈ s.finishEvents f, Proper e := by
  rw [finishEvents]
  split
  · simp [Proper]
  · split <;> simp [Proper]

omit [LinearOrder κ] in
/-- To finish the frame of a decided transaction is to sweep. -/
theorem finish_of_decided [LT κ] [DecidableLT κ] (s : Store κ υ) {f : Frame}
    (hdecided : s.registry.isActive f.txn = false) : s.finish f = s.sweep f := by
  simp only [finish, settle_of_not_active hdecided, ite_self]

/-- Finishing a frame gives nobody up. -/
theorem not_givesUp_finishEvents (s : Store κ υ) (f : Frame) (t : TxnRef) :
    ¬s.Sometime (GivesUp t) (s.finishEvents f) := by
  rw [finishEvents]
  split
  · simp [GivesUp]
  · split <;> simp [GivesUp]

end Store

namespace Drive

/-- A round decides transactions properly. -/
theorem proper_events (d : Drive κ υ) : ∀ e ∈ d.events, Store.Proper e := by
  have hhelp : ∀ (d : Drive κ υ) (owner : TxnRef), ∀ e ∈ d.helpEvents owner, Store.Proper e := by
    intro d owner
    rw [helpEvents]
    split
    · simp
    · simp [Store.giveUpEvents, Store.Proper]
  rw [events]
  split
  · simp
  · split
    · exact d.store.proper_finishEvents _
    · rw [performEvents]
      refine List.forall_mem_cons.mpr ⟨trivial, ?_⟩
      split
      · exact hhelp _ _
      · simp
      · simp
      · simp

omit [LinearOrder κ] in
/-- Where a cycle is broken, there is only one victim. -/
theorem Breaks.victim_eq {s : Store κ υ} {stack : Stack} {start : Nat} {victim victim' : Frame}
    {d d' : Drive κ υ} (h : Breaks s stack start victim d) (h' : Breaks s stack start victim' d') :
    victim.txn = victim'.txn := by
  obtain ⟨p, hp, hget, -⟩ := h.cut
  obtain ⟨p', hp', hget', -⟩ := h'.cut
  by_contra hne
  have hlt := h.youngest p' victim' hp' hget' (Ne.symm hne)
  have hlt' := h'.youngest p victim hp hget hne
  omega

omit [LinearOrder κ] in
/-- The victim of a cycle is active until then. -/
theorem Breaks.isActive_victim {s : Store κ υ} {stack : Stack} {start : Nat} {victim : Frame}
    {d : Drive κ υ} (h : Breaks s stack start victim d) : s.registry.isActive victim.txn := by
  obtain ⟨p, hp, hget, -⟩ := h.cut
  exact h.cycle.active p victim hp hget

/-- A round that starts on a blocked frame gives up whom it cuts the stack at. -/
theorem Sound.sometime_givesUp_iff {s : Store κ υ} {f : Frame} {below : List Frame}
    (h : Sound ⟨s, ⟨f :: below⟩⟩) {op : Operation κ υ} (hpending : f.pending? s.registry = some op)
    {t : TxnRef} : s.Sometime (Store.GivesUp t) (performEvents s f below op) ↔
      Sacrifices ⟨s, ⟨f :: below⟩⟩ t := by
  have hact := act_attempt (Frame.pending?_eq_some_iff.mp hpending).2.2
  have hquiet : ¬Store.GivesUp t s (.attempt f.txn f.next) := by simp [Store.GivesUp]
  rw [performEvents, Store.sometime_cons, or_iff_right hquiet, hact]
  rcases hattempt : s.attempt f.txn f.next op with ⟨s', n | n | _ | ⟨owner, resume⟩⟩
  case blocked =>
    dsimp only
    constructor
    · intro hgivesUp
      rw [helpEvents] at hgivesUp
      rcases hcut : Stack.cut? ⟨f :: below⟩ (fun t => (s'.registry.get t).id) owner with
        _ | ⟨victim, rest⟩
      · rw [hcut] at hgivesUp
        exact absurd hgivesUp Store.not_sometime_nil
      · rw [hcut] at hgivesUp
        dsimp only [Store.giveUpEvents] at hgivesUp
        obtain ⟨start, hposition, -⟩ := Stack.cut?_eq_some_iff.mp hcut
        obtain ⟨victim', rest', hcut', hbreaks⟩ := h.breaks_of_blocked hpending hattempt hposition
        obtain ⟨rfl, rfl⟩ := Prod.mk.inj (Option.some.inj (hcut.symm.trans hcut'))
        refine ⟨f, op, s', owner, resume, start, victim, _, rfl, hpending, hattempt, hposition, ?_,
          hbreaks, ?_⟩
        · simp only [Drive.advance, hpending, perform, hattempt, help, hcut]
        · rw [Store.sometime_cons, Store.sometime_cons] at hgivesUp
          rcases hgivesUp with ⟨-, heq⟩ | ⟨-, heq⟩ | hnil
          · exact (Event.settle.inj heq).1
          · cases heq
          · exact absurd hnil Store.not_sometime_nil
    · rintro ⟨f', op', s'', owner', resume', start, victim, d', htop, hpending', hattempt',
        hposition, -, hbreaks, rfl⟩
      obtain rfl : f = f' := Option.some.inj htop
      obtain rfl : op = op' := Option.some.inj (hpending.symm.trans hpending')
      obtain ⟨rfl, hprogress⟩ := Prod.mk.inj (hattempt.symm.trans hattempt')
      obtain ⟨rfl, rfl⟩ := Progress.blocked.inj hprogress
      obtain ⟨victim', rest, hcut, hbreaks'⟩ := h.breaks_of_blocked hpending hattempt hposition
      have hactive := hbreaks.isActive_victim
      rw [hbreaks.victim_eq hbreaks'] at hactive ⊢
      simp only [helpEvents, hcut, Store.giveUpEvents]
      exact Store.sometime_cons.mpr (Or.inl ⟨hactive, rfl⟩)
  all_goals
    refine iff_of_false Store.not_sometime_nil ?_
    rintro ⟨f', op', s'', owner', resume', start, victim, d', htop, hpending', hattempt', -⟩
    obtain rfl : f = f' := Option.some.inj htop
    obtain rfl : op = op' := Option.some.inj (hpending.symm.trans hpending')
    cases (Prod.mk.inj (hattempt.symm.trans hattempt')).2

/-- A round on a frame with nothing left to perform has no victim. -/
theorem not_sacrifices_of_finished {s : Store κ υ} {f : Frame} {below : List Frame}
    (hdone : f.pending? s.registry = none) (t : TxnRef) : ¬Sacrifices ⟨s, ⟨f :: below⟩⟩ t := by
  rintro ⟨f', op, s', owner, resume, start, victim, d', htop, hpending, -⟩
  obtain rfl : f = f' := Option.some.inj htop
  cases hdone.symm.trans hpending

/-- **A round gives a transaction up exactly if it breaks a cycle and the transaction is the
victim.** -/
theorem Steady.sometime_givesUp_iff {d : Drive κ υ} (h : d.Steady) {t : TxnRef} :
    d.store.Sometime (Store.GivesUp t) d.events ↔ d.Sacrifices t := by
  obtain ⟨s, ⟨frames⟩⟩ := d
  cases frames with
  | nil =>
      refine iff_of_false Store.not_sometime_nil ?_
      rintro ⟨f, op, s', owner, resume, start, victim, d', htop, -⟩
      cases htop
  | cons f below =>
      cases hpending : f.pending? s.registry with
      | none =>
          refine iff_of_false ?_ (not_sacrifices_of_finished hpending t)
          simp only [events, hpending]
          exact s.not_givesUp_finishEvents f t
      | some op =>
          cases h with
          | sound h =>
              simp only [events, hpending]
              exact h.sometime_givesUp_iff hpending
          | @settled _ g hframes hdecided =>
              obtain rfl : f = g := (List.cons.inj hframes).1
              have hactive := (Frame.pending?_eq_some_iff.mp hpending).2.1
              exact absurd hactive (by simpa using hdecided)

end Drive

namespace HelpingSession

/-- A command decides transactions properly. -/
theorem proper_events (s : HelpingSession κ υ) (c : Command κ υ) :
    ∀ e ∈ s.events c, Store.Proper e := by
  have hhistory : ∀ d : Drive κ υ, ∀ e ∈ d.history, Store.Proper e := by
    intro d e he
    obtain ⟨d', -, he⟩ := List.mem_flatMap.mp he
    exact d'.proper_events e he
  have hexecute : ∀ ops, ∀ e ∈ s.store.executeEvents ops, Store.Proper e := fun ops =>
    List.forall_mem_cons.mpr ⟨trivial, hhistory _⟩
  cases c with
  | execute ops => exact hexecute ops
  | find k => exact hexecute _
  | insert k v => exact hexecute _
  | delete k => exact hexecute _
  | run t => exact hhistory _
  | finish t next failed => exact s.store.proper_finishEvents _
  | allocate ops => simp [events, Store.Proper]
  | step t i => simp [events, Store.Proper]
  | late t i => simp [events, Store.Proper]
  | resetTally => simp [events, Store.Proper]
  | entries => simp [events]
  | survey => simp [events]
  | tally => simp [events]
  | inspect t => simp [events]

/-- All that happens in a run decides transactions properly. -/
theorem Run.proper {s : HelpingSession κ υ} {es : List (Event κ υ)} (h : Run s es) :
    ∀ e ∈ es, Store.Proper e := by
  induction h with
  | fresh => simp
  | @perform s es _ c ih =>
      intro e he
      rcases List.mem_append.mp he with he | he
      · exact ih e he
      · exact s.proper_events c e he

/-- **A command gives a transaction up** exactly if it sets a thread to work and in some round of
it the transaction is the victim of a cycle. -/
theorem Reachable.sometime_givesUp_iff {s : HelpingSession κ υ} (hs : s.Reachable)
    (c : Command κ υ) (t : TxnRef) : s.store.Sometime (Store.GivesUp t) (s.events c) ↔
      ∃ d d', s.loop? c = some d ∧ d' ∈ d.rounds ∧ d'.Sacrifices t := by
  have hloop : ∀ {d}, s.loop? c = some d → (d.store.Sometime (Store.GivesUp t) d.history ↔
      ∃ d₁ d', s.loop? c = some d₁ ∧ d' ∈ d₁.rounds ∧ d'.Sacrifices t) := by
    intro d hd
    obtain ⟨hwf, u, hroot⟩ := hs.ofRoot_of_loop? hd
    have hsteady : ∀ d' ∈ d.rounds, d'.Steady := by
      obtain ⟨store, stack⟩ := d
      dsimp only at hwf hroot
      subst hroot
      exact Drive.forall_mem_rounds (.ofRoot hwf u) fun _ _ => Drive.Steady.advance
    rw [Drive.sometime_history, hd]
    constructor
    · rintro ⟨d', hmem, hgivesUp⟩
      exact ⟨d, d', rfl, hmem, (hsteady d' hmem).sometime_givesUp_iff.mp hgivesUp⟩
    · rintro ⟨_, d', ⟨⟩, hmem, hvictim⟩
      exact ⟨d', hmem, (hsteady d' hmem).sometime_givesUp_iff.mpr hvictim⟩
  -- What registers a transaction gives up nobody.
  have hexecute : ∀ {ops}, s.loop? c = some (s.store.driver ops) →
      (s.store.Sometime (Store.GivesUp t) (s.store.executeEvents ops) ↔
        ∃ d₁ d', s.loop? c = some d₁ ∧ d' ∈ d₁.rounds ∧ d'.Sacrifices t) := by
    intro ops hd
    rw [← hloop hd, Store.executeEvents, Store.sometime_cons]
    exact or_iff_right (by simp [Store.GivesUp])
  have hquiet : s.loop? c = none → ¬s.store.Sometime (Store.GivesUp t) (s.events c) →
      (s.store.Sometime (Store.GivesUp t) (s.events c) ↔
        ∃ d₁ d', s.loop? c = some d₁ ∧ d' ∈ d₁.rounds ∧ d'.Sacrifices t) := by
    intro hnone hnot
    simp [hnone, hnot]
  cases c with
  | execute ops => exact hexecute rfl
  | find k => exact hexecute rfl
  | insert k v => exact hexecute rfl
  | delete k => exact hexecute rfl
  | run u => exact hloop rfl
  | finish u next failed => exact hquiet rfl (s.store.not_givesUp_finishEvents _ t)
  | allocate ops => exact hquiet rfl (by simp [events, Store.GivesUp])
  | step u i => exact hquiet rfl (by simp [events, Store.GivesUp])
  | late u i => exact hquiet rfl (by simp [events, Store.GivesUp])
  | resetTally => exact hquiet rfl (by simp [events, Store.GivesUp])
  | entries => exact hquiet rfl Store.not_sometime_nil
  | survey => exact hquiet rfl Store.not_sometime_nil
  | tally => exact hquiet rfl Store.not_sometime_nil
  | inspect u => exact hquiet rfl Store.not_sometime_nil

/-- To run a decided transaction leaves all as it is. -/
theorem perform_run_of_decided {s : HelpingSession κ υ} {t : TxnRef}
    (hdecided : s.store.registry.isActive t = false) : (s.perform (.run t)).1 = s := by
  let f : Frame := { txn := t, next := 0 }
  have hfinish : s.store.finish f = s.store := by
    rw [s.store.finish_of_decided hdecided, Store.sweep, if_neg (by simp [f, hdecided])]
    rfl
  have hpending : f.pending? s.store.registry = none := by simp [Frame.pending?, f, hdecided]
  have hrun : s.store.drive t = s.store := (Drive.run_of_finished hpending).trans hfinish
  simp only [perform, hrun]

/-- To finish a decided transaction decides nobody and counts nothing. -/
theorem perform_finish_of_decided {s : HelpingSession κ υ} (h : s.store.WellFormed) {t : TxnRef}
    (hdecided : s.store.registry.isActive t = false) (next : Nat) (failed : Bool) :
    (s.perform (.finish t next failed)).1.store.registry = s.store.registry ∧
      (s.perform (.finish t next failed)).1.store.tally = s.store.tally := by
  let f : Frame := { txn := t, next, failed, touched := s.touched t }
  show (s.store.finish f).registry = _ ∧ (s.store.finish f).tally = _
  rw [s.store.finish_of_decided hdecided]
  exact ⟨s.store.registry_sweep f, h.tally_sweep f⟩

/-- Over a run that happened as `es` tells, every transaction is decided once and counted once. -/
structure Tallied (s : HelpingSession κ υ) (es : List (Event κ υ)) : Prop where
  store_eq : Store.actAll {} es = s.store
  /-- Between any two moments statuses and slots change as they may. -/
  settles : ∀ pre mid post, es = pre ++ (mid ++ post) →
    (Store.actAll {} pre).registry.Settles (Store.actAll {} (pre ++ mid)).registry
  /-- Every transaction is active at first. -/
  registered : ∀ pre e post, es = pre ++ e :: post → ∀ t,
    (Store.actAll {} pre).registry.size ≤ t → t < (Store.actAll {} (pre ++ [e])).registry.size →
      (Store.actAll {} (pre ++ [e])).registry.status t = .active
  /-- At every moment the counters count what happened since the last reset. -/
  counts : ∀ pre mid post, es = pre ++ (mid ++ post) →
    (pre = [] ∨ ∃ pre', pre = pre' ++ [.resetTally]) → .resetTally ∉ mid →
      (Store.actAll {} pre).Counts mid
  /-- Whatever is asked next, those given up are the victims of cycles. -/
  victims : ∀ c t, s.store.Sometime (Store.GivesUp t) (s.events c) ↔
    ∃ d d', s.loop? c = some d ∧ d' ∈ d.rounds ∧ d'.Sacrifices t
  /-- To run a decided transaction, or to finish it, decides and counts nothing. -/
  run_decided : ∀ t, s.store.registry.isActive t = false → (s.perform (.run t)).1 = s
  finish_decided : ∀ t, s.store.registry.isActive t = false → ∀ next failed,
    (s.perform (.finish t next failed)).1.store.registry = s.store.registry ∧
      (s.perform (.finish t next failed)).1.store.tally = s.store.tally

/-- **Every transaction is decided once and counted once**, whatever is asked of a session in
whatever order. -/
theorem Run.counted_once {s : HelpingSession κ υ} {es : List (Event κ υ)} (h : Run s es) :
    s.Tallied es where
  store_eq := h.store_eq
  settles pre mid post _ := by
    rw [Store.actAll_append]
    exact ((Store.WellFormed.fresh.actAll pre).extends_actAll mid).settles
  registered pre e post _ t hold hnew := by
    rw [Store.actAll_append, Store.actAll_cons, Store.actAll_nil] at hnew ⊢
    exact (Store.WellFormed.fresh.actAll pre).status_of_registered e hold hnew
  counts pre mid post heq hpre hreset := by
    have hzero : (Store.actAll {} pre : Store κ υ).tally = {} := by
      rcases hpre with rfl | ⟨pre, rfl⟩
      · rfl
      · rw [Store.actAll_append]
        rfl
    refine (Store.WellFormed.fresh.actAll pre).counts hzero (fun e he => h.proper e ?_) hreset
    rw [heq]
    exact List.mem_append_right pre (List.mem_append_left post he)
  victims c t := h.reachable.sometime_givesUp_iff c t
  run_decided _ hdecided := perform_run_of_decided hdecided
  finish_decided _ hdecided next failed :=
    perform_finish_of_decided h.reachable.wellFormed hdecided next failed

/-- To run the first of two crossing transactions commits it and gives the other one up, which
counts as one abort. -/
theorem counted_once_crossing : ∃ es, Run (crossing.perform (.run 0)).1 es ∧
    (crossing.perform (.run 0)).1.store.tally = ⟨1, 1, 1⟩ ∧
    (crossing.perform (.run 0)).1.Tallied es := by
  have hcrossing : Run crossing _ := (((Run.fresh.perform _).perform _).perform _).perform _
  have hrun := hcrossing.perform (.run 0)
  refine ⟨_, hrun, ?_, Run.counted_once hrun⟩
  rw [perform_run_of_after (n := 12) rfl (by decide)]
  decide

end HelpingSession

end AtomicSet
