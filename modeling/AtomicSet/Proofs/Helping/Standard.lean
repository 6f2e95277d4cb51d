import AtomicSet.Proofs.Helping.Rounds

/-!
# What threads leave behind them

A thread performs the operations of a transaction one after another, and a thread that helps sets in
where a stamp of the transaction tells that everything before it is done. What exactly is done may
be more or less: that the operation left its stamp, that it was published. This module fixes what
such a standard has to provide, and shows once and for all that threads keep to it: for every
transaction on its stack, what a thread has behind it is done, and it commits a transaction only
with all of its operations done.

## Main definitions

* `Standard` — when an operation counts as done, and what an attempt tells about it.
* `Drive.Tracks` — what a thread has behind it is done.

## Main results

* `Drive.Tracks.advance` — every round keeps a thread on track.
* `Drive.Tracks.admits_history` — all that a thread does respects the standard.
-/

namespace AtomicSet

variable {κ υ : Type} [LinearOrder κ]

/-- A standard for operations to be done. -/
structure Standard (κ υ : Type) [LinearOrder κ] where
  /-- What holds of the store at every moment. -/
  Holds : Store κ υ → Prop
  /-- When the operation of a transaction at a position counts as done. -/
  Did : Store κ υ → TxnRef → Nat → Operation κ υ → Prop
  wellFormed : ∀ {s}, Holds s → s.WellFormed
  /-- What is done stays done while the transaction is active. -/
  lasting : ∀ {s t i op}, Holds s → ∀ es, (s.registry.get t).op? i = some op →
    (s.actAll es).registry.isActive t → Did s t i op → Did (s.actAll es) t i op
  /-- An attempt that succeeds gets the operation done. -/
  achieved : ∀ {s t i op s' progress id}, Holds s → (s.registry.get t).op? i = some op →
    s.registry.isActive t → s.attempt t i op = (s', progress) → progress.node? = some id →
    Did s' t i op
  /-- An attempt that is blocked names a position up to which everything is done. -/
  reached : ∀ {s t i op s' owner resume}, Holds s →
    s.attempt t i op = (s', .blocked owner resume) → s'.Behind Did owner resume
  /-- The events that respect what is done keep what holds of the store. -/
  act : ∀ {s e}, Holds s → s.Admits Did e → Holds (s.act e)

namespace Standard

variable (P : Standard κ υ)

/-- A standard holds still after admissible events. -/
theorem actAll {s : Store κ υ} (h : P.Holds s) {es : List (Event κ υ)}
    (hes : s.Along (Store.Admits P.Did) es) : P.Holds (s.actAll es) := by
  induction es generalizing s with
  | nil => exact h
  | cons e es ih => exact ih (P.act h hes.1) hes.2

/-- A transaction stays as far as it got while it is active. -/
theorem behind_actAll {s : Store κ υ} (h : P.Holds s) (es : List (Event κ υ)) {t : TxnRef}
    {i : Nat} (ht : t < s.registry.size) (hactive : (s.actAll es).registry.isActive t)
    (hbehind : s.Behind P.Did t i) : (s.actAll es).Behind P.Did t i := by
  intro j hj op hop
  rw [Transaction.op?_congr (((P.wellFormed h).extends_actAll es).ops_eq t ht)] at hop
  exact P.lasting h es hop hactive (hbehind j hj op hop)

end Standard

namespace Drive

/-- For each transaction that the thread drives, what lies behind it is done. -/
structure Tracks (P : Standard κ υ) (d : Drive κ υ) : Prop where
  holds : P.Holds d.store
  behind : ∀ f ∈ d.stack.frames, f.failed = false → d.store.registry.isActive f.txn →
    d.store.Behind P.Did f.txn f.next

namespace Tracks

variable {P : Standard κ υ}

/-- A thread that has just been set to work keeps to the standard. -/
theorem ofRoot {s : Store κ υ} (h : P.Holds s) (t : TxnRef) : Tracks P ⟨s, .ofRoot t⟩ where
  holds := h
  behind f hf _ _ := by
    rw [List.mem_singleton.mp hf]
    exact .zero s t

/-- Frames stay as far as they got, whatever happens that respects what is done. -/
theorem actAll {s : Store κ υ} {stack : Stack} (h : Tracks P ⟨s, stack⟩) {es : List (Event κ υ)}
    (hes : s.Along (Store.Admits P.Did) es)
    (hsize : (s.actAll es).registry.size = s.registry.size) : Tracks P ⟨s.actAll es, stack⟩ where
  holds := P.actAll h.holds hes
  behind f hf hfailed hactive := by
    have hlt : f.txn < s.registry.size := hsize ▸ Registry.lt_size_of_isActive hactive
    have hbefore := ((P.wellFormed h.holds).extends_actAll es).isActive_of_isActive hlt hactive
    exact P.behind_actAll h.holds es hlt hactive (h.behind f hf hfailed hbefore)

/-- Frames may be removed. -/
theorem of_subset {s : Store κ υ} {stack stack' : Stack} (h : Tracks P ⟨s, stack⟩)
    (hsubset : ∀ f ∈ stack'.frames, f ∈ stack.frames) : Tracks P ⟨s, stack'⟩ where
  holds := h.holds
  behind f hf := h.behind f (hsubset f hf)

/-- A frame may be put on top that got as far as it says. -/
theorem cons {s : Store κ υ} {below : List Frame} (h : Tracks P ⟨s, ⟨below⟩⟩) {f : Frame}
    (hf : f.failed = false → s.registry.isActive f.txn → s.Behind P.Did f.txn f.next) :
    Tracks P ⟨s, ⟨f :: below⟩⟩ where
  holds := h.holds
  behind g hg := by
    rcases List.mem_cons.mp hg with rfl | hg
    · exact hf
    · exact h.behind g hg

/-- To finish a frame respects what is done. -/
theorem admits_finishEvents {s : Store κ υ} {f : Frame} {below : List Frame}
    (h : Tracks P ⟨s, ⟨f :: below⟩⟩) : s.Along (Store.Admits P.Did) (s.finishEvents f) := by
  rw [Store.finishEvents]
  cases hfailed : f.failed with
  | true => exact ⟨⟨by decide, fun hne => by cases hne⟩, trivial, trivial⟩
  | false =>
      rw [if_neg Bool.false_ne_true]
      by_cases hall : (s.registry.get f.txn).size ≤ f.next
      · rw [if_pos hall]
        refine ⟨⟨by decide, fun _ hactive => ?_⟩, trivial, trivial⟩
        exact (h.behind f List.mem_cons_self hfailed hactive).of_le hall
      · rw [if_neg hall]
        exact ⟨trivial, trivial⟩

/-- To give a victim up is always admissible. -/
theorem admits_giveUpEvents (P : Standard κ υ) (s : Store κ υ) (f : Frame) :
    s.Along (Store.Admits P.Did) (Store.giveUpEvents f) :=
  ⟨⟨by decide, fun hne => by cases hne⟩, trivial, trivial⟩

/-- **What happens in a round respects what is done.** -/
theorem admits_events {d : Drive κ υ} (h : d.Tracks P) :
    d.store.Along (Store.Admits P.Did) d.events := by
  obtain ⟨s, ⟨frames⟩⟩ := d
  rw [events]
  cases frames with
  | nil => exact trivial
  | cons f below =>
      dsimp only
      cases hpending : f.pending? s.registry with
      | none => exact h.admits_finishEvents
      | some op =>
          obtain ⟨hfailed, -, hop⟩ := Frame.pending?_eq_some_iff.mp hpending
          refine ⟨fun hactive => h.behind f List.mem_cons_self hfailed hactive, ?_⟩
          rw [act_attempt hop]
          rcases s.attempt f.txn f.next op with ⟨s', _ | _ | _ | ⟨owner, resume⟩⟩
          · exact trivial
          · exact trivial
          · exact trivial
          · dsimp only [helpEvents]
            split
            · exact trivial
            · exact admits_giveUpEvents P ..

/-- An attempt for the top frame keeps a thread on track. -/
theorem attempt {s s' : Store κ υ} {f : Frame} {below : List Frame} {op : Operation κ υ}
    {progress : Progress} (h : Tracks P ⟨s, ⟨f :: below⟩⟩)
    (hpending : f.pending? s.registry = some op)
    (hattempt : s.attempt f.txn f.next op = (s', progress)) : Tracks P ⟨s', ⟨f :: below⟩⟩ := by
  have hfailed := (Frame.pending?_eq_some_iff.mp hpending).1
  have hact := actAll_attempt hpending hattempt
  rw [← hact]
  refine h.actAll ⟨fun hactive => h.behind f List.mem_cons_self hfailed hactive, trivial⟩ ?_
  rw [hact]
  exact (slotsOnly_of_attempt hattempt).size_eq

/-- **Every round keeps a thread on track.** -/
theorem advance {d d' : Drive κ υ} (h : d.Tracks P) (hadvance : d.advance = some d') :
    d'.Tracks P := by
  obtain ⟨s, f, below, rfl, hround⟩ := exists_round hadvance
  have hbelow : Tracks P ⟨s, ⟨below⟩⟩ := h.of_subset fun g hg => List.mem_cons_of_mem f hg
  cases hround with
  | finished hdone =>
      have hes := h.admits_finishEvents
      have hsize := s.size_finish f
      rw [← s.actAll_finishEvents f] at hsize ⊢
      exact hbelow.actAll hes hsize
  | @performed op s' progress n hpending hattempt hnode =>
      have h' := h.attempt hpending hattempt
      obtain ⟨hfailed, hactive, hop⟩ := Frame.pending?_eq_some_iff.mp hpending
      have hslots := slotsOnly_of_attempt hattempt
      refine (h'.of_subset fun g hg => List.mem_cons_of_mem f hg).cons fun _ hactive' => ?_
      refine (h'.behind f List.mem_cons_self hfailed hactive').succ fun op' hop' => ?_
      rw [Transaction.op?_congr (hslots.ops_eq f.txn)] at hop'
      obtain rfl : op = op' := Option.some.inj (hop.symm.trans hop')
      exact P.achieved h.holds hop hactive hattempt hnode
  | failed hpending hattempt =>
      refine ((h.attempt hpending hattempt).of_subset fun g hg => List.mem_cons_of_mem f hg).cons ?_
      exact fun hfailed => by cases hfailed
  | pushed hpending hattempt _ =>
      exact (h.attempt hpending hattempt).cons fun _ _ => P.reached h.holds hattempt
  | @unwound op s' owner resume victim rest hpending hattempt hcut =>
      obtain ⟨above, hsplit⟩ := Stack.frames_of_cut? hcut
      have hrest : Tracks P ⟨s', rest⟩ := (h.attempt hpending hattempt).of_subset fun g hg => by
        rw [hsplit]
        exact List.mem_append_right above (List.mem_cons_of_mem victim hg)
      have hsize := s'.size_giveUp victim
      rw [← s'.actAll_giveUpEvents victim] at hsize ⊢
      exact hrest.actAll (admits_giveUpEvents P s' victim) hsize

/-- **All that a thread does respects what is done.** -/
theorem admits_history {d : Drive κ υ} (h : d.Tracks P) :
    d.store.Along (Store.Admits P.Did) d.history :=
  along_history h (fun _ _ => advance) fun _ => admits_events

end Tracks

end Drive

end AtomicSet
