import AtomicSet.Proofs.Helping.Ownership
import Mathlib.Data.List.Chain

/-!
# The rounds of a thread

A round of the helping loop has five endings, listed by `Drive.Round`. All that is said about rounds
goes through this list. If the thread's own transaction is active when it sets to work, then in
every round the stacked transactions are active and distinct, and each waits for the one above it
(`Drive.Sound`): this is what the thread found when it pushed the upper one, and a wait lasts until
one of the two is decided, which unstacks it.

## Main definitions

* `Drive.Round` — the endings of a round.
* `Drive.Sound` — the invariant of a thread whose own transaction was active at the start.
* `Drive.Steady` — the invariant of any thread.

## Main results

* `Drive.round_of_advance` — these are all endings.
* `Drive.Sound.advance`, `Drive.Steady.advance` — every round keeps the invariants.
* `Drive.Steady.ofRoot`, `HelpingSession.Reachable.ofRoot_of_loop?` — they hold when a command sets
  a thread to work.
-/

namespace AtomicSet

variable {κ υ : Type}

/-! ### Deciding the transaction of a frame -/

namespace Store

section Decide

variable [LT κ] [DecidableLT κ]

/-- Giving a frame up decides its transaction, and no other. -/
theorem isActive_giveUp (s : Store κ υ) (f : Frame) (t : TxnRef) :
    (s.giveUp f).registry.isActive t = (decide (t ≠ f.txn) && s.registry.isActive t) := by
  rw [giveUp, registry_sweep, isActive_settle (by decide)]

/-- Deciding the transaction of a frame registers none. -/
theorem size_giveUp (s : Store κ υ) (f : Frame) :
    (s.giveUp f).registry.size = s.registry.size := by
  rw [giveUp, registry_sweep, size_settle]

/-- Finishing a frame registers nothing. -/
theorem size_finish (s : Store κ υ) (f : Frame) :
    (s.finish f).registry.size = s.registry.size := by
  rw [finish, registry_sweep]
  split
  · exact size_settle ..
  · split
    · exact size_settle ..
    · rfl

/-- Finishing a frame decides no other transaction. -/
theorem isActive_finish_of_ne (s : Store κ υ) {f : Frame} {t : TxnRef} (hne : t ≠ f.txn) :
    (s.finish f).registry.isActive t = s.registry.isActive t := by
  rw [finish, registry_sweep]
  split
  · simp [isActive_settle, hne]
  · split
    · simp [isActive_settle, hne]
    · rfl

/-- Finishing a frame with nothing left to perform decides its transaction. -/
theorem isActive_finish {s : Store κ υ} {f : Frame} (hdone : f.pending? s.registry = none) :
    (s.finish f).registry.isActive f.txn = false := by
  rw [finish, registry_sweep]
  by_cases hfailed : f.failed
  · rw [if_pos hfailed]
    simp [isActive_settle]
  · rw [if_neg hfailed]
    by_cases hall : (s.registry.get f.txn).size ≤ f.next
    · rw [if_pos hall]
      simp [isActive_settle]
    · rw [if_neg hall]
      simpa [Frame.pending?, hfailed, Transaction.op?_eq_none_iff, hall] using hdone

end Decide

end Store

namespace Drive

/-! ### The endings of a round -/

section Round

variable [LT κ] [DecidableLT κ] [DecidableEq κ]

/-- The endings of a round on a frame `f` above the frames `below`. -/
inductive Round (s : Store κ υ) (f : Frame) (below : List Frame) : Drive κ υ → Prop where
  /-- Nothing is left to perform. -/
  | finished (done : f.pending? s.registry = none) : Round s f below ⟨s.finish f, ⟨below⟩⟩
  /-- The next operation was performed, now or before. -/
  | performed {op : Operation κ υ} {s' : Store κ υ} {progress : Progress} {n : NodeId}
      (pending : f.pending? s.registry = some op)
      (attempt : s.attempt f.txn f.next op = (s', progress)) (node : progress.node? = some n) :
      Round s f below ⟨s', ⟨{ f with next := f.next + 1, touched := f.touched ++ [n] } :: below⟩⟩
  /-- The next operation failed. -/
  | failed {op : Operation κ υ} {s' : Store κ υ} (pending : f.pending? s.registry = some op)
      (attempt : s.attempt f.txn f.next op = (s', .refused)) :
      Round s f below ⟨s', ⟨{ f with failed := true } :: below⟩⟩
  /-- Another transaction, which is not on the stack, has to be driven first. -/
  | pushed {op : Operation κ υ} {s' : Store κ υ} {owner : TxnRef} {resume : Nat}
      (pending : f.pending? s.registry = some op)
      (attempt : s.attempt f.txn f.next op = (s', .blocked owner resume))
      (absent : ∀ g ∈ f :: below, g.txn ≠ owner) :
      Round s f below ⟨s', Stack.push ⟨f :: below⟩ owner resume⟩
  /-- Another transaction, which is on the stack already, has to be driven first. -/
  | unwound {op : Operation κ υ} {s' : Store κ υ} {owner : TxnRef} {resume : Nat} {victim : Frame}
      {rest : Stack} (pending : f.pending? s.registry = some op)
      (attempt : s.attempt f.txn f.next op = (s', .blocked owner resume))
      (cut : Stack.cut? ⟨f :: below⟩ (fun t => (s'.registry.get t).id) owner =
        some (victim, rest)) :
      Round s f below ⟨s'.giveUp victim, rest⟩

/-- **A round has these endings.** -/
theorem round_of_advance {d d' : Drive κ υ} (h : d.advance = some d') :
    ∃ f below, d.stack.frames = f :: below ∧ Round d.store f below d' := by
  rw [advance] at h
  cases hframes : d.stack.frames with
  | nil => simp [hframes] at h
  | cons f below =>
      refine ⟨f, below, rfl, ?_⟩
      cases hpending : f.pending? d.store.registry with
      | none =>
          simp only [hframes, hpending, Option.some.injEq] at h
          exact h ▸ .finished hpending
      | some op =>
          simp only [hframes, hpending, Option.some.injEq] at h
          subst h
          rw [perform]
          rcases hattempt : d.store.attempt f.txn f.next op with ⟨s', n | n | _ | ⟨owner, resume⟩⟩
          · exact .performed hpending hattempt rfl
          · exact .performed hpending hattempt rfl
          · exact .failed hpending hattempt
          · simp only [help]
            cases hcut : Stack.cut? ⟨f :: below⟩ (fun t => (s'.registry.get t).id) owner with
            | none => exact .pushed hpending hattempt (Stack.cut?_eq_none_iff.mp hcut)
            | some cut => exact .unwound hpending hattempt hcut

/-- A thread with a round to go has a top frame, which the round is about. -/
theorem exists_round {d d' : Drive κ υ} (h : d.advance = some d') :
    ∃ s f below, d = ⟨s, ⟨f :: below⟩⟩ ∧ Round s f below d' := by
  obtain ⟨f, below, hframes, hround⟩ := round_of_advance h
  obtain ⟨s, ⟨frames⟩⟩ := d
  dsimp only at hframes hround
  subst hframes
  exact ⟨s, f, below, rfl, hround⟩

end Round

end Drive

namespace Stack

/-- A stack is cut at the victim of the cycle that starts at the transaction needed. -/
theorem cut?_eq_some_iff {stack : Stack} {idOf : TxnRef → Nat} {t : TxnRef} {cut : Frame × Stack} :
    stack.cut? idOf t = some cut ↔
      ∃ start, stack.position t = some start ∧
        stack.unwind? (stack.victim idOf start) = some cut :=
  Option.bind_eq_some_iff

/-- A cut splits the stack. -/
theorem frames_of_cut? {stack rest : Stack} {idOf : TxnRef → Nat} {t : TxnRef} {f : Frame}
    (h : stack.cut? idOf t = some (f, rest)) :
    ∃ above, stack.frames = above ++ f :: rest.frames := by
  obtain ⟨start, -, hunwind⟩ := cut?_eq_some_iff.mp h
  generalize stack.victim idOf start = pos at hunwind
  obtain ⟨hget, hbelow⟩ := unwind?_eq_some_iff.mp hunwind
  obtain ⟨hlt, hgetElem⟩ := List.getElem?_eq_some_iff.mp hget
  refine ⟨(stack.fromBottom.drop (pos + 1)).reverse, ?_⟩
  have hsplit : stack.fromBottom =
      rest.fromBottom ++ f :: stack.fromBottom.drop (pos + 1) := by
    rw [hbelow, ← hgetElem, List.getElem_cons_drop, List.take_append_drop]
  calc stack.frames = stack.fromBottom.reverse := by rw [fromBottom, List.reverse_reverse]
    _ = (rest.fromBottom ++ f :: stack.fromBottom.drop (pos + 1)).reverse :=
      congrArg List.reverse hsplit
    _ = _ := by simp [fromBottom]

/-- The position of a transaction is that of one of its frames. -/
theorem frame_of_position {stack : Stack} {t : TxnRef} {start : Nat}
    (h : stack.position t = some start) :
    ∃ f, stack.fromBottom[start]? = some f ∧ f.txn = t := by
  obtain ⟨hlt, htxn, -⟩ := List.findIdx?_eq_some_iff_getElem.mp h
  exact ⟨_, List.getElem?_eq_getElem hlt, of_decide_eq_true htxn⟩

end Stack

namespace Drive

variable [LinearOrder κ]

/-! ### The invariant -/

/-- What holds in every round of a thread whose own transaction was active when it set to work. -/
structure Sound (d : Drive κ υ) : Prop where
  wellFormed : d.store.WellFormed
  /-- The stacked transactions are active. -/
  active : ∀ f ∈ d.stack.frames, d.store.registry.isActive f.txn
  /-- No transaction is stacked twice. -/
  distinct : (d.stack.frames.map Frame.txn).Nodup
  /-- Each frame waits for the one above it. -/
  waits : d.stack.frames.IsChain fun g f => d.store.Waits f g.txn

namespace Sound

/-- A thread that has just been set to work on an active transaction is sound. -/
theorem ofRoot {s : Store κ υ} (h : s.WellFormed) {t : TxnRef} (hactive : s.registry.isActive t) :
    Sound ⟨s, .ofRoot t⟩ where
  wellFormed := h
  active f hf := by
    rw [List.mem_singleton.mp hf]
    exact hactive
  distinct := List.nodup_singleton _
  waits := .singleton _

/-- Whatever happens, as long as the stacked transactions stay active. -/
theorem actAll {s : Store κ υ} {stack : Stack} (h : Sound ⟨s, stack⟩) (es : List (Event κ υ))
    (hactive : ∀ f ∈ stack.frames, (s.actAll es).registry.isActive f.txn) :
    Sound ⟨s.actAll es, stack⟩ where
  wellFormed := h.wellFormed.actAll es
  active := hactive
  distinct := h.distinct
  waits := h.waits.imp_of_mem_imp fun {g f} hg hf hwaits =>
    h.wellFormed.waits_actAll hwaits es (hactive f hf) (hactive g hg)

/-- Frames may be removed from the top. -/
theorem below {s : Store κ υ} (above : List Frame) {frames : List Frame}
    (h : Sound ⟨s, ⟨above ++ frames⟩⟩) :
    Sound ⟨s, ⟨frames⟩⟩ where
  wellFormed := h.wellFormed
  active f hf := h.active f (List.mem_append_right above hf)
  distinct := by
    have := h.distinct
    rw [List.map_append] at this
    exact (List.nodup_append.mp this).2.1
  waits := List.IsChain.right_of_append h.waits

/-- The top frame may be replaced by one of the same transaction. -/
theorem setTop {s : Store κ υ} {f f' : Frame} {below : List Frame}
    (h : Sound ⟨s, ⟨f :: below⟩⟩) (htxn : f'.txn = f.txn) : Sound ⟨s, ⟨f' :: below⟩⟩ where
  wellFormed := h.wellFormed
  active g hg := by
    rcases List.mem_cons.mp hg with rfl | hg
    · rw [htxn]
      exact h.active f List.mem_cons_self
    · exact h.active g (List.mem_cons_of_mem f hg)
  distinct := by
    have := h.distinct
    rwa [List.map_cons, ← htxn, ← List.map_cons] at this
  waits := by
    refine List.IsChain.imp_head (fun hwaits => ?_) h.waits
    rw [htxn]
    exact hwaits

/-- A transaction for which the top frame waits may be pushed, unless it is on the stack. -/
theorem push {s : Store κ υ} {f : Frame} {below : List Frame} (h : Sound ⟨s, ⟨f :: below⟩⟩)
    {owner : TxnRef} (hwaits : s.Waits f owner) (habsent : ∀ g ∈ f :: below, g.txn ≠ owner)
    (resume : Nat) : Sound ⟨s, Stack.push ⟨f :: below⟩ owner resume⟩ where
  wellFormed := h.wellFormed
  active g hg := by
    rcases List.mem_cons.mp hg with rfl | hg
    · obtain ⟨-, -, -, -, -, -, -, hactive⟩ := hwaits
      exact hactive
    · exact h.active g hg
  distinct := by
    refine List.nodup_cons.mpr ⟨fun hmem => ?_, h.distinct⟩
    obtain ⟨g, hg, htxn⟩ := List.mem_map.mp hmem
    exact habsent g hg htxn
  waits := List.isChain_cons_cons.mpr ⟨hwaits, h.waits⟩

/-- The other frames are of other transactions. -/
theorem ne_of_mem {s : Store κ υ} {f g : Frame} (above : List Frame) {below : List Frame}
    (h : Sound ⟨s, ⟨above ++ f :: below⟩⟩) (hg : g ∈ below) : g.txn ≠ f.txn := by
  have hnodup := h.distinct
  rw [List.map_append, List.map_cons] at hnodup
  have hnot := (List.nodup_cons.mp (List.nodup_append.mp hnodup).2.1).1
  exact fun heq => hnot (heq ▸ List.mem_map_of_mem hg)

/-- An attempt for the top frame keeps the invariant. -/
theorem attempt {s s' : Store κ υ} {f : Frame} {below : List Frame} {op : Operation κ υ}
    {progress : Progress} (h : Sound ⟨s, ⟨f :: below⟩⟩) (hpending : f.pending? s.registry = some op)
    (hattempt : s.attempt f.txn f.next op = (s', progress)) : Sound ⟨s', ⟨f :: below⟩⟩ := by
  have hact := actAll_attempt hpending hattempt
  rw [← hact]
  refine h.actAll _ fun g hg => ?_
  rw [hact, (slotsOnly_of_attempt hattempt).isActive_eq]
  exact h.active g hg

/-- A blocked top frame waits, before and after the attempt. -/
theorem waits_of_blocked {s s' : Store κ υ} {f : Frame} {below : List Frame} {op : Operation κ υ}
    {owner : TxnRef} {resume : Nat} (h : Sound ⟨s, ⟨f :: below⟩⟩)
    (hpending : f.pending? s.registry = some op)
    (hattempt : s.attempt f.txn f.next op = (s', .blocked owner resume)) : s'.Waits f owner := by
  have hwaits : s.Waits f owner :=
    h.wellFormed.waits_iff_blocked.mpr ⟨op, resume, hpending, by rw [hattempt]⟩
  obtain ⟨-, -, -, -, -, -, -, howner⟩ := id hwaits
  have hact := actAll_attempt hpending hattempt
  rw [← hact]
  refine h.wellFormed.waits_actAll hwaits _ ?_ ?_
  · rw [hact]
    exact (h.attempt hpending hattempt).active f List.mem_cons_self
  · rw [hact, (slotsOnly_of_attempt hattempt).isActive_eq]
    exact howner

/-- **Every round keeps the invariant.** -/
theorem advance {d d' : Drive κ υ} (h : d.Sound) (hadvance : d.advance = some d') : d'.Sound := by
  obtain ⟨s, f, below, rfl, hround⟩ := exists_round hadvance
  cases hround with
  | finished hdone =>
      have hbelow : Sound ⟨s, ⟨below⟩⟩ := Sound.below [f] h
      rw [← s.actAll_finishEvents f]
      refine hbelow.actAll _ fun g hg => ?_
      rw [s.actAll_finishEvents f,
        s.isActive_finish_of_ne (ne_of_mem [] h hg)]
      exact hbelow.active g hg
  | performed hpending hattempt _ => exact (h.attempt hpending hattempt).setTop rfl
  | failed hpending hattempt => exact (h.attempt hpending hattempt).setTop rfl
  | pushed hpending hattempt habsent =>
      exact (h.attempt hpending hattempt).push (h.waits_of_blocked hpending hattempt) habsent _
  | @unwound op s' owner resume victim rest hpending hattempt hcut =>
      obtain ⟨above, hsplit⟩ := Stack.frames_of_cut? hcut
      have h' := h.attempt hpending hattempt
      dsimp only at hsplit
      rw [hsplit] at h'
      have hrest : Sound ⟨s', rest⟩ := Sound.below (above ++ [victim]) (by simpa using h')
      rw [← s'.actAll_giveUpEvents victim]
      refine hrest.actAll _ fun g hg => ?_
      rw [s'.actAll_giveUpEvents victim, Store.isActive_giveUp,
        decide_eq_true (ne_of_mem above h' hg), Bool.true_and]
      exact hrest.active g hg

end Sound

/-- What holds in every round of any thread: its own transaction was active when it set to work, or
it was over already and there is nothing to do but to pop its frame. -/
inductive Steady (d : Drive κ υ) : Prop where
  | sound (h : d.Sound)
  | settled (wellFormed : d.store.WellFormed) {f : Frame} (frames : d.stack.frames = [f])
      (decided : d.store.registry.isActive f.txn = false)

namespace Steady

/-- A thread that has just been set to work is steady. -/
theorem ofRoot {s : Store κ υ} (h : s.WellFormed) (t : TxnRef) : Steady ⟨s, .ofRoot t⟩ := by
  by_cases hactive : s.registry.isActive t
  · exact .sound (.ofRoot h hactive)
  · exact .settled h rfl (by simpa using hactive)

/-- If the transaction was over, the first round is the only one. -/
theorem frames_of_settled {d d' : Drive κ υ} {f : Frame} (hframes : d.stack.frames = [f])
    (hdecided : d.store.registry.isActive f.txn = false) (hadvance : d.advance = some d') :
    d'.stack.frames = [] := by
  have hdone : f.pending? d.store.registry = none := by simp [Frame.pending?, hdecided]
  rw [Drive.advance, hframes] at hadvance
  simp only [hdone, Option.some.injEq] at hadvance
  rw [← hadvance]

/-- **Every round keeps a thread steady.** -/
theorem advance {d d' : Drive κ υ} (h : d.Steady) (hadvance : d.advance = some d') :
    d'.Steady := by
  cases h with
  | sound h => exact .sound (h.advance hadvance)
  | settled h hframes hdecided =>
      have hempty := frames_of_settled hframes hdecided hadvance
      refine .sound ⟨Drive.wellFormed_of_advance h hadvance, ?_, ?_, ?_⟩
      · simp [hempty]
      · simp [hempty]
      · simp [hempty]

end Steady

end Drive

variable [LinearOrder κ]

/-- The thread that a command sets to work drives a single transaction, on a well-formed store. -/
theorem HelpingSession.Reachable.ofRoot_of_loop? {s : HelpingSession κ υ} (hs : s.Reachable)
    {c : HelpingSession.Command κ υ} {d : Drive κ υ} (hloop : s.loop? c = some d) :
    d.store.WellFormed ∧ ∃ t, d.stack = .ofRoot t := by
  obtain ⟨hstack, hstore | ⟨ops, hstore⟩⟩ := HelpingSession.start_of_loop? hloop
  · exact ⟨hstore ▸ hs.wellFormed, hstack⟩
  · exact ⟨hstore ▸ hs.wellFormed.act (.allocate ops), hstack⟩

end AtomicSet
