import AtomicSet.Proofs.Helping.InStep

/-!
# Late threads are not seen

A thread that fell behind links a node for an insertion whose transaction may be over. If it is
over, nobody but the transaction itself can tell: with or without such threads, every other command
is answered the same. The sessions with and without them have stores that mirror each other, and
their stalled threads touched corresponding nodes.

## Main definitions

* `HelpingSession.Overdue` — late threads come late indeed, after their transaction was decided.
* `HelpingSession.subjects`, `HelpingSession.withoutLate` — the transactions of the late threads,
  and the commands without these threads.
* `HelpingSession.transcript`, `HelpingSession.exposed` — the commands with their answers, and those
  of them that have nothing to do with certain transactions.
* `Store.Inherits` — a store has no new stamps of late transactions.
* `HelpingSession.Mirrors` — sessions with and without late threads.

## Main results

* `HelpingSession.Mirrors.perform` — the same command on both sides.
* `HelpingSession.Mirrors.late_left` — a late thread on the one side.
* `HelpingSession.exposed_withoutLate` — the answers are the same.
-/

namespace AtomicSet

namespace HelpingSession

variable {κ υ : Type}

/-- The transaction that a late thread works for. -/
def Command.subject? : Command κ υ → Option TxnRef
  | .late t _ => some t
  | .execute _ | .find _ | .insert _ _ | .delete _ | .entries | .survey | .tally | .resetTally
  | .allocate _ | .step _ _ | .run _ | .finish _ _ _ | .inspect _ => none

/-- Only a late thread has a subject. -/
theorem Command.eq_late_of_subject? {c : Command κ υ} {t : TxnRef} (h : c.subject? = some t) :
    ∃ i, c = .late t i := by
  cases c <;> cases h
  exact ⟨_, rfl⟩

/-- Whether the answer tells about something else than the nodes and the transactions `ts`. -/
def Command.exposes (ts : List TxnRef) : Command κ υ → Bool
  | .late _ _ | .survey => false
  | .step t _ | .run t | .finish t _ _ | .inspect t => decide (t ∉ ts)
  | .execute _ | .find _ | .insert _ _ | .delete _ | .entries | .tally | .resetTally
  | .allocate _ => true

/-- The transactions that late threads work for. -/
def subjects (cs : List (Command κ υ)) : List TxnRef :=
  cs.filterMap Command.subject?

/-- The commands without the late threads. -/
def withoutLate (cs : List (Command κ υ)) : List (Command κ υ) :=
  cs.filter fun c => c.subject?.isNone

section Session

variable [LT κ] [DecidableLT κ] [DecidableEq κ]

/-- The commands with their answers. -/
def transcript (s : HelpingSession κ υ) (cs : List (Command κ υ)) :
    List (Command κ υ × Reply κ υ) :=
  cs.zip (performAll perform s cs).2

/-- The part of the transcript that tells about something else than the nodes and the transactions
`ts`. -/
def exposed (ts : List TxnRef) (s : HelpingSession κ υ) (cs : List (Command κ υ)) :
    List (Command κ υ × Reply κ υ) :=
  (s.transcript cs).filter fun e => e.1.exposes ts

/-- Whenever a late thread comes, its transaction is decided. -/
def Overdue (s : HelpingSession κ υ) : List (Command κ υ) → Prop
  | [] => True
  | c :: cs =>
    (∀ t ∈ c.subject?, s.store.registry.isActive t = false) ∧ Overdue (s.perform c).1 cs

instance decidableOverdue (s : HelpingSession κ υ) :
    (cs : List (Command κ υ)) → Decidable (s.Overdue cs)
  | [] => inferInstanceAs (Decidable True)
  | c :: cs =>
    have := decidableOverdue (s.perform c).1 cs
    inferInstanceAs (Decidable
      ((∀ t ∈ c.subject?, s.store.registry.isActive t = false) ∧ Overdue (s.perform c).1 cs))

/-- The first command and its answer, and then the others. -/
theorem transcript_cons (s : HelpingSession κ υ) (c : Command κ υ) (cs : List (Command κ υ)) :
    s.transcript (c :: cs) = (c, (s.perform c).2) :: (s.perform c).1.transcript cs := rfl

/-- The first command with its answer, if it exposes anything, and then the others. -/
theorem exposed_cons (ts : List TxnRef) (s : HelpingSession κ υ) (c : Command κ υ)
    (cs : List (Command κ υ)) : exposed ts s (c :: cs) =
      if c.exposes ts then (c, (s.perform c).2) :: exposed ts (s.perform c).1 cs
      else exposed ts (s.perform c).1 cs := by
  rw [exposed, transcript_cons, List.filter_cons]
  rfl

end Session

/-- What is touched, once an attempt has come to `p`. -/
theorem touched_touch (s : HelpingSession κ υ) (store : Store κ υ) (t : TxnRef) (p : Progress)
    (u : TxnRef) : touched { store, touches := s.touch t p } u =
      if u = t then s.touched u ++ p.node?.toList else s.touched u := by
  simp only [touched, touch]
  cases p.node? with
  | none => simp
  | some n =>
      by_cases hu : u = t
      · simp [hu]
      · simp [hu, Ne.symm hu]

/-- Nothing is touched for a transaction that has finished. -/
theorem touched_filter (s : HelpingSession κ υ) (store : Store κ υ) (t u : TxnRef) :
    touched { store, touches := s.touches.filter fun e => e.1 ≠ t } u =
      if u = t then [] else s.touched u := by
  simp only [touched, List.filter_filter]
  by_cases hu : u = t
  · subst hu
    simp
  · rw [if_neg hu]
    congr 1
    refine List.filter_congr fun e _ => ?_
    by_cases he : e.1 = u
    · simp [he, hu]
    · simp [he]

end HelpingSession

variable {κ υ : Type} [LinearOrder κ] {late : TxnRef → Prop} {β β' : Pairing}

namespace Store

/-- Of late transactions, the store `s₁` has no stamps but those that `s` has. -/
def Inherits (late : TxnRef → Prop) (s s₁ : Store κ υ) : Prop :=
  ∀ n ∈ s₁.chain, late n.stamp.owner → n ∈ s.chain

/-- An attempt stamps for an active transaction only. -/
theorem WellFormed.inherits_attempt {s : Store κ υ} (h : s.WellFormed)
    (hdecided : ∀ u, late u → s.registry.isActive u = false) (t : TxnRef) (i : Nat)
    (op : Operation κ υ) : s.Inherits late (s.attempt t i op).1 := by
  intro n hn hlate
  rcases h.applied_of_mem_chain_attempt rfl hn with hold | ⟨⟨howner, -⟩, hactive, -⟩
  · exact hold
  · rw [← howner, hdecided _ hlate] at hactive
    cases hactive

namespace Mirrors

variable {s s' : Store κ υ}

/-- Both threads that drive the same transaction come to the same, and leave no new stamps of late
ones. -/
theorem drive (h : s.Mirrors late β s') (t : TxnRef) :
    ∃ β' : Pairing, (∀ x x', β x x' → β' x x') ∧ (s.drive t).Mirrors late β' (s'.drive t) ∧
      s.Inherits late (s.drive t) ∧ s'.Inherits late (s'.drive t) := by
  obtain ⟨β', hβ, hrun⟩ := (Drive.Mirrors.ofRoot h t).run
  refine ⟨β', hβ, hrun, ?_, ?_⟩
  · intro n hn hlate
    obtain ⟨hlt, hdecided⟩ := h.registry.decided _ hlate
    exact Drive.mem_chain_of_run h.wellFormed hn hlt hdecided
  · intro n hn hlate
    obtain ⟨hlt, hdecided⟩ := h.registry.decided _ hlate
    refine Drive.mem_chain_of_run h.wellFormed' hn ?_ ?_
    · rwa [h.registry.size_eq]
    · rwa [h.registry.isActive_eq]

/-- A transaction that is not late has the same outcome. -/
theorem outcome_eq (h : s.Mirrors late β s') {t : TxnRef} (hnot : ¬late t) :
    s'.outcome t = s.outcome t := by
  simp only [outcome, h.registry.status_eq, h.registry.ops_eq, h.registry.reads_eq hnot,
    h.registry.size_txn_eq]

/-- Running the same operations comes to the same. -/
theorem execute (h : s.Mirrors late β s') (ops : List (Operation κ υ)) :
    ∃ β' : Pairing, (∀ x x', β x x' → β' x x') ∧
      (s.execute ops).1.Mirrors late β' (s'.execute ops).1 ∧
      s.Inherits late (s.execute ops).1 ∧ s'.Inherits late (s'.execute ops).1 ∧
      (s'.execute ops).2 = (s.execute ops).2 := by
  obtain ⟨β', hβ, hdrive, hold, hold'⟩ := (h.allocate ops).drive s.registry.size
  have hnot : ¬late s.registry.size := fun hlate => Nat.lt_irrefl _ (h.registry.decided _ hlate).1
  have hexecute' : s'.execute ops = (((s'.allocate ops).1.drive s.registry.size),
      ((s'.allocate ops).1.drive s.registry.size).outcome s.registry.size) := by
    rw [← h.registry.size_eq]
    rfl
  rw [hexecute']
  exact ⟨β', hβ, hdrive, hold, hold', hdrive.outcome_eq hnot⟩

end Mirrors

end Store

namespace HelpingSession

/-- The session `s'` is the session `s` without the late threads. -/
structure Mirrors (late : TxnRef → Prop) (β : Pairing) (s s' : HelpingSession κ υ) : Prop where
  store : s.store.Mirrors late β s'.store
  touched : ∀ t, ¬late t → List.Forall₂ β (s.touched t) (s'.touched t)
  /-- Of twins, both were touched for a late transaction that owns them, or neither was. -/
  touched_late : ∀ t, late t → ∀ n ∈ s.store.chain, ∀ n' ∈ s'.store.chain, n.key = n'.key →
    n.stamp.owner = t → (n.id ∈ s.touched t ↔ n'.id ∈ s'.touched t)

namespace Mirrors

variable {s s' : HelpingSession κ υ}

/-- A new session is one without late threads. -/
theorem fresh : Mirrors (fun _ => False) (fun _ _ => False) ({} : HelpingSession κ υ) {} where
  store := .fresh
  touched _ _ := .nil
  touched_late _ hlate := hlate.elim

/-- Of twins, both were touched for their owner, or neither was. -/
theorem touched_iff (h : Mirrors late β s s') (t : TxnRef) :
    ∀ n ∈ s.store.chain, ∀ n' ∈ s'.store.chain, n.key = n'.key → n.stamp.owner = t →
      (n.id ∈ s.touched t ↔ n'.id ∈ s'.touched t) := by
  by_cases hlate : late t
  · exact h.touched_late t hlate
  · intro n hn n' hn' hkey _
    exact List.rel_mem h.store.biUnique (h.store.twin n hn n' hn' hkey).2 (h.touched t hlate)

/-- The stores change, and no new stamps of late transactions come with it. -/
theorem withStore (h : Mirrors late β s s') (hβ : ∀ x x', β x x' → β' x x') {s₁ s₁' : Store κ υ}
    (hstore : s₁.Mirrors late β' s₁') (hold : s.store.Inherits late s₁)
    (hold' : s'.store.Inherits late s₁') :
    Mirrors late β' { s with store := s₁ } { s' with store := s₁' } where
  store := hstore
  touched t hnot := (h.touched t hnot).imp hβ
  touched_late t hlate n hn n' hn' hkey hown := by
    have hstamp := (hstore.twin n hn n' hn' hkey).1
    refine h.touched_late t hlate n (hold n hn ?_) n' (hold' n' hn' ?_) hkey hown
    · rwa [hown]
    · rwa [← hstamp, hown]

/-- Running the same operations is answered the same. -/
theorem execute (h : Mirrors late β s s') (ops : List (Operation κ υ)) :
    ∃ β', Mirrors late β' { s with store := (s.store.execute ops).1 }
        { s' with store := (s'.store.execute ops).1 } ∧
      (s'.store.execute ops).2 = (s.store.execute ops).2 := by
  obtain ⟨β', hβ, hstore, hold, hold', houtcome⟩ := h.store.execute ops
  exact ⟨β', h.withStore hβ hstore hold hold', houtcome⟩

/-- Attempts note corresponding nodes, or one of them a ghost of a late transaction. -/
theorem withTouch (h : Mirrors late β s s') (hβ : ∀ x x', β x x' → β' x x') {s₁ s₁' : Store κ υ}
    (hstore : s₁.Mirrors late β' s₁') (hold : s.store.Inherits late s₁)
    (hold' : s'.store.Inherits late s₁') {t : TxnRef} {p p' : Progress}
    (hp : Progress.Mirrors β' p p' ∨
      late t ∧ ∃ x, (∀ x', ¬β' x x') ∧ p = .repeated x ∧ p' = .refused) :
    Mirrors late β' { store := s₁, touches := s.touch t p }
      { store := s₁', touches := s'.touch t p' } := by
  have hbase := h.withStore hβ hstore hold hold'
  have hnodes : Progress.Mirrors β' p p' → List.Forall₂ β' p.node?.toList p'.node?.toList := by
    rintro (hn | hn | _ | _)
    · exact .cons hn .nil
    · exact .cons hn .nil
    · exact .nil
    · exact .nil
  refine ⟨hstore, fun u hnot => ?_, fun u hlate n hn n' hn' hkey hown => ?_⟩
  · rw [touched_touch, touched_touch]
    by_cases heq : u = t
    · rw [if_pos heq, if_pos heq]
      have hsame := hp.resolve_right fun hghost => hnot (heq ▸ hghost.1)
      exact List.rel_append (hbase.touched u hnot) (hnodes hsame)
    · rw [if_neg heq, if_neg heq]
      exact hbase.touched u hnot
  · have hiff : n.id ∈ s.touched u ↔ n'.id ∈ s'.touched u :=
      hbase.touched_late u hlate n hn n' hn' hkey hown
    have hpair := (hstore.twin n hn n' hn' hkey).2
    rw [touched_touch, touched_touch]
    split
    · rw [List.mem_append, List.mem_append]
      rcases hp with hsame | ⟨-, x, hx, rfl, rfl⟩
      · exact or_congr hiff (List.rel_mem hstore.biUnique hpair (hnodes hsame))
      · -- A ghost is not one of the twins.
        have hne : n.id ≠ x := by
          rintro rfl
          exact hx n'.id hpair
        simpa [Progress.node?, hne] using hiff
    · exact hiff

/-- A stalled thread attempts the same operation. -/
theorem step (h : Mirrors late β s s') (t : TxnRef) (i : Nat) :
    ∃ β', Mirrors late β' (s.perform (.step t i)).1 (s'.perform (.step t i)).1 ∧
      (¬late t → (s'.perform (.step t i)).2 = (s.perform (.step t i)).2) := by
  cases hop : (s.store.registry.get t).op? i with
  | none =>
      have hop' := (h.store.registry.op?_eq t i).trans hop
      rw [perform_step_of_none hop, perform_step_of_none hop', h.store.registry.size_txn_eq]
      exact ⟨β, h, fun _ => rfl⟩
  | some op =>
      have hop' := (h.store.registry.op?_eq t i).trans hop
      rw [perform_step_of_op? hop, perform_step_of_op? hop']
      obtain ⟨β', hβ, hstore, hprogress⟩ := h.store.attempt hop
      have hold : s.store.Inherits late (s.store.attempt t i op).1 :=
        h.store.wellFormed.inherits_attempt (fun u hu => (h.store.registry.decided u hu).2) t i op
      have hold' : s'.store.Inherits late (s'.store.attempt t i op).1 := by
        refine h.store.wellFormed'.inherits_attempt (fun u hu => ?_) t i op
        rw [h.store.registry.isActive_eq]
        exact (h.store.registry.decided u hu).2
      refine ⟨β', h.withTouch hβ hstore hold hold' hprogress, fun hnot => ?_⟩
      have hsame := hprogress.resolve_right fun hghost => hnot hghost.1
      dsimp only
      generalize (s.store.attempt t i op).2 = p at hsame ⊢
      generalize (s'.store.attempt t i op).2 = p' at hsame ⊢
      cases hsame with
      | applied _ => rfl
      | repeated _ => rfl
      | refused => rfl
      | blocked _ _ => rfl

/-- A stalled thread finishes. -/
theorem finish (h : Mirrors late β s s') (t : TxnRef) (next : Nat) (failed : Bool) :
    Mirrors late β (s.perform (.finish t next failed)).1 (s'.perform (.finish t next failed)).1 ∧
      (s'.perform (.finish t next failed)).2 = (s.perform (.finish t next failed)).2 := by
  let f : Frame := { txn := t, next, failed, touched := s.touched t }
  let f' : Frame := { txn := t, next, failed, touched := s'.touched t }
  have hstore : (s.store.finish f).Mirrors late β (s'.store.finish f') :=
    h.store.finish rfl rfl rfl (h.touched_iff t)
  have hold : s.store.Inherits late (s.store.finish f) :=
    fun n hn _ => h.store.wellFormed.mem_of_mem_finish hn
  have hold' : s'.store.Inherits late (s'.store.finish f') :=
    fun n hn _ => h.store.wellFormed'.mem_of_mem_finish hn
  have hbase := h.withStore (fun _ _ hx => hx) hstore hold hold'
  refine ⟨⟨hstore, fun u hnot => ?_, fun u hlate n hn n' hn' hkey hown => ?_⟩, ?_⟩
  · rw [perform, perform, touched_filter, touched_filter]
    split
    · exact .nil
    · exact hbase.touched u hnot
  · rw [perform, perform, touched_filter, touched_filter]
    split
    · simp
    · exact hbase.touched_late u hlate n hn n' hn' hkey hown
  · rw [perform, perform]
    exact congrArg Reply.status (hstore.registry.status_eq t)

/-- **The same command on both sides** is answered the same, if it exposes no late transaction. -/
theorem perform (h : Mirrors late β s s') {c : Command κ υ} (hc : c.subject? = none) :
    ∃ β', Mirrors late β' (s.perform c).1 (s'.perform c).1 ∧
      ∀ ts : List TxnRef, (∀ t, late t → t ∈ ts) → c.exposes ts →
        (s'.perform c).2 = (s.perform c).2 := by
  cases c with
  | execute ops =>
      obtain ⟨β', hnext, houtcome⟩ := h.execute ops
      exact ⟨β', hnext, fun _ _ _ => congrArg Reply.outcome houtcome⟩
  | find k =>
      obtain ⟨β', hnext, houtcome⟩ := h.execute [.find k]
      refine ⟨β', hnext, fun _ _ _ => ?_⟩
      exact congrArg (fun o : Outcome υ => Reply.value o.found) houtcome
  | insert k v =>
      obtain ⟨β', hnext, houtcome⟩ := h.execute [.insert k v]
      refine ⟨β', hnext, fun _ _ _ => ?_⟩
      exact congrArg (fun o : Outcome υ => Reply.flag o.isCommitted) houtcome
  | delete k =>
      obtain ⟨β', hnext, houtcome⟩ := h.execute [.delete k]
      refine ⟨β', hnext, fun _ _ _ => ?_⟩
      exact congrArg (fun o : Outcome υ => Reply.flag o.isCommitted) houtcome
  | entries => exact ⟨β, h, fun _ _ _ => congrArg Reply.entries h.store.entries_eq⟩
  | survey =>
      refine ⟨β, h, fun _ _ hexposes => ?_⟩
      cases hexposes
  | tally => exact ⟨β, h, fun _ _ _ => congrArg Reply.tally h.store.tally_eq⟩
  | resetTally =>
      refine ⟨β, ?_, fun _ _ _ => rfl⟩
      exact h.withStore (fun _ _ hx => hx) (h.store.withTally {}) (fun _ hn _ => hn)
        fun _ hn _ => hn
  | allocate ops =>
      refine ⟨β, ?_, fun _ _ _ => ?_⟩
      · exact h.withStore (fun _ _ hx => hx) (h.store.allocate ops) (fun _ hn _ => hn)
          fun _ hn _ => hn
      · exact congrArg (fun t => Reply.allocated t ops.length) h.store.registry.size_eq
  | step t i =>
      obtain ⟨β', hnext, hreply⟩ := h.step t i
      refine ⟨β', hnext, fun ts hts hexposes => hreply fun hlate => ?_⟩
      exact of_decide_eq_true hexposes (hts t hlate)
  | run t =>
      obtain ⟨β', hβ, hstore, hold, hold'⟩ := h.store.drive t
      refine ⟨β', h.withStore hβ hstore hold hold', fun _ _ _ => ?_⟩
      exact congrArg (fun st => Reply.flag (decide (st = .committed))) (hstore.registry.status_eq t)
  | finish t next failed =>
      obtain ⟨hnext, hreply⟩ := h.finish t next failed
      exact ⟨β, hnext, fun _ _ _ => hreply⟩
  | late t i => cases hc
  | inspect t =>
      refine ⟨β, h, fun ts hts hexposes => ?_⟩
      have hnot : ¬late t := fun hlate => of_decide_eq_true hexposes (hts t hlate)
      show Reply.ofTransaction _ = Reply.ofTransaction _
      rw [Reply.ofTransaction, Reply.ofTransaction, h.store.registry.status_eq,
        h.store.registry.reads_eq hnot, h.store.registry.effects_eq hnot]

/-- **A late thread on the one side** links a ghost, if anything. -/
theorem late_left (h : Mirrors late β s s') {t : TxnRef} (i : Nat)
    (hdecided : s.store.registry.isActive t = false) :
    ∃ late' : TxnRef → Prop, (∀ u, late' u → late u ∨ u = t) ∧
      Mirrors late' β (s.perform (.late t i)).1 s' := by
  rw [HelpingSession.perform]
  rcases h.store.wellFormed.linkLate_cases t i with ⟨fault, heq⟩ | heq | ⟨k, v, c, hop, hplace, heq⟩
  · rw [heq]
    exact ⟨late, fun _ hu => Or.inl hu, h⟩
  · rw [heq]
    exact ⟨late, fun _ hu => Or.inl hu, h⟩
  · rw [heq]
    have hstore := h.store.linkLate hop hdecided hplace
    refine ⟨fun u => late u ∨ u = t, fun _ hu => hu, hstore, ?_, ?_⟩
    · exact fun u hnot => h.touched u fun hlate => hnot (Or.inl hlate)
    · intro u _ n hn n' hn' hkey hown
      have hold : n ∈ s.store.chain := by
        rcases (Store.WellFormed.mem_chain_linkNode hplace.chain).mp hn with hold | rfl
        · exact hold
        · have hpair := (hstore.twin _ hn n' hn' hkey).2
          exact absurd (h.store.bounded _ _ hpair).1 (Nat.lt_irrefl _)
      exact h.touched_iff u n hold n' hn' hkey hown

/-- The exposed answers are the same from sessions that mirror each other. -/
theorem exposed_eq (h : Mirrors late β s s') {ts : List TxnRef} (hts : ∀ t, late t → t ∈ ts)
    {cs : List (Command κ υ)} (hcs : ∀ c ∈ cs, ∀ t, c.subject? = some t → t ∈ ts)
    (hoverdue : s.Overdue cs) : s'.exposed ts (withoutLate cs) = s.exposed ts cs := by
  induction cs generalizing late β s s' with
  | nil => rfl
  | cons c cs ih =>
      obtain ⟨hdecided, hoverdue⟩ := hoverdue
      have hcs' : ∀ c' ∈ cs, ∀ t, c'.subject? = some t → t ∈ ts :=
        fun c' hc' => hcs c' (List.mem_cons_of_mem c hc')
      cases hsubject : c.subject? with
      | none =>
          obtain ⟨β', hnext, hreply⟩ := h.perform hsubject
          have hrest := ih hnext hts hcs' hoverdue
          have hkept : withoutLate (c :: cs) = c :: withoutLate cs :=
            List.filter_cons_of_pos (by simp [hsubject])
          rw [hkept, exposed_cons, exposed_cons, hrest]
          by_cases hexposes : c.exposes ts
          · rw [hreply ts hts hexposes]
          · rw [if_neg hexposes, if_neg hexposes]
      | some t =>
          obtain ⟨i, rfl⟩ := Command.eq_late_of_subject? hsubject
          obtain ⟨late', hlate', hnext⟩ := h.late_left i (hdecided t rfl)
          have hts' : ∀ u, late' u → u ∈ ts := by
            intro u hu
            rcases hlate' u hu with hlate | rfl
            · exact hts u hlate
            · exact hcs _ List.mem_cons_self u rfl
          rw [exposed_cons ts s]
          exact ih hnext hts' hcs' hoverdue

end Mirrors

/-- **Late threads are not seen.** Take any run of commands in which late threads work only for
transactions that are decided when they come. The run without the late threads answers every command
the same that neither asks for the nodes nor for one of these transactions. The run need not be
legal, and any commands may follow on a late thread. -/
theorem exposed_withoutLate {cs : List (Command κ υ)} (hoverdue : Overdue {} cs) :
    exposed (subjects cs) {} (withoutLate cs) = exposed (subjects cs) {} cs := by
  refine Mirrors.fresh.exposed_eq (fun _ hlate => hlate.elim) (fun c hc t ht => ?_) hoverdue
  exact List.mem_filterMap.mpr ⟨c, hc, ht⟩

/-- A run with two late threads. Each links a ghost, one for a transaction that has committed, the
other for one that is aborted. Another transaction then inserts both keys. -/
def haunted : List (Command Nat Nat) := [
  .allocate [.insert 1 10], .step 0 0, .finish 0 1 false,
  .allocate [.delete 1], .step 1 0, .finish 1 1 false,
  .late 0 0,
  .allocate [.insert 2 20, .delete 7], .step 2 0, .step 2 1, .finish 2 1 true,
  .late 2 0, .survey,
  .allocate [.insert 1 11, .insert 2 21], .step 3 0, .step 3 1, .finish 3 2 false,
  .entries]

/-- In the run with two ghosts, which the survey shows, the entries are answered as without them. -/
theorem exposed_withoutLate_haunted :
    Overdue {} haunted ∧
      (.late 0 0, .flag true) ∈ transcript {} haunted ∧
      (.late 2 0, .flag true) ∈ transcript {} haunted ∧
      (.survey, .survey [(1, false), (2, false)]) ∈ transcript {} haunted ∧
      (.entries, .entries [(1, 11), (2, 21)]) ∈ exposed (subjects haunted) {} haunted ∧
      exposed (subjects haunted) {} (withoutLate haunted) =
        exposed (subjects haunted) {} haunted := by
  have hoverdue : Overdue {} haunted := by decide
  refine ⟨hoverdue, by decide, by decide, by decide, by decide, ?_⟩
  exact exposed_withoutLate hoverdue

end HelpingSession

end AtomicSet
