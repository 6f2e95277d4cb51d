import AtomicSet.Proofs.Helping.Apart
import Mathlib.Data.List.FinRange

/-!
# Interleaving transactions on disjoint keys

Transactions with disjoint keys are registered while no other transaction is active, and each is
given a thread of its own. A thread attempts one operation after the other, stops at one that fails,
and finishes. The threads take turns in any order, on one store.

None of them is ever blocked. What a thread does is confined to its transaction and to the keys of
that one, so a turn leaves the other transactions where they were. Each ends as if it were executed
alone, and in the end the live entries are those that the committed ones leave if they are executed
one after another, in whatever order.

## Main definitions

* `Stage` — how far a thread has got, and `Stage.left`, the turns that it has left.
* `Crew` — a session with a thread for each of the transactions, and what they did.
* `Crew.hire`, `Crew.turn`, `Crew.play` — threads are set to work, and take turns.
* `Crew.follows` — whether each command is the next one of its thread.
* `Crew.Apart` — every transaction is where its thread has got.
* `Merged` — what several transactions make of a map.
* `HelpingSession.Undisturbed` — the transactions do not interfere.

## Main results

* `Stage.Holds.turn` — a turn, as seen by the thread that takes it.
* `Crew.Apart.turn`, `Crew.Apart.play` — the invariant.
* `HelpingSession.merged_oneByOne` — executing them one after another.
* `Crew.undisturbed` — transactions on disjoint keys do not interfere.
-/

namespace AtomicSet

open HelpingSession Store

variable {κ υ : Type} {n : Nat}

/-- How far a thread has got with its transaction. -/
inductive Stage where
  /-- It has performed the operations in front of `next`. -/
  | working (next : Nat)
  /-- An operation has failed. -/
  | failed
  /-- It has finished. -/
  | finished
deriving DecidableEq, Repr

/-- Whether the command is the next one of a thread that works for the transaction `t` with `size`
operations. After a failure it does not matter at which position the thread has arrived. -/
def Stage.asks (t : TxnRef) (size : Nat) : Stage → Command κ υ → Bool
  | .working i, .step u j => u = t && j = i && i < size
  | .working i, .finish u next fails => u = t && size ≤ i && next = size && !fails
  | .failed, .finish u _ fails => u = t && fails
  | _, _ => false

/-- How far the thread has got once it has the reply. -/
def Stage.after : Stage → Reply κ υ → Stage
  | .working i, .attempted code _ => if code = .fail then .failed else .working (i + 1)
  | _, .status _ => .finished
  | stage, _ => stage

/-- How many turns the thread has left at most, for a transaction with `size` operations. -/
def Stage.left (size : Nat) : Stage → Nat
  | .working i => size - i + 1
  | .failed => 1
  | .finished => 0

/-- A session with threads, each of which works for a transaction of its own. -/
structure Crew (κ υ : Type) (n : Nat) where
  session : HelpingSession κ υ
  txn : Fin n → TxnRef
  stage : Fin n → Stage
  /-- The commands that the threads gave, with the replies. -/
  log : List (Command κ υ × Reply κ υ) := []

/-! ### Threads take turns -/

namespace Crew

/-- Whether the command is the next one of the thread `j`. -/
def asks (c : Crew κ υ n) (j : Fin n) (command : Command κ υ) : Bool :=
  (c.stage j).asks (c.txn j) (c.session.store.registry.get (c.txn j)).size command

variable [LT κ] [DecidableLT κ] [DecidableEq κ]

/-- Registers transactions one after another, and sets a thread to work for each. The references are
those that the registrations are answered with. -/
def hire (s : HelpingSession κ υ) (txns : Fin n → List (Operation κ υ)) : Crew κ υ n where
  session := (performAll HelpingSession.perform s ((List.ofFn txns).map .allocate)).1
  txn j := s.store.registry.size + j
  stage _ := .working 0

/-- The thread `j` gives a command. -/
def turn (c : Crew κ υ n) (j : Fin n) (command : Command κ υ) : Crew κ υ n :=
  let (session, reply) := c.session.perform command
  { c with
    session
    stage := Function.update c.stage j ((c.stage j).after reply)
    log := c.log ++ [(command, reply)] }

/-- A turn moves the stage of its own thread only. -/
theorem stage_turn (c : Crew κ υ n) (j : Fin n) (command : Command κ υ) :
    (c.turn j command).stage =
      Function.update c.stage j ((c.stage j).after (c.session.perform command).2) := rfl

/-- The threads take turns. -/
def play (c : Crew κ υ n) : List (Fin n × Command κ υ) → Crew κ υ n
  | [] => c
  | (j, command) :: turns => (c.turn j command).play turns

/-- Nothing else is done: the session performs the commands, and the log has them with the
replies. -/
theorem session_play (c : Crew κ υ n) (turns : List (Fin n × Command κ υ)) :
    (c.play turns).session = (performAll HelpingSession.perform c.session (turns.map Prod.snd)).1 ∧
      (c.play turns).log = c.log ++
        (turns.map Prod.snd).zip
          (performAll HelpingSession.perform c.session (turns.map Prod.snd)).2 := by
  induction turns generalizing c with
  | nil => exact ⟨rfl, (List.append_nil _).symm⟩
  | cons e turns ih =>
      obtain ⟨j, command⟩ := e
      obtain ⟨hsession, hlog⟩ := ih (c.turn j command)
      exact ⟨hsession, hlog.trans (List.append_assoc ..)⟩

/-- Whether in each turn the command is the next one of the thread. -/
def follows (c : Crew κ υ n) : List (Fin n × Command κ υ) → Bool
  | [] => true
  | (j, command) :: turns => c.asks j command && (c.turn j command).follows turns

end Crew

namespace HelpingSession

variable [LT κ] [DecidableLT κ] [DecidableEq κ]

/-- Executes transactions one after another. -/
def oneByOne (s : HelpingSession κ υ) (txns : Fin n → List (Operation κ υ)) (order : List (Fin n)) :
    HelpingSession κ υ × List (Reply κ υ) :=
  performAll perform s (order.map fun j => .execute (txns j))

/-- The transactions that would commit if they were executed alone. -/
def committing (s : HelpingSession κ υ) (txns : Fin n → List (Operation κ υ)) : List (Fin n) :=
  (List.finRange n).filter fun j => (s.store.execute (txns j)).2.isCommitted

end HelpingSession

variable [LinearOrder κ]

/-! ### Registering -/

namespace HelpingSession

/-- Transactions were registered one after another, and nothing else was done. -/
structure Registers (s : HelpingSession κ υ) (txns : List (List (Operation κ υ)))
    (r : HelpingSession κ υ × List (Reply κ υ)) : Prop where
  wellFormed : r.1.store.WellFormed
  chain_eq : r.1.store.chain = s.store.chain
  tally_eq : r.1.store.tally = s.store.tally
  contents_eq : r.1.store.contents = s.store.contents
  get_eq : ∀ t < s.store.registry.size, r.1.store.registry.get t = s.store.registry.get t
  get_new : ∀ j ops, txns[j]? = some ops →
    r.1.store.registry.get (s.store.registry.size + j) =
      .ofOperations (s.store.registry.size + j) ops
  /-- Each was answered with the reference to the transaction. -/
  replies_eq : r.2 = txns.mapIdx fun j ops => .allocated (s.store.registry.size + j) ops.length

/-- Registering transactions one after another does nothing else. -/
theorem registers_allocate {s : HelpingSession κ υ} (hwf : s.store.WellFormed)
    (txns : List (List (Operation κ υ))) :
    s.Registers txns (performAll perform s (txns.map .allocate)) := by
  induction txns generalizing s with
  | nil => exact ⟨hwf, rfl, rfl, rfl, fun _ _ => rfl, fun _ _ hops => (nomatch hops), rfl⟩
  | cons ops txns ih =>
      have hget : ∀ t, (s.perform (.allocate ops)).1.store.registry.get t =
          if t = s.store.registry.size then .ofOperations s.store.registry.size ops
          else s.store.registry.get t := fun t => Registry.get_add ..
      have hsize : (s.perform (.allocate ops)).1.store.registry.size =
          s.store.registry.size + 1 := Registry.size_add ..
      have hshift : ∀ j, s.store.registry.size + 1 + j = s.store.registry.size + (j + 1) := by
        omega
      have hrest := ih (s := (s.perform (.allocate ops)).1) (hwf.allocate ops)
      refine ⟨hrest.wellFormed, hrest.chain_eq, hrest.tally_eq,
        hrest.contents_eq.trans (Coherent.contents_allocate hwf ops), fun t ht => ?_,
        fun j ops' hj => ?_, ?_⟩
      · refine (hrest.get_eq t (by omega)).trans ?_
        rw [hget, if_neg (Nat.ne_of_lt ht)]
      · cases j with
        | zero =>
            obtain rfl := Option.some.inj hj
            refine (hrest.get_eq _ (hsize ▸ Nat.lt_succ_self _)).trans ?_
            exact (hget _).trans (if_pos rfl)
        | succ j =>
            have hnew := hrest.get_new j ops' hj
            rw [hsize, hshift] at hnew
            exact hnew
      · have hreplies := hrest.replies_eq
        simp only [hsize, hshift] at hreplies
        rw [List.mapIdx_cons, ← hreplies]
        rfl

end HelpingSession

/-! ### A turn, as seen by the thread that takes it -/

namespace Stage

/-- What it means for a transaction that its thread has got to a stage. -/
def Holds (m : Contents κ υ) (t : TxnRef) (ops : List (Operation κ υ)) (s : Store κ υ) :
    Stage → Prop
  | .working i => Working m t ops i s
  | .failed => ∃ i, Working m t ops i s ∧ m.run ops = .error i
  | .finished => Over m t ops s

variable {m : Contents κ υ} {t u : TxnRef} {ops : List (Operation κ υ)} {stage : Stage}

omit [LinearOrder κ] in
/-- There are three commands that a thread may give. -/
theorem asks_cases {size : Nat} {command : Command κ υ} (h : stage.asks t size command) :
    (∃ i < size, stage = .working i ∧ command = .step t i) ∨
      (∃ i, size ≤ i ∧ stage = .working i ∧ command = .finish t size false) ∨
      ∃ next, stage = .failed ∧ command = .finish t next true := by
  cases stage with
  | working i =>
      cases command with
      | step u j =>
          simp only [asks, Bool.and_eq_true, decide_eq_true_eq] at h
          obtain ⟨⟨rfl, rfl⟩, hlt⟩ := h
          exact Or.inl ⟨_, hlt, rfl, rfl⟩
      | finish u next fails =>
          simp only [asks, Bool.and_eq_true, decide_eq_true_eq, Bool.not_eq_true'] at h
          obtain ⟨⟨⟨rfl, hle⟩, rfl⟩, rfl⟩ := h
          exact Or.inr (Or.inl ⟨_, hle, rfl, rfl⟩)
      | _ => cases h
  | failed =>
      cases command with
      | finish u next fails =>
          simp only [asks, Bool.and_eq_true, decide_eq_true_eq] at h
          obtain ⟨rfl, rfl⟩ := h
          exact Or.inr (Or.inr ⟨next, rfl, rfl⟩)
      | _ => cases h
  | finished => cases command <;> cases h

omit [LinearOrder κ] in
/-- A thread that has not finished may give a command. -/
theorem exists_asks (h : stage ≠ .finished) (t : TxnRef) (size : Nat) :
    ∃ command : Command κ υ, stage.asks t size command := by
  cases stage with
  | working i =>
      by_cases hi : i < size
      · exact ⟨.step t i, by simp [asks, hi]⟩
      · exact ⟨.finish t size false, by simp [asks, Nat.not_lt.mp hi]⟩
  | failed => exact ⟨.finish t 0 true, by simp [asks]⟩
  | finished => exact absurd rfl h

namespace Holds

variable {s s' : Store κ υ}

/-- At every stage the transaction has its operations. -/
theorem ops_eq (h : stage.Holds m t ops s) : (s.registry.get t).ops = ops := by
  cases stage with
  | working i => exact Working.ops_eq h
  | failed =>
      obtain ⟨i, hwork, -⟩ := h
      exact hwork.ops_eq
  | finished => exact Over.ops_eq h

/-- What is done for others on other keys leaves a transaction at its stage. -/
theorem of_confined {P : κ → Prop} (h : stage.Holds m t ops s) (hconfined : Confined u P s s')
    (hwf : s.WellFormed) (hwf' : s'.WellFormed)
    (hown : ∀ n ∈ s.chain, n.stamp.owner = u → P n.key) (hne : t ≠ u)
    (hdisjoint : ∀ k, Mentions ops k → ¬ P k) : stage.Holds m t ops s' := by
  cases stage with
  | working i => exact Working.of_confined h hconfined hwf hwf' hown hne hdisjoint
  | failed =>
      obtain ⟨i, hwork, herror⟩ := h
      exact ⟨i, hwork.of_confined hconfined hwf hwf' hown hne hdisjoint, herror⟩
  | finished => exact Over.of_confined h hconfined hwf hwf' hown hne hdisjoint

end Holds

/-- What a turn leaves, and what it is answered. -/
structure Turn (m : Contents κ υ) (t : TxnRef) (ops : List (Operation κ υ)) (stage : Stage)
    (s s' : Store κ υ) (reply : Reply κ υ) : Prop where
  holds : (stage.after reply).Holds m t ops s'
  left_lt : (stage.after reply).left ops.length < stage.left ops.length
  wellFormed : s'.WellFormed
  confined : Confined t (Mentions ops) s s'
  fakeAborts_eq : s'.tally.fakeAborts = s.tally.fakeAborts
  not_blocked : ∀ owner resume, reply ≠ .blocked owner resume

variable {s : HelpingSession κ υ}

/-- The next operation succeeds, or it fails as it does on the map. -/
theorem turn_step {i : Nat} (h : Working m t ops i s.store) (hwf : s.store.WellFormed)
    (hlt : i < ops.length) :
    Turn m t ops (.working i) s.store (s.perform (.step t i)).1.store
      (s.perform (.step t i)).2 := by
  have hop : ops[i]? = some ops[i] := List.getElem?_eq_getElem hlt
  have hop' := h.op?_eq.trans hop
  rw [perform_step_of_op? hop']
  have hattempt : s.store.attempt t i ops[i] =
      ((s.store.attempt t i ops[i]).1, (s.store.attempt t i ops[i]).2) := rfl
  have hcases := h.attempt hwf hop hattempt
  have hconfined := hwf.confined_attempt (P := Mentions ops) hattempt
    (by rcases hcases with ⟨id, heq, -⟩ | ⟨heq, -, -⟩ <;> simp [heq])
    ⟨ops[i], List.getElem_mem hlt, rfl⟩
  refine ⟨?_, ?_, hwf.attempt hop', hconfined, congrArg _ (hwf.tally_attempt t i ops[i]), ?_⟩
  · rcases hcases with ⟨id, heq, hnext⟩ | ⟨heq, herror, hsame⟩
    · rw [heq]
      exact hnext
    · rw [heq]
      exact ⟨i, hsame, herror⟩
  · rcases hcases with ⟨id, heq, -⟩ | ⟨heq, -, -⟩
    · simp only [heq, Reply.ofProgress, after, left]
      rw [if_neg (by decide)]
      dsimp only
      omega
    · simp only [heq, Reply.ofProgress, after, left, if_pos]
      omega
  · rcases hcases with ⟨id, heq, -⟩ | ⟨heq, -, -⟩ <;> simp [heq, Reply.ofProgress]

/-- The thread finishes. -/
theorem turn_finish {i next : Nat} {fails : Bool} (h : Working m t ops i s.store)
    (hwf : s.store.WellFormed) (hstage : stage ≠ .finished)
    (hend : fails = true ∧ m.run ops = .error i ∨ fails = false ∧ next = i ∧ ops.length ≤ i) :
    Turn m t ops stage s.store (s.perform (.finish t next fails)).1.store
      (s.perform (.finish t next fails)).2 := by
  let f : Frame := { txn := t, next, failed := fails, touched := s.touched t }
  have hover : Over m t ops (s.store.finish f) := Working.finish (f := f) h hwf hend
  refine ⟨?_, ?_, hwf.finish f, ?_, hwf.fakeAborts_finish f, fun owner resume hblocked => ?_⟩
  · cases stage <;> exact hover
  · cases stage with
    | working i => exact Nat.succ_pos _
    | failed => exact Nat.one_pos
    | finished => exact absurd rfl hstage
  · exact hwf.confined_finish f fun a ha hown => h.ops_eq ▸ hwf.mentions_of_owner ha hown
  · cases hblocked

/-- **A turn, as seen by the thread that takes it.** -/
theorem Holds.turn {command : Command κ υ} (h : stage.Holds m t ops s.store)
    (hwf : s.store.WellFormed)
    (hasks : stage.asks t (s.store.registry.get t).size command) :
    Turn m t ops stage s.store (s.perform command).1.store (s.perform command).2 := by
  rw [← Transaction.ops_length, h.ops_eq] at hasks
  rcases asks_cases hasks with ⟨i, hlt, rfl, rfl⟩ | ⟨i, hle, rfl, rfl⟩ | ⟨next, rfl, rfl⟩
  · exact turn_step h hwf hlt
  · have hwork : Working m t ops i s.store := h
    exact turn_finish hwork hwf nofun (Or.inr ⟨rfl, Nat.le_antisymm hle hwork.le, hle⟩)
  · obtain ⟨i, hwork, herror⟩ := h
    exact turn_finish hwork hwf nofun (Or.inl ⟨rfl, herror⟩)

end Stage

/-! ### The invariant -/

namespace Crew

variable {txns : Fin n → List (Operation κ υ)}

/-- Every transaction is where its thread has got, as on the map `m`, and nobody was blocked. -/
structure Apart (m : Contents κ υ) (fakeAborts : Nat) (txns : Fin n → List (Operation κ υ))
    (c : Crew κ υ n) : Prop where
  wellFormed : c.session.store.WellFormed
  injective : Function.Injective c.txn
  holds : ∀ j, (c.stage j).Holds m (c.txn j) (txns j) c.session.store
  elsewhere : ∀ k, (∀ j, ¬ Mentions (txns j) k) → c.session.store.contents k = m k
  fakeAborts_eq : c.session.store.tally.fakeAborts = fakeAborts
  not_blocked : ∀ e ∈ c.log, ∀ owner resume, e.2 ≠ .blocked owner resume

/-- Threads that were just set to work have done nothing yet. -/
theorem apart_hire {s : HelpingSession κ υ} (hwf : s.store.WellFormed) (hquiet : s.store.Quiescent)
    (txns : Fin n → List (Operation κ υ)) :
    (hire s txns).Apart s.store.contents s.store.tally.fakeAborts txns := by
  have hall := registers_allocate hwf (List.ofFn txns)
  refine ⟨hall.wellFormed, fun i j hij => ?_, fun j => ?_, fun k _ => ?_, ?_, fun e he => ?_⟩
  · exact Fin.ext (Nat.add_left_cancel hij)
  · have hget := hall.get_new j (txns j) (by simp)
    have hwork := Working.start hall.wellFormed hget fun a ha => ?_
    · rw [hall.contents_eq] at hwork
      exact hwork
    · rw [hall.chain_eq] at ha
      have hlt := hwf.owner_lt ha
      refine ⟨Nat.ne_of_lt (Nat.lt_add_right _ hlt), ?_⟩
      rw [Registry.isActive, hall.get_eq _ hlt]
      exact hquiet _
  · exact congrFun hall.contents_eq k
  · exact congrArg _ hall.tally_eq
  · cases he

namespace Apart

variable {m : Contents κ υ} {fakeAborts : Nat} {c : Crew κ υ n}

/-- A transaction whose thread has finished was carried out. -/
theorem carriedOut (h : c.Apart m fakeAborts txns) {j : Fin n} (hj : c.stage j = .finished) :
    Over m (c.txn j) (txns j) c.session.store := by
  have hholds := h.holds j
  rw [hj] at hholds
  exact hholds

/-- **A turn** changes the stage of the thread that takes it, and leaves the others where they
were. -/
theorem turn (h : c.Apart m fakeAborts txns)
    (hdisjoint : ∀ i j, i ≠ j → ∀ k, Mentions (txns i) k → ¬ Mentions (txns j) k)
    {j : Fin n} {command : Command κ υ} (hasks : c.asks j command) :
    (c.turn j command).Apart m fakeAborts txns := by
  have hturn := (h.holds j).turn h.wellFormed hasks
  have hown : ∀ a ∈ c.session.store.chain, a.stamp.owner = c.txn j → Mentions (txns j) a.key :=
    fun a ha hown => (h.holds j).ops_eq ▸ h.wellFormed.mentions_of_owner ha hown
  refine ⟨hturn.wellFormed, h.injective, fun i => ?_, fun k hk => ?_,
    hturn.fakeAborts_eq.trans h.fakeAborts_eq, fun e he => ?_⟩
  · by_cases hij : i = j
    · rw [hij, stage_turn, Function.update_self]
      exact hturn.holds
    · rw [stage_turn, Function.update_of_ne hij]
      exact (h.holds i).of_confined hturn.confined h.wellFormed hturn.wellFormed hown
        (fun heq => hij (h.injective heq)) (hdisjoint i j hij)
  · exact (hturn.confined.contents_eq h.wellFormed hturn.wellFormed hown (hk j)).trans
      (h.elsewhere k hk)
  · rcases List.mem_append.mp he with hold | hnew
    · exact h.not_blocked e hold
    · rw [List.mem_singleton.mp hnew]
      exact hturn.not_blocked

/-- **The threads take turns**, and none has more of them than were left to it. -/
theorem play (h : c.Apart m fakeAborts txns)
    (hdisjoint : ∀ i j, i ≠ j → ∀ k, Mentions (txns i) k → ¬ Mentions (txns j) k)
    {turns : List (Fin n × Command κ υ)} (hturns : c.follows turns) :
    (c.play turns).Apart m fakeAborts txns ∧ ∀ j,
      turns.countP (fun e => e.1 = j) + ((c.play turns).stage j).left (txns j).length ≤
        (c.stage j).left (txns j).length := by
  induction turns generalizing c with
  | nil => exact ⟨h, fun j => by rw [List.countP_nil, Nat.zero_add, Crew.play]⟩
  | cons e turns ih =>
      obtain ⟨i, command⟩ := e
      rw [follows, Bool.and_eq_true] at hturns
      obtain ⟨hapart, hleft⟩ := ih (h.turn hdisjoint hturns.1) hturns.2
      refine ⟨hapart, fun j => ?_⟩
      have hrest := hleft j
      rw [List.countP_cons, Crew.play]
      by_cases hij : i = j
      · subst hij
        have hlt := ((h.holds i).turn h.wellFormed hturns.1).left_lt
        rw [stage_turn, Function.update_self] at hrest
        rw [if_pos (decide_eq_true rfl)]
        omega
      · rw [stage_turn, Function.update_of_ne (Ne.symm hij)] at hrest
        rw [if_neg (by simpa using hij)]
        exact hrest

end Apart

end Crew

/-! ### What several transactions make of a map -/

/-- The map `m'` is what the transactions of `order`, run on the map `m`, make of it. -/
structure Merged (m : Contents κ υ) (txns : Fin n → List (Operation κ υ)) (order : List (Fin n))
    (m' : Contents κ υ) : Prop where
  mentioned : ∀ j ∈ order, ∀ m₁ reads, m.run (txns j) = .ok (m₁, reads) →
    ∀ k, Mentions (txns j) k → m' k = m₁ k
  elsewhere : ∀ k, (∀ j ∈ order, ¬ Mentions (txns j) k) → m' k = m k

namespace Merged

variable {m m₁ m₂ : Contents κ υ} {txns : Fin n → List (Operation κ υ)}
  {order order' : List (Fin n)}

/-- Without any transaction, a map stays as it is. -/
theorem nil (m : Contents κ υ) (txns : Fin n → List (Operation κ υ)) : Merged m txns [] m :=
  ⟨fun _ hj => absurd hj List.not_mem_nil, fun _ _ => rfl⟩

/-- The order does not matter. -/
theorem unique (h : Merged m txns order m₁) (h' : Merged m txns order' m₂)
    (hmem : ∀ j, j ∈ order' ↔ j ∈ order)
    (hrun : ∀ j ∈ order, ∃ m' reads, m.run (txns j) = .ok (m', reads)) : m₁ = m₂ := by
  funext k
  by_cases hex : ∃ j ∈ order, Mentions (txns j) k
  · obtain ⟨j, hj, hk⟩ := hex
    obtain ⟨m', reads, hok⟩ := hrun j hj
    rw [h.mentioned j hj m' reads hok k hk, h'.mentioned j ((hmem j).mpr hj) m' reads hok k hk]
  · rw [h.elsewhere k fun j hj hk => hex ⟨j, hj, hk⟩,
      h'.elsewhere k fun j hj hk => hex ⟨j, (hmem j).mp hj, hk⟩]

/-- One more transaction reads the same as on the map itself, if it is on other keys. -/
theorem concat (h : Merged m txns order m₁) {j : Fin n}
    (hfree : ∀ i ∈ order, ∀ k, Mentions (txns i) k → ¬ Mentions (txns j) k)
    {reads : List (Option υ)} (hrun : m.run (txns j) = .ok (m₂, reads)) :
    ∃ m', m₁.run (txns j) = .ok (m', reads) ∧ Merged m txns (order ++ [j]) m' := by
  have hheld : ∀ k, Mentions (txns j) k → m₁ k = m k := fun k hk =>
    h.elsewhere k fun i hi hik => hfree i hi k hik hk
  obtain ⟨m', hrun', hagree⟩ :=
    Contents.run_of_agree hrun fun op hop => hheld op.key ⟨op, hop, rfl⟩
  have hkept : ∀ k, ¬ Mentions (txns j) k → m' k = m₁ k := fun k hk =>
    Contents.run_of_ne hrun' fun op hop hkey => hk ⟨op, hop, hkey⟩
  refine ⟨m', hrun', fun i hi m₃ reads' hok k hk => ?_, fun k hk => ?_⟩
  · rcases List.mem_append.mp hi with hi | hi
    · rw [hkept k (hfree i hi k hk)]
      exact h.mentioned i hi m₃ reads' hok k hk
    · obtain rfl := List.mem_singleton.mp hi
      obtain ⟨rfl, -⟩ := Prod.mk.inj (Except.ok.inj (hrun.symm.trans hok))
      exact hagree k (hheld k hk)
  · rw [hkept k (hk j (by simp))]
    exact h.elsewhere k fun i hi => hk i (List.mem_append_left _ hi)

end Merged

/-- In the end, the live entries are what the committed transactions make of those before. -/
theorem Crew.Apart.merged {m : Contents κ υ} {fakeAborts : Nat}
    {txns : Fin n → List (Operation κ υ)} {c : Crew κ υ n} (h : c.Apart m fakeAborts txns)
    (hover : ∀ j, c.stage j = .finished) {order : List (Fin n)}
    (horder : ∀ j, j ∈ order ↔ ∃ m' reads, m.run (txns j) = .ok (m', reads)) :
    Merged m txns order c.session.store.contents := by
  refine ⟨fun j _ m₁ reads hrun k hk => ((h.carriedOut (hover j)).of_run_eq_ok hrun).2 k hk,
    fun k hk => ?_⟩
  by_cases hex : ∃ j, Mentions (txns j) k
  · obtain ⟨j, hj⟩ := hex
    cases h.carriedOut (hover j) with
    | committed hrun _ _ _ _ => exact absurd hj (hk j ((horder j).mpr ⟨_, _, hrun⟩))
    | aborted _ _ _ _ _ hcontents => exact hcontents k hj
  · exact h.elsewhere k fun j hj => hex ⟨j, hj⟩

namespace HelpingSession

variable {s : HelpingSession κ υ} {txns : Fin n → List (Operation κ υ)}

/-- A transaction would commit alone if its operations succeed on the map of the live entries. -/
theorem mem_committing (hwf : s.store.WellFormed) (hquiet : s.store.Quiescent) (j : Fin n) :
    j ∈ s.committing txns ↔ ∃ m' reads, s.store.contents.run (txns j) = .ok (m', reads) := by
  rw [committing, List.mem_filter, and_iff_right (List.mem_finRange j)]
  exact ((s.store.execute (txns j)).1.isCommitted_outcome_iff _).trans
    (over_execute hwf hquiet (txns j)).1.status_eq_committed_iff

/-- **Executing transactions on disjoint keys one after another:** each is answered as if it were
the only one. -/
theorem merged_oneByOne (hwf : s.store.WellFormed) (hquiet : s.store.Quiescent)
    (hdisjoint : ∀ i j, i ≠ j → ∀ k, Mentions (txns i) k → ¬ Mentions (txns j) k)
    {order : List (Fin n)} (hnodup : order.Nodup)
    (hrun : ∀ j ∈ order, ∃ m' reads, s.store.contents.run (txns j) = .ok (m', reads)) :
    (s.oneByOne txns order).1.store.WellFormed ∧ (s.oneByOne txns order).1.store.Quiescent ∧
      Merged s.store.contents txns order (s.oneByOne txns order).1.store.contents ∧
      (s.oneByOne txns order).2 = order.map fun j => .outcome (s.store.execute (txns j)).2 := by
  induction order using List.reverseRecOn with
  | nil => exact ⟨hwf, hquiet, .nil _ _, rfl⟩
  | append_singleton order j ih =>
      rw [List.nodup_append] at hnodup
      obtain ⟨hnodup, -, hnew⟩ := hnodup
      obtain ⟨hwf', hquiet', hmerged, hreplies⟩ :=
        ih hnodup fun i hi => hrun i (List.mem_append_left _ hi)
      obtain ⟨m₁, reads, hok⟩ := hrun j (by simp)
      have hne : ∀ i ∈ order, i ≠ j := fun i hi => hnew i hi j (by simp)
      obtain ⟨m', hok', hmerged'⟩ :=
        hmerged.concat (fun i hi => hdisjoint i j (hne i hi)) hok
      have hlast : s.oneByOne txns (order ++ [j]) =
          (((s.oneByOne txns order).1.perform (.execute (txns j))).1,
            (s.oneByOne txns order).2 ++
              [((s.oneByOne txns order).1.perform (.execute (txns j))).2]) := by
        rw [oneByOne, List.map_append, performAll_append]
        rfl
      rw [hlast]
      refine ⟨(over_execute hwf' hquiet' (txns j)).2.1, quiescent_execute hwf' hquiet' (txns j),
        ?_, ?_⟩
      · have hcontents := contents_execute hwf' hquiet' (txns j) hok'
        exact hcontents ▸ hmerged'
      · have halone := ((over_execute hwf hquiet (txns j)).1.of_run_eq_ok hok).1
        have hthen := ((over_execute hwf' hquiet' (txns j)).1.of_run_eq_ok hok').1
        rw [hreplies, List.map_append]
        exact congrArg (fun o => _ ++ [Reply.outcome o]) (hthen.trans halone.symm)

/-! ### The result -/

/-- Transactions that were registered in the session `s`, and for which the threads of `c` have
worked since then, do not interfere. -/
structure Undisturbed (s : HelpingSession κ υ) (txns : Fin n → List (Operation κ υ))
    (c : Crew κ υ n) : Prop where
  /-- No attempt is answered by a request for help, -/
  not_blocked : ∀ e ∈ c.log, ∀ owner resume, e.2 ≠ .blocked owner resume
  /-- and no transaction is given up. -/
  fakeAborts_eq : c.session.store.tally.fakeAborts = s.store.tally.fakeAborts
  /-- A thread that has not finished may go on. -/
  goes_on : ∀ j, c.stage j ≠ .finished → ∃ command, c.asks j command
  /-- A transaction whose thread has finished has the status, -/
  status_eq : ∀ j, c.stage j = .finished → c.session.store.registry.status (c.txn j) =
    (s.store.execute (txns j)).1.registry.status s.store.registry.size
  /-- the reads, -/
  reads_eq : ∀ j, c.stage j = .finished → (c.session.store.registry.get (c.txn j)).reads =
    ((s.store.execute (txns j)).1.registry.get s.store.registry.size).reads
  /-- and the outcome that it has if it is executed alone. -/
  outcome_eq : ∀ j, c.stage j = .finished →
    c.session.store.outcome (c.txn j) = (s.store.execute (txns j)).2
  /-- So the same transactions commit, whatever the threads do. -/
  committed_iff : ∀ j, c.stage j = .finished →
    (c.session.store.registry.status (c.txn j) = .committed ↔ j ∈ s.committing txns)
  /-- Once all have finished, the live entries are those that the committed transactions leave if
  they are executed one after another, in any order, -/
  entries_eq : (∀ j, c.stage j = .finished) → ∀ order, order.Perm (s.committing txns) →
    c.session.store.entries = (s.oneByOne txns order).1.store.entries
  /-- and these all commit then, with the same reads. -/
  replies_eq : ∀ order, order.Perm (s.committing txns) →
    (s.oneByOne txns order).2 = order.map fun j => .outcome (s.store.execute (txns j)).2

end HelpingSession

/-- **Transactions on disjoint keys do not interfere**, however their threads take turns. A thread
has a turn for each operation at most, and one to finish. -/
theorem Crew.undisturbed {s : HelpingSession κ υ} (hs : s.Reachable) (hquiet : s.store.Quiescent)
    {txns : Fin n → List (Operation κ υ)}
    (hdisjoint : ∀ i j, i ≠ j → ∀ k, Mentions (txns i) k → ¬ Mentions (txns j) k)
    {turns : List (Fin n × Command κ υ)} (hturns : (hire s txns).follows turns) :
    Undisturbed s txns ((hire s txns).play turns) ∧
      ∀ j, turns.countP (fun e => e.1 = j) ≤ (txns j).length + 1 := by
  have hwf := hs.wellFormed
  obtain ⟨hapart, hleft⟩ := (apart_hire hwf hquiet txns).play hdisjoint hturns
  refine ⟨?_, fun j => (Nat.le_add_right _ _).trans (hleft j)⟩
  clear hleft
  generalize (hire s txns).play turns = c at hapart
  have hsame (j : Fin n) (hj : c.stage j = .finished) :=
    (over_execute hwf hquiet (txns j)).1.same (hapart.carriedOut hj)
  have hserial (order : List (Fin n)) (hperm : order.Perm (s.committing txns)) :=
    merged_oneByOne hwf hquiet hdisjoint (hperm.nodup_iff.mpr ((List.nodup_finRange n).filter _))
      fun j hj => (mem_committing hwf hquiet j).mp (hperm.mem_iff.mp hj)
  refine ⟨hapart.not_blocked, hapart.fakeAborts_eq, fun j hj => Stage.exists_asks hj _ _,
    fun j hj => (hsame j hj).1,
    fun j hj => (hsame j hj).2.1, fun j hj => (hsame j hj).2.2, fun j hj => ?_,
    fun hover order hperm => ?_, fun order hperm => (hserial order hperm).2.2.2⟩
  · exact (hapart.carriedOut hj).status_eq_committed_iff.trans (mem_committing hwf hquiet j).symm
  · obtain ⟨hwf', -, hmerged, -⟩ := hserial order hperm
    have heq := (hapart.merged hover (mem_committing hwf hquiet)).unique hmerged
      (fun j => hperm.mem_iff) fun j hj => (mem_committing hwf hquiet j).mp hj
    exact hapart.wellFormed.lists_entries.unique (heq ▸ hwf'.lists_entries)

namespace Crew

/-- A transaction has committed, another was aborted, and a late thread has left a ghost of it. -/
def settled : HelpingSession Nat Nat :=
  (performAll HelpingSession.perform {} [
    .allocate [.insert 2 20, .insert 5 50], .step 0 0, .step 0 1, .finish 0 2 false,
    .allocate [.insert 7 70, .delete 9], .step 1 0, .step 1 1, .finish 1 2 true, .late 1 0]).1

/-- Three transactions on disjoint keys, the last of which fails. -/
def separate : Fin 3 → List (Operation Nat Nat)
  | 0 => [.insert 1 10, .find 5]
  | 1 => [.delete 2, .insert 2 21, .find 2]
  | 2 => [.insert 7 71, .insert 3 30, .delete 4]

/-- Their threads take turns. -/
def turns : List (Fin 3 × Command Nat Nat) := [
  (0, .step 2 0), (2, .step 4 0), (1, .step 3 0), (2, .step 4 1), (1, .step 3 1), (0, .step 2 1),
  (2, .step 4 2), (1, .step 3 2), (2, .finish 4 0 true), (0, .finish 2 2 false),
  (1, .finish 3 3 false)]

/-- Three transactions on disjoint keys take turns undisturbed, beside a ghost that was left before.
-/
theorem undisturbed_separate : settled.Reachable ∧ settled.store.Quiescent ∧
    (∀ i j, i ≠ j → ∀ k, Mentions (separate i) k → ¬ Mentions (separate j) k) ∧
    (hire settled separate).follows turns ∧
    (∀ j, ((hire settled separate).play turns).stage j = .finished) ∧
    ((hire settled separate).play turns).session.store.entries = [(1, 10), (2, 21), (5, 50)] ∧
    Undisturbed settled separate ((hire settled separate).play turns) := by
  have hreachable : settled.Reachable := Reachable.fresh.performAll _
  have hquiet : settled.store.Quiescent := by
    intro t
    by_cases ht : t < 2
    · have hall : ∀ t < 2, settled.store.registry.isActive t = false := by decide
      exact hall t ht
    · rw [Registry.isActive, Registry.get_of_size_le (Nat.not_lt.mp ht)]
      rfl
  have hdisjoint : ∀ i j, i ≠ j → ∀ k, Mentions (separate i) k → ¬ Mentions (separate j) k := by
    have hall : ∀ i j, i ≠ j → ∀ op ∈ separate i, ∀ op' ∈ separate j, op'.key ≠ op.key := by
      decide
    rintro i j hij k ⟨op, hop, rfl⟩ ⟨op', hop', hkey⟩
    exact hall i j hij op hop op' hop' hkey
  have hturns : (hire settled separate).follows turns := by decide
  exact ⟨hreachable, hquiet, hdisjoint, hturns, by decide, by decide,
    (undisturbed hreachable hquiet hdisjoint hturns).1⟩

end Crew

end AtomicSet
