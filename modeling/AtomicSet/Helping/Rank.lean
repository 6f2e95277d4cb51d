import AtomicSet.Helping.Cleanup

/-!
# How far a thread is from its end

A thread that drives a stack of transactions gets nearer to its end in one of four ways. Deciding a
transaction makes fewer of them active; popping a decided one makes fewer decided ones stacked;
pushing makes fewer active ones unstacked; and a performed or refused operation leaves less to do
for the top frame. The rank lists these four numbers in that order of weight.

## Main definitions

* `Stack.rank` — the four numbers.

## Main statements

* `Store.countActive_settle` — deciding an active transaction leaves fewer active ones.
* `Stack.rank_pop_lt`, `Stack.rank_push_lt` — popping a decided transaction and pushing an active
  one lower the rank.
-/

namespace AtomicSet

variable {κ υ : Type}

/-- The number of active transactions that satisfy `p`. -/
def Registry.countActive (r : Registry κ υ) (p : TxnRef → Bool) : Nat :=
  (List.range r.size).countP fun t => r.isActive t && p t

namespace Stack

/-- Whether no frame drives `t`. -/
def lacks (frames : List Frame) (t : TxnRef) : Bool :=
  frames.all fun f => f.txn ≠ t

/-- The number of frames whose transaction is decided. -/
def countDecided (r : Registry κ υ) (frames : List Frame) : Nat :=
  frames.countP fun f => !r.isActive f.txn

/-- Active transactions, decided ones on the stack, active ones not on the stack, and operations
left for the top frame. -/
def rank (r : Registry κ υ) (frames : List Frame) : Nat × Nat × Nat × Nat :=
  (r.countActive fun _ => true, countDecided r frames, r.countActive (lacks frames),
    match frames with
    | [] => 0
    | f :: _ => f.remaining r)

end Stack

/-! ### Counting -/

/-- A predicate that loses a member of the list counts less. -/
theorem countP_lt_countP {α : Type} {p q : α → Bool} {l : List α} {a : α} (mem : a ∈ l)
    (imp : ∀ x, q x → p x) (hp : p a) (hq : q a = false) : l.countP q < l.countP p := by
  induction l with
  | nil => cases mem
  | cons b l ih =>
    have mono : l.countP q ≤ l.countP p := List.countP_mono_left fun x _ => imp x
    rcases List.mem_cons.mp mem with rfl | tail
    · simp only [List.countP_cons, hp, hq, if_true, Bool.false_eq_true, if_false]
      omega
    · have step := ih tail
      have head := imp b
      rw [List.countP_cons, List.countP_cons]
      by_cases hb : q b
      · rw [if_pos hb, if_pos (head hb)]
        exact Nat.add_lt_add_right step 1
      · rw [if_neg hb]
        exact Nat.lt_of_lt_of_le step (Nat.le_add_right _ _)

namespace Registry

/-- Where only slots are written, as many transactions are active as before. -/
theorem countActive_congr {r r' : Registry κ υ} (h : SlotsOnly r r') (p : TxnRef → Bool) :
    r'.countActive p = r.countActive p := by
  simp only [countActive, h.size_eq, h.isActive_eq]

/-- One active transaction less that satisfies the predicate. -/
theorem countActive_lt {r r' : Registry κ υ} {p q : TxnRef → Bool} {t : TxnRef}
    (size : r'.size = r.size) (active : r.isActive t) (hp : p t)
    (imp : ∀ u, r'.isActive u → q u → r.isActive u ∧ p u)
    (lost : (r'.isActive t && q t) = false) : r'.countActive q < r.countActive p := by
  unfold countActive
  rw [size]
  refine countP_lt_countP (List.mem_range.mpr (lt_size_of_isActive active)) (fun u hu => ?_)
    (by simp [active, hp]) lost
  rw [Bool.and_eq_true] at hu ⊢
  exact imp u hu.1 hu.2

end Registry

namespace Store

/-- Deciding an active transaction leaves fewer active ones. -/
theorem countActive_settle {s : Store κ υ} {t : TxnRef} {final : Status} {fake : Bool}
    (active : s.registry.isActive t) (ends : final ≠ .active) :
    (s.settle t final fake).registry.countActive (fun _ => true) <
      s.registry.countActive fun _ => true := by
  have isActive_eq (u : TxnRef) : (s.settle t final fake).registry.isActive u =
      if t = u then false else s.registry.isActive u := by
    rw [Registry.isActive, get_settle]
    split
    · exact Transaction.isActive_finalize _ ends
    · rfl
  refine Registry.countActive_lt (size_settle ..) active rfl (fun u hu _ => ?_) ?_
  · rw [isActive_eq] at hu
    split at hu
    · cases hu
    · exact ⟨hu, rfl⟩
  · simp [isActive_eq]

variable [LT κ] [DecidableLT κ]

/-- Giving a frame up leaves fewer active transactions, unless its own is decided; then it leaves
all as they are. -/
theorem registry_giveUp (s : Store κ υ) (f : Frame) :
    (s.giveUp f).registry.countActive (fun _ => true) < s.registry.countActive (fun _ => true) ∨
      s.registry.isActive f.txn = false ∧ (s.giveUp f).registry = s.registry := by
  unfold giveUp
  rw [registry_sweep]
  by_cases active : s.registry.isActive f.txn
  · exact Or.inl (countActive_settle active (by decide))
  · rw [Bool.not_eq_true] at active
    exact Or.inr ⟨active, by rw [settle_of_not_active active]⟩

/-- Finishing a frame with nothing left to perform leaves fewer active transactions, unless its own
is decided; then it leaves all as they are. -/
theorem registry_finish (s : Store κ υ) (f : Frame) (done : f.pending? s.registry = none) :
    (s.finish f).registry.countActive (fun _ => true) < s.registry.countActive (fun _ => true) ∨
      s.registry.isActive f.txn = false ∧ (s.finish f).registry = s.registry := by
  unfold finish
  rw [registry_sweep]
  by_cases active : s.registry.isActive f.txn
  · refine Or.inl ?_
    by_cases failed : f.failed
    · simp only [failed, if_true]
      exact countActive_settle active (by decide)
    · simp only [Frame.pending?, failed, active, Bool.not_true, Bool.or_self,
        Bool.false_eq_true, if_false, Transaction.op?_eq_none_iff] at done
      simp only [failed, done, if_true, Bool.false_eq_true, if_false]
      exact countActive_settle active (by decide)
  · rw [Bool.not_eq_true] at active
    refine Or.inr ⟨active, ?_⟩
    split
    · rw [settle_of_not_active active]
    · split
      · rw [settle_of_not_active active]
      · rfl

end Store

/-! ### Lowering the rank -/

namespace Stack

/-- The well-founded order of ranks. -/
abbrev RankLT : Nat × Nat × Nat × Nat → Nat × Nat × Nat × Nat → Prop :=
  Prod.Lex (· < ·) (Prod.Lex (· < ·) (Prod.Lex (· < ·) (· < ·)))

/-- Fewer active transactions lower the rank. -/
theorem rank_lt_of_countActive {r r' : Registry κ υ} {fs fs' : List Frame}
    (h : r'.countActive (fun _ => true) < r.countActive fun _ => true) :
    RankLT (rank r' fs') (rank r fs) :=
  Prod.Lex.left _ _ h

/-- Removing frames, a decided one among them, lowers the rank. -/
theorem rank_lt_of_countDecided {r : Registry κ υ} {fs fs' : List Frame}
    (h : countDecided r fs' < countDecided r fs) : RankLT (rank r fs') (rank r fs) :=
  Prod.Lex.right _ (Prod.Lex.left _ _ h)

/-- Popping a decided transaction lowers the rank. -/
theorem rank_pop_lt {r : Registry κ υ} {f : Frame} {fs : List Frame}
    (decided : r.isActive f.txn = false) : RankLT (rank r fs) (rank r (f :: fs)) :=
  rank_lt_of_countDecided (by simp [countDecided, decided])

/-- Pushing an active transaction that is not on the stack lowers the rank. -/
theorem rank_push_lt {r r' : Registry κ υ} (h : Registry.SlotsOnly r r') {f : Frame}
    {fs : List Frame} (active : r.isActive f.txn) (new : lacks fs f.txn) :
    RankLT (rank r' (f :: fs)) (rank r fs) := by
  have decided : countDecided r' (f :: fs) = countDecided r fs := by
    simp [countDecided, h.isActive_eq, active]
  have fewer : r'.countActive (lacks (f :: fs)) < r.countActive (lacks fs) := by
    refine Registry.countActive_lt h.size_eq active new (fun u hu lack => ?_) (by simp [lacks])
    rw [h.isActive_eq] at hu
    simp only [lacks, List.all_cons, Bool.and_eq_true] at lack
    exact ⟨hu, lack.2⟩
  unfold rank
  rw [Registry.countActive_congr h, decided]
  exact Prod.Lex.right _ (Prod.Lex.right _ (Prod.Lex.left _ _ fewer))

/-- Leaving less to do for the top frame lowers the rank. -/
theorem rank_top_lt {r r' : Registry κ υ} (h : Registry.SlotsOnly r r') {f f' : Frame}
    {fs : List Frame} (same : f'.txn = f.txn) (less : f'.remaining r' < f.remaining r) :
    RankLT (rank r' (f' :: fs)) (rank r (f :: fs)) := by
  have decided : countDecided r' (f' :: fs) = countDecided r (f :: fs) := by
    simp only [countDecided, List.countP_cons, h.isActive_eq, same]
  have lack : lacks (f' :: fs) = lacks (f :: fs) := by
    funext t
    simp [lacks, same]
  unfold rank
  rw [Registry.countActive_congr h, Registry.countActive_congr h, decided, lack]
  exact Prod.Lex.right _ (Prod.Lex.right _ (Prod.Lex.right _ less))

/-- Cutting the stack below a decided transaction lowers the rank. -/
theorem rank_cut_lt {r : Registry κ υ} {stack below : Stack} {pos : Nat} {f : Frame}
    (cut : stack.unwind? pos = some (f, below)) (decided : r.isActive f.txn = false) :
    RankLT (rank r below.frames) (rank r stack.frames) := by
  obtain ⟨found, left⟩ := unwind?_eq_some_iff.mp cut
  refine rank_lt_of_countDecided ?_
  obtain ⟨lt, rfl⟩ := List.getElem?_eq_some_iff.mp found
  have whole : countDecided r stack.frames = countDecided r (stack.fromBottom.take pos) +
      countDecided r (stack.fromBottom[pos] :: stack.fromBottom.drop (pos + 1)) := by
    rw [List.getElem_cons_drop, countDecided, countDecided, countDecided, ← List.countP_append,
      List.take_append_drop, fromBottom, List.countP_reverse]
  have top : 0 < countDecided r (stack.fromBottom[pos] :: stack.fromBottom.drop (pos + 1)) := by
    rw [countDecided, List.countP_cons, decided]
    exact Nat.succ_pos _
  have kept : countDecided r below.frames = countDecided r (stack.fromBottom.take pos) := by
    rw [← left, fromBottom, countDecided, countDecided, List.countP_reverse]
  omega

end Stack

end AtomicSet
