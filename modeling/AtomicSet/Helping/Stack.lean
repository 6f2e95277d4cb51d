import AtomicSet.Transaction.Registry

/-!
# Stacks of transactions being helped

A thread that meets a node of another active transaction finishes that transaction first. It keeps
the transactions it drives on a stack: its own at the bottom, and each other one above the one that
waits for it. When a transaction on the stack is needed again, the frames from it to the top wait on
each other in a cycle. The youngest of them, the one with the largest identifier, is given up, and
with it everything above it, which was being helped on its behalf only. Every thread that sees the
same cycle picks the same one, and the oldest is never picked.

## Main definitions

* `Frame` — a transaction being driven: its next operation and the nodes touched on its behalf.
* `Stack` — frames; positions count from the bottom.
* `Stack.position`, `Stack.victim`, `Stack.unwind` — find a transaction, choose the youngest of a
  cycle, cut the stack there.
-/

namespace AtomicSet

variable {κ υ : Type}

/-- A transaction that a thread is driving. -/
structure Frame where
  txn : TxnRef
  /-- The position of the operation to perform next. -/
  next : Nat
  /-- Whether an operation failed. -/
  failed : Bool := false
  /-- The nodes that carry the transaction's stamp, as far as this thread met them. -/
  touched : List NodeId := []
deriving DecidableEq, Repr

namespace Frame

/-- The operation to perform next, unless an operation failed, none is left, or the transaction is
decided. -/
def pending? (f : Frame) (r : Registry κ υ) : Option (Operation κ υ) :=
  if f.failed || !r.isActive f.txn then none else (r.get f.txn).op? f.next

/-- Whether there is nothing left to perform. -/
def isFinished (f : Frame) (r : Registry κ υ) : Bool :=
  f.failed || decide ((r.get f.txn).size ≤ f.next) || !r.isActive f.txn

/-- There is an operation to perform exactly if the frame is not finished. -/
theorem pending?_eq_none_iff (f : Frame) (r : Registry κ υ) :
    f.pending? r = none ↔ f.isFinished r := by
  rw [pending?, isFinished]
  cases f.failed with
  | true => simp
  | false =>
    cases r.isActive f.txn with
    | false => simp
    | true => simp [Transaction.op?_eq_none_iff]

/-- An operation to perform is the one at the frame's position. -/
theorem pending?_eq_some_iff {f : Frame} {r : Registry κ υ} {op : Operation κ υ} :
    f.pending? r = some op ↔
      f.failed = false ∧ r.isActive f.txn = true ∧ (r.get f.txn).op? f.next = some op := by
  rw [pending?]
  cases f.failed <;> cases r.isActive f.txn <;> simp

/-- The number of operations left to perform. -/
def remaining (f : Frame) (r : Registry κ υ) : Nat :=
  if f.failed then 0 else (r.get f.txn).size - f.next

end Frame

/-- The transactions that a thread drives. -/
structure Stack where
  /-- The frames, the top one first. -/
  frames : List Frame := []
deriving DecidableEq, Repr

/-- The position and the value of the last maximum. -/
def lastMax : List Nat → Option (Nat × Nat)
  | [] => none
  | x :: xs =>
    match lastMax xs with
    | none => some (0, x)
    | some (i, m) => if m < x then some (0, x) else some (i + 1, m)

namespace Stack

/-- The stack that drives `t` from its first operation on. -/
def ofRoot (t : TxnRef) : Stack :=
  ⟨[{ txn := t, next := 0 }]⟩

/-- The number of frames. -/
def length (s : Stack) : Nat :=
  s.frames.length

/-- The frames, the bottom one first. -/
def fromBottom (s : Stack) : List Frame :=
  s.frames.reverse

/-- The top frame. -/
def top? (s : Stack) : Option Frame :=
  s.frames.head?

/-- Starts to drive `t` from the operation at position `next` on. -/
def push (s : Stack) (t : TxnRef) (next : Nat) : Stack :=
  ⟨{ txn := t, next } :: s.frames⟩

/-- The stack without its top frame. -/
def pop (s : Stack) : Stack :=
  ⟨s.frames.tail⟩

/-- Replaces the top frame, if there is one. -/
def setTop (s : Stack) (f : Frame → Frame) : Stack :=
  match s.frames with
  | [] => s
  | top :: below => ⟨f top :: below⟩

/-- The position of the lowest frame of `t`. -/
def position (s : Stack) (t : TxnRef) : Option Nat :=
  s.fromBottom.findIdx? fun f => f.txn = t

/-- The position of the transaction with the largest identifier among the frames from position
`start` on, and of these the topmost; `start` itself if there is no frame. -/
def victim (s : Stack) (idOf : TxnRef → Nat) (start : Nat) : Nat :=
  match lastMax ((s.fromBottom.drop start).map fun f => idOf f.txn) with
  | none => start
  | some (offset, _) => start + offset

/-- Splits the frames from a position on off, and answers the lowest of them together with the
frames that are left, if there is such a frame. -/
def unwind? (s : Stack) (pos : Nat) : Option (Frame × Stack) :=
  match s.fromBottom.splitAt pos with
  | (_, []) => none
  | (below, f :: _) => some (f, ⟨below.reverse⟩)

/-- Where to cut a stack on which `t` is needed again: the frame of the victim of the cycle that
starts at `t`, together with the frames below it. There is none if `t` is not on the stack. -/
def cut? (s : Stack) (idOf : TxnRef → Nat) (t : TxnRef) : Option (Frame × Stack) :=
  (s.position t).bind fun start => s.unwind? (s.victim idOf start)

/-- The victim of the cycle that starts at `start`, which must not lie above the stack. -/
def chooseVictim (s : Stack) (idOf : TxnRef → Nat) (start : Nat) : Except Fault Nat :=
  if start ≤ s.length then .ok (s.victim idOf start)
  else .error (.rangeStart start s.length)

/-- Removes the frame at a position and those above it, and answers the one at the position. -/
def unwind (s : Stack) (pos : Nat) : Except Fault (Frame × Stack) :=
  match s.unwind? pos with
  | some cut => .ok cut
  | none =>
    .error (if pos = s.length then .removeFromEmpty else .splitIndex pos s.length)

/-! ### Cutting a stack -/

/-- What is left of a stack that is cut, and the frame that is answered. -/
theorem unwind?_eq_some_iff {s below : Stack} {pos : Nat} {f : Frame} :
    s.unwind? pos = some (f, below) ↔
      s.fromBottom[pos]? = some f ∧ below.fromBottom = s.fromBottom.take pos := by
  rw [unwind?, List.splitAt_eq, ← List.head?_drop]
  cases s.fromBottom.drop pos with
  | nil => simp
  | cons g above =>
    simp only [List.head?_cons, Option.some.injEq, Prod.mk.injEq]
    refine and_congr_right fun _ => ⟨?_, ?_⟩
    · rintro rfl
      exact List.reverse_reverse _
    · intro eq
      rw [← eq, fromBottom, List.reverse_reverse]

/-- A stack can be cut wherever there is a frame. -/
theorem exists_unwind? {s : Stack} {pos : Nat} {f : Frame} (h : s.fromBottom[pos]? = some f) :
    ∃ below, s.unwind? pos = some (f, below) :=
  ⟨⟨(s.fromBottom.take pos).reverse⟩, unwind?_eq_some_iff.mpr ⟨h, List.reverse_reverse _⟩⟩

/-! ### The victim of a cycle -/

/-- The last maximum is the head of the list, or it is that of the tail. -/
theorem lastMax_cons_eq_some {x : Nat} {xs : List Nat} {i m : Nat}
    (h : lastMax (x :: xs) = some (i, m)) :
    (i = 0 ∧ m = x ∧ (lastMax xs = none ∨ ∃ j n, lastMax xs = some (j, n) ∧ n < x)) ∨
      ∃ j, i = j + 1 ∧ lastMax xs = some (j, m) ∧ x ≤ m := by
  rw [lastMax] at h
  rcases rest : lastMax xs with _ | ⟨j, n⟩
  · simp only [rest, Option.some.injEq, Prod.mk.injEq] at h
    exact Or.inl ⟨h.1.symm, h.2.symm, Or.inl rfl⟩
  · by_cases larger : n < x
    · simp only [rest, if_pos larger, Option.some.injEq, Prod.mk.injEq] at h
      exact Or.inl ⟨h.1.symm, h.2.symm, Or.inr ⟨j, n, rfl, larger⟩⟩
    · simp only [rest, if_neg larger, Option.some.injEq, Prod.mk.injEq] at h
      obtain ⟨rfl, rfl⟩ := h
      exact Or.inr ⟨j, rfl, rfl, Nat.not_lt.mp larger⟩

/-- The last maximum is a member of the list. -/
theorem lastMax_lt {xs : List Nat} {i m : Nat} (h : lastMax xs = some (i, m)) :
    i < xs.length := by
  induction xs generalizing i m with
  | nil => cases h
  | cons x xs ih =>
    rw [List.length_cons]
    rcases lastMax_cons_eq_some h with ⟨rfl, -, -⟩ | ⟨j, rfl, rest, -⟩
    · exact Nat.succ_pos _
    · exact Nat.succ_lt_succ (ih rest)

/-- From the bottom the frames are as many. -/
@[simp] theorem length_fromBottom (s : Stack) : s.fromBottom.length = s.length := by
  simp [fromBottom, length]

/-- The victim of a cycle is on the stack, at or above the start of the cycle. -/
theorem victim_lt {s : Stack} (idOf : TxnRef → Nat) {start : Nat} (h : start < s.length) :
    start ≤ s.victim idOf start ∧ s.victim idOf start < s.length := by
  rw [victim]
  cases max : lastMax ((s.fromBottom.drop start).map fun f => idOf f.txn) with
  | none => exact ⟨Nat.le_refl _, h⟩
  | some last =>
    have lt := lastMax_lt max
    simp only [List.length_map, List.length_drop, length_fromBottom] at lt
    exact ⟨Nat.le_add_right start last.1, Nat.add_lt_of_lt_sub' lt⟩

/-- A stack is cut nowhere exactly if the transaction needed is not on it. -/
theorem cut?_eq_none_iff {s : Stack} {idOf : TxnRef → Nat} {t : TxnRef} :
    s.cut? idOf t = none ↔ ∀ f ∈ s.frames, f.txn ≠ t := by
  have position_none : s.position t = none ↔ ∀ f ∈ s.frames, f.txn ≠ t := by
    simp [position, fromBottom]
  rw [← position_none]
  constructor
  · intro none_eq
    cases found : s.position t with
    | none => rfl
    | some start =>
      have lt : start < s.length := by
        rw [← length_fromBottom]
        exact (List.findIdx?_eq_some_iff_getElem.mp found).1
      have there := (victim_lt idOf lt).2
      rw [← length_fromBottom] at there
      obtain ⟨below, cut⟩ := exists_unwind? (List.getElem?_eq_getElem there)
      rw [cut?, found, Option.bind_some, cut] at none_eq
      cases none_eq
  · intro none_eq
    simp [cut?, none_eq]

end Stack

end AtomicSet
