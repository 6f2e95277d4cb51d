import AtomicSet.Chain
import Mathlib.Order.Lattice

/-!
# What a search does to a chain

A search walks past the marked elements and those of smaller keys, and stops at the first element
that is neither. Everything it leaves behind follows from this split of the chain, whatever the
order of its elements (`locate_eq`).

In an ascending chain whose marked elements all have the key searched for, the search takes out
exactly the marked elements, and it hits exactly if an unmarked element has the key.

## Main definitions

* `passes` — whether a search walks past an element.
* `Ascending` — strictly ascending keys.

## Main results

* `locate_eq` — the cursor in terms of the elements passed and those not reached.
* `chain_locate`, `unlinked_locate` — what stays and what goes in an ascending chain.
* `hit?_locate_eq_some_iff` — the search hits exactly the unmarked element of its key.
-/

namespace AtomicSet

variable {α κ : Type} [LinearOrder κ] {key : α → κ} {marked : α → Bool} {k : κ} {l : List α}

/-- Whether a search for `k` walks past the element. -/
def passes (key : α → κ) (marked : α → Bool) (k : κ) (a : α) : Bool :=
  marked a || decide (key a < k)

/-- The keys ascend strictly. -/
def Ascending (key : α → κ) (l : List α) : Prop :=
  l.Pairwise fun a b => key a < key b

/-- What a search passes is kept or unlinked by its mark; the rest it does not reach. -/
theorem locate_eq (l : List α) :
    locate key marked k l =
      { before := (l.takeWhile (passes key marked k)).filter fun a => !marked a
        unlinked := (l.takeWhile (passes key marked k)).filter marked
        rest := l.dropWhile (passes key marked k) } := by
  induction l with
  | nil => rfl
  | cons a as ih =>
      rw [locate]
      by_cases hm : marked a
      · simp [ih, hm, passes]
      · by_cases hlt : key a < k
        · simp [ih, hm, hlt, passes]
        · simp [hm, hlt, passes]

/-- The first element that a search does not walk past has a key that is not smaller, and so have
all elements behind it. -/
theorem le_key_of_mem_rest (hl : Ascending key l) {a : α}
    (ha : a ∈ (locate key marked k l).rest) : k ≤ key a := by
  rw [locate_eq] at ha
  dsimp only at ha
  induction l with
  | nil => cases ha
  | cons b bs ih =>
      rw [Ascending, List.pairwise_cons] at hl
      by_cases hb : passes key marked k b
      · rw [List.dropWhile_cons_of_pos hb] at ha
        exact ih hl.2 ha
      · rw [List.dropWhile_cons_of_neg hb] at ha
        simp only [passes, Bool.or_eq_true, decide_eq_true_eq, not_or, not_lt] at hb
        rcases List.mem_cons.mp ha with rfl | hmem
        · exact hb.2
        · exact le_of_lt (lt_of_le_of_lt hb.2 (hl.1 a hmem))

/-- What stays in front of the cursor has a smaller key. -/
theorem key_lt_of_mem_before {a : α} (ha : a ∈ (locate key marked k l).before) : key a < k := by
  rw [locate_eq] at ha
  obtain ⟨hmem, hm⟩ := List.mem_filter.mp ha
  have hp := List.all_eq_true.mp List.all_takeWhile a hmem
  simp only [Bool.not_eq_true'] at hm
  simpa [passes, hm] using hp

/-- Nothing behind the cursor is marked. -/
theorem not_marked_of_mem_rest (hl : Ascending key l) (hk : ∀ a ∈ l, marked a → key a = k)
    {a : α} (ha : a ∈ (locate key marked k l).rest) : marked a = false := by
  rw [locate_eq] at ha
  dsimp only at ha
  induction l with
  | nil => cases ha
  | cons b bs ih =>
      rw [Ascending, List.pairwise_cons] at hl
      by_cases hb : passes key marked k b
      · rw [List.dropWhile_cons_of_pos hb] at ha
        exact ih hl.2 (fun c hc => hk c (List.mem_cons_of_mem _ hc)) ha
      · rw [List.dropWhile_cons_of_neg hb] at ha
        simp only [passes, Bool.or_eq_true, decide_eq_true_eq, not_or, not_lt,
          Bool.not_eq_true] at hb
        rcases List.mem_cons.mp ha with rfl | hmem
        · exact hb.1
        · rw [Bool.eq_false_iff]
          intro hma
          have hak := hk a (List.mem_cons_of_mem _ hmem) hma
          exact absurd (lt_of_le_of_lt hb.2 (hl.1 a hmem)) (by rw [hak]; exact lt_irrefl k)

/-- **A search takes out the marked elements**, and nothing else. -/
theorem chain_locate (hl : Ascending key l) (hk : ∀ a ∈ l, marked a → key a = k) :
    (locate key marked k l).chain = l.filter fun a => !marked a := by
  have hrest : (locate key marked k l).rest.filter (fun a => !marked a) =
      (locate key marked k l).rest :=
    List.filter_eq_self.mpr fun a ha => by rw [not_marked_of_mem_rest hl hk ha]; rfl
  rw [Cursor.chain, ← hrest, locate_eq]
  dsimp only
  rw [← List.filter_append, List.takeWhile_append_dropWhile]

/-- What a search unlinks are the marked elements, in order. -/
theorem unlinked_locate (hl : Ascending key l) (hk : ∀ a ∈ l, marked a → key a = k) :
    (locate key marked k l).unlinked = l.filter marked := by
  have hrest : (locate key marked k l).rest.filter marked = [] :=
    List.filter_eq_nil_iff.mpr fun a ha => by simp [not_marked_of_mem_rest hl hk ha]
  rw [locate_eq] at hrest ⊢
  dsimp only at hrest ⊢
  calc (l.takeWhile (passes key marked k)).filter marked
      = (l.takeWhile (passes key marked k)).filter marked ++
          (l.dropWhile (passes key marked k)).filter marked := by rw [hrest, List.append_nil]
    _ = l.filter marked := by rw [← List.filter_append, List.takeWhile_append_dropWhile]

/-- A search without marks on its way changes nothing. -/
theorem locate_of_not_marked (hl : Ascending key l) (h : ∀ a ∈ l, marked a = false) :
    (locate key marked k l).chain = l ∧ (locate key marked k l).unlinked = [] := by
  have hk : ∀ a ∈ l, marked a → key a = k := fun a ha hm => by simp [h a ha] at hm
  rw [chain_locate hl hk, unlinked_locate hl hk]
  exact ⟨List.filter_eq_self.mpr fun a ha => by rw [h a ha]; rfl,
    List.filter_eq_nil_iff.mpr fun a ha => by simp [h a ha]⟩

/-! ### Hits and misses -/

/-- A search hits the element that it ends at, if this one has the key. -/
theorem hit?_eq_some_iff {c : Cursor α} {a : α} :
    c.hit? key k = some a ↔ c.rest.head? = some a ∧ key a = k := by
  rw [Cursor.hit?]
  cases c.rest with
  | nil => simp
  | cons b bs =>
      by_cases hb : key b = k
      · simp only [hb, if_true, List.head?_cons, Option.some.injEq]
        exact ⟨fun h => ⟨h, h ▸ hb⟩, And.left⟩
      · simp only [hb, if_false, List.head?_cons, Option.some.injEq, reduceCtorEq, false_iff,
          not_and]
        exact fun h => h ▸ hb

/-- **A search hits** exactly the element of its key that stays in the chain. -/
theorem hit?_locate_eq_some_iff (hl : Ascending key l) {a : α} :
    (locate key marked k l).hit? key k = some a ↔
      a ∈ (locate key marked k l).chain ∧ key a = k := by
  have hrest : Ascending key (locate key marked k l).rest := by
    rw [locate_eq]
    exact hl.sublist (List.dropWhile_sublist _)
  rw [hit?_eq_some_iff, Cursor.chain]
  constructor
  · rintro ⟨hhead, hak⟩
    exact ⟨List.mem_append_right _ (List.mem_of_mem_head? hhead), hak⟩
  · rintro ⟨hmem, hak⟩
    refine ⟨?_, hak⟩
    rcases List.mem_append.mp hmem with hbefore | hin
    · exact absurd (key_lt_of_mem_before hbefore) (by rw [hak]; exact lt_irrefl k)
    -- Everything in front of `a` in the rest would have a key in between `k` and `key a`.
    · cases heq : (locate key marked k l).rest with
      | nil => rw [heq] at hin; cases hin
      | cons b bs =>
          rw [heq] at hin hrest
          rcases List.mem_cons.mp hin with rfl | htail
          · rfl
          · have hle : k ≤ key b := le_key_of_mem_rest hl (by rw [heq]; exact List.mem_cons_self)
            have hlt : key b < key a := (List.pairwise_cons.mp hrest).1 a htail
            exact absurd (lt_of_le_of_lt hle hlt) (by rw [hak]; exact lt_irrefl k)

/-- **A search misses** exactly if no element of its key stays in the chain. -/
theorem hit?_locate_eq_none_iff (hl : Ascending key l) :
    (locate key marked k l).hit? key k = none ↔
      ∀ a ∈ (locate key marked k l).chain, key a ≠ k := by
  rw [Option.eq_none_iff_forall_ne_some]
  exact ⟨fun h a ha hak => h a ((hit?_locate_eq_some_iff hl).mpr ⟨ha, hak⟩),
    fun h a ha => h a ((hit?_locate_eq_some_iff hl).mp ha).1 ((hit?_locate_eq_some_iff hl).mp ha).2⟩

/-- After a miss there is room for the key between what the search passed and the rest. -/
theorem ascending_of_miss (hl : Ascending key l)
    (hmiss : (locate key marked k l).hit? key k = none) {a : α} (ha : key a = k) :
    Ascending key ((locate key marked k l).before ++ a :: (locate key marked k l).rest) := by
  have hne := (hit?_locate_eq_none_iff hl).mp hmiss
  have hsub : ((locate key marked k l).before ++ (locate key marked k l).rest).Sublist l := by
    have hfilter : ((l.takeWhile (passes key marked k)).filter fun a => !marked a).Sublist
        (l.takeWhile (passes key marked k)) := List.filter_sublist
    have happend := hfilter.append (List.Sublist.refl (l.dropWhile (passes key marked k)))
    rw [List.takeWhile_append_dropWhile] at happend
    rw [locate_eq]
    exact happend
  have hboth := List.pairwise_append.mp (hl.sublist hsub)
  have hafter : ∀ b ∈ (locate key marked k l).rest, key a < key b := fun b hb =>
    lt_of_le_of_ne (ha ▸ le_key_of_mem_rest hl hb)
      (ha ▸ (hne b (List.mem_append_right _ hb)).symm)
  refine List.pairwise_append.mpr ⟨hboth.1, List.pairwise_cons.mpr ⟨hafter, hboth.2.1⟩, ?_⟩
  intro b hb c hc
  rcases List.mem_cons.mp hc with rfl | hc
  · exact ha ▸ key_lt_of_mem_before hb
  · exact hboth.2.2 b hb c hc

end AtomicSet
