import AtomicSet.Proofs.Search
import Mathlib.Data.List.Induction

/-!
# The bracket a search leaves

A search is used by more than the ordered chains of the two engines: nothing in it needs the keys to
ascend or to differ, or the marks to be few. On any chain it stops at the first unmarked element
whose key is not smaller (`stop`), links that element to the last unmarked element in front of it,
and takes out what is marked in between and before; the elements behind the stop it does not touch.

## Main definitions

* `stop` — the position at which a search has to stop.
* `Bracketed` — what a search has to leave behind.

## Main results

* `take_stop`, `drop_stop` — a search walks past exactly the elements in front of the stop.
* `locate_chain_locate` — a second search finds the same bracket and unlinks nothing.
* `bracketed_locate` — a search leaves the tightest bracket, on any chain.
-/

namespace AtomicSet

variable {α κ : Type} [LinearOrder κ] {key : α → κ} {marked : α → Bool} {k : κ}

/-- The position of the first unmarked element whose key is at least `k`; the length of the chain if
there is none. -/
def stop (key : α → κ) (marked : α → Bool) (k : κ) (l : List α) : Nat :=
  l.findIdx fun a => !marked a && decide (k ≤ key a)

/-- What a search for `k` has to leave behind of the chain `l`. -/
structure Bracketed (key : α → κ) (marked : α → Bool) (k : κ) (l : List α) (c : Cursor α) :
    Prop where
  /-- The answer is the element at the stop. -/
  curr : c.curr? = l[stop key marked k l]?
  /-- The head links to the answer if everything in front of the stop is marked; else the last
  unmarked element there does. -/
  prev : (c.prev? = none ∧ ∀ a ∈ l.take (stop key marked k l), marked a) ∨
    ∃ q a, q < stop key marked k l ∧ l[q]? = some a ∧ marked a = false ∧
      (∀ b ∈ (l.take (stop key marked k l)).drop (q + 1), marked b) ∧
      c.prev? = some a ∧ c.before = (l.take q).filter (fun b => !marked b) ++ [a]
  /-- The unmarked elements in front of the stop have smaller keys. -/
  smaller : ∀ a ∈ l.take (stop key marked k l), marked a = false → key a < k
  /-- The search hits if there is an answer and it has the key. -/
  hit : (c.hit? key k).isSome ↔ ∃ a, l[stop key marked k l]? = some a ∧ key a = k
  /-- Exactly the marked elements in front of the stop are out of the chain. -/
  chain : c.chain =
    (l.take (stop key marked k l)).filter (fun a => !marked a) ++ l.drop (stop key marked k l)
  /-- They, and no others, are reported as unlinked. -/
  unlinked : c.unlinked = (l.take (stop key marked k l)).filter marked
  /-- In a chain with keys in order, a hit means that an unmarked element has the key. -/
  sorted : (l.Pairwise fun a b => key a ≤ key b) →
    ((c.hit? key k).isSome ↔ ∃ a ∈ l, marked a = false ∧ key a = k)
  /-- A second search for `k` has the same answer and unlinks nothing. -/
  again : locate key marked k c.chain = { c with unlinked := [] }

/-! ### Where the search stops -/

/-- The stop is the first element that a search does not walk past. -/
theorem stop_eq (l : List α) :
    stop key marked k l = l.findIdx fun a => !passes key marked k a := by
  rw [stop]
  congr 1
  funext a
  simp only [passes, Bool.not_or, ← decide_not, not_lt]

/-- What lies in front of the stop is what a search passes. -/
theorem take_stop (l : List α) :
    l.take (stop key marked k l) = l.takeWhile (passes key marked k) := by
  rw [stop_eq, List.takeWhile_eq_take_findIdx_not]

/-- What lies behind it, the stop included, is what a search does not pass. -/
theorem drop_stop (l : List α) :
    l.drop (stop key marked k l) = l.dropWhile (passes key marked k) := by
  rw [stop_eq, List.dropWhile_eq_drop_findIdx_not]

/-- What a search passes is in front of the stop, what it does not reach lies behind it. -/
theorem locate_eq_stop (l : List α) :
    locate key marked k l =
      { before := (l.take (stop key marked k l)).filter fun a => !marked a
        unlinked := (l.take (stop key marked k l)).filter marked
        rest := l.drop (stop key marked k l) } := by
  rw [locate_eq, take_stop, drop_stop]

/-- A search ends at the stop. -/
theorem curr?_locate (l : List α) :
    (locate key marked k l).curr? = l[stop key marked k l]? := by
  rw [locate_eq_stop, Cursor.curr?, List.head?_drop]

/-- An unmarked element in front of the stop has a smaller key. -/
theorem key_lt_of_mem_take_stop {l : List α} {a : α} (ha : a ∈ l.take (stop key marked k l))
    (hm : marked a = false) : key a < k := by
  have hbefore : a ∈ (locate key marked k l).before := by
    rw [locate_eq_stop]
    exact List.mem_filter.mpr ⟨ha, by rw [hm]; rfl⟩
  exact key_lt_of_mem_before hbefore

/-- The element at the stop is unmarked, and its key is not smaller. -/
theorem at_stop {l : List α} {a : α} (ha : l[stop key marked k l]? = some a) :
    marked a = false ∧ k ≤ key a := by
  obtain ⟨hlt, rfl⟩ := List.getElem?_eq_some_iff.mp ha
  have hstop := List.findIdx_getElem (w := hlt)
  simp only [Bool.and_eq_true, Bool.not_eq_true', decide_eq_true_eq] at hstop
  exact hstop

/-! ### The link to the answer -/

/-- The last element of a list that stays in it when some are filtered out, and where it was. -/
theorem filter_eq_nil_or_last (p : α → Bool) (l : List α) :
    (l.filter p = [] ∧ ∀ a ∈ l, p a = false) ∨
    ∃ q a, l[q]? = some a ∧ p a ∧ (∀ b ∈ l.drop (q + 1), p b = false) ∧
      l.filter p = (l.take q).filter p ++ [a] := by
  induction l using List.reverseRecOn with
  | nil => exact .inl ⟨rfl, by simp⟩
  | append_singleton l a ih =>
      by_cases ha : p a
      · refine .inr ⟨l.length, a, by simp, ha, by simp, ?_⟩
        rw [List.filter_append, List.take_left, List.filter_cons_of_pos ha, List.filter_nil]
      · simp only [Bool.not_eq_true] at ha
        have hfilter : (l ++ [a]).filter p = l.filter p := by simp [ha]
        rcases ih with ⟨hnil, hall⟩ | ⟨q, b, hq, hb, hafter, heq⟩
        · refine .inl ⟨hfilter.trans hnil, fun c hc => ?_⟩
          rcases List.mem_append.mp hc with hc | hc
          · exact hall c hc
          · rwa [List.mem_singleton.mp hc]
        · have hlt : q < l.length := (List.getElem?_eq_some_iff.mp hq).1
          refine .inr ⟨q, b, by rw [List.getElem?_append_left hlt, hq], hb, fun c hc => ?_, ?_⟩
          · rw [List.drop_append_of_le_length (by omega)] at hc
            rcases List.mem_append.mp hc with hc | hc
            · exact hafter c hc
            · rwa [List.mem_singleton.mp hc]
          · rw [hfilter, heq, List.take_append_of_le_length (le_of_lt hlt)]

/-- The link to the answer goes out from the last unmarked element in front of the stop. -/
theorem prev?_locate (l : List α) :
    ((locate key marked k l).prev? = none ∧ ∀ a ∈ l.take (stop key marked k l), marked a) ∨
    ∃ q a, q < stop key marked k l ∧ l[q]? = some a ∧ marked a = false ∧
      (∀ b ∈ (l.take (stop key marked k l)).drop (q + 1), marked b) ∧
      (locate key marked k l).prev? = some a ∧
      (locate key marked k l).before = (l.take q).filter (fun b => !marked b) ++ [a] := by
  rw [Cursor.prev?, locate_eq_stop]
  rcases filter_eq_nil_or_last (fun a => !marked a) (l.take (stop key marked k l)) with
    ⟨hnil, hall⟩ | ⟨q, a, hq, ha, hafter, heq⟩
  · refine .inl ⟨by rw [hnil]; rfl, fun a ha => ?_⟩
    simpa using hall a ha
  · have hlt : q < stop key marked k l := by
      have := (List.getElem?_eq_some_iff.mp hq).1
      rw [List.length_take] at this
      omega
    rw [List.getElem?_take_of_lt hlt] at hq
    rw [List.take_take, Nat.min_eq_left (le_of_lt hlt)] at heq
    refine .inr ⟨q, a, hlt, hq, by simpa using ha, fun b hb => ?_, ?_, heq⟩
    · simpa using hafter b hb
    · rw [heq, List.getLast?_concat]

/-! ### Hits -/

/-- A search hits if it ends at an element of its key. -/
theorem isSome_hit?_iff {c : Cursor α} :
    (c.hit? key k).isSome ↔ ∃ a, c.curr? = some a ∧ key a = k := by
  rw [Option.isSome_iff_exists]
  exact exists_congr fun a => hit?_eq_some_iff

/-- In a chain with keys in order, nothing behind the stop has a smaller key than the answer; so an
unmarked element with the key searched for can only be hidden by one with the same key. -/
theorem isSome_hit?_locate_iff {l : List α} (hl : l.Pairwise fun a b => key a ≤ key b) :
    ((locate key marked k l).hit? key k).isSome ↔ ∃ a ∈ l, marked a = false ∧ key a = k := by
  rw [isSome_hit?_iff, curr?_locate]
  constructor
  · rintro ⟨a, ha, hk⟩
    exact ⟨a, List.mem_of_getElem? ha, (at_stop ha).1, hk⟩
  · rintro ⟨a, ha, hm, hk⟩
    rw [← List.take_append_drop (stop key marked k l) l, List.mem_append] at ha
    rcases ha with hbefore | hbehind
    · exact absurd (key_lt_of_mem_take_stop hbefore hm) (by rw [hk]; exact lt_irrefl k)
    · cases hrest : l.drop (stop key marked k l) with
      | nil => rw [hrest] at hbehind; cases hbehind
      | cons b bs =>
          have hb : l[stop key marked k l]? = some b := by rw [← List.head?_drop, hrest]; rfl
          refine ⟨b, hb, le_antisymm ?_ (at_stop hb).2⟩
          have hdrop : (b :: bs).Pairwise fun a b => key a ≤ key b :=
            hrest ▸ hl.sublist (List.drop_sublist _ _)
          rw [hrest] at hbehind
          rcases List.mem_cons.mp hbehind with rfl | hmem
          · exact le_of_eq hk
          · exact hk ▸ (List.pairwise_cons.mp hdrop).1 a hmem

/-! ### Searching again -/

/-- **A second search** for the same key stops where the first one did, and has nothing left to
unlink in front of it. -/
theorem locate_chain_locate (l : List α) :
    locate key marked k (locate key marked k l).chain =
      { locate key marked k l with unlinked := [] } := by
  induction l with
  | nil => rfl
  | cons a as ih =>
      simp only [Cursor.chain] at ih ⊢
      by_cases hm : marked a
      · simpa only [locate, hm, if_true] using ih
      · by_cases hlt : key a < k
        · simp only [locate, hm, hlt, if_true, if_false, Bool.false_eq_true, List.cons_append, ih]
        · simp only [locate, hm, hlt, if_false, Bool.false_eq_true, List.nil_append]

/-- **A search leaves the tightest bracket and removes marked elements only**, on any chain: its
keys may be in any order and occur more than once, and any of its elements may be marked. -/
theorem bracketed_locate (key : α → κ) (marked : α → Bool) (k : κ) (l : List α) :
    Bracketed key marked k l (locate key marked k l) where
  curr := curr?_locate l
  prev := prev?_locate l
  smaller := fun _ => key_lt_of_mem_take_stop
  hit := by rw [isSome_hit?_iff, curr?_locate]
  chain := by rw [locate_eq_stop, Cursor.chain]
  unlinked := by rw [locate_eq_stop]
  sorted := isSome_hit?_locate_iff
  again := locate_chain_locate l

example : locate Prod.fst Prod.snd 3
      [(4, true), (1, false), (3, true), (3, false), (2, false), (3, true)] =
    ⟨[(1, false)], [(4, true), (3, true)], [(3, false), (2, false), (3, true)]⟩ := by decide

end AtomicSet
