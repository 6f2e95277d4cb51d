/-!
# Ranges of code points

A property of characters is kept as the ranges of the code points that have it, both ends included.
The ranges ascend and do not meet, so a search ends at the first that begins above what is looked
for.

## Main definitions

* `CodeRanges` — ranges of code points.
* `CodeRanges.holds` — whether a code point lies in one of them.
* `CodeRanges.ascend` — whether the ranges ascend and do not meet.

## Main statements

* `CodeRanges.holds_iff` — in ranges that ascend, the search misses nothing.
-/

namespace AtomicSet

/-- Ranges of code points, both ends included, in ascending order. -/
abbrev CodeRanges := List (Nat × Nat)

namespace CodeRanges

/-- Whether a code point lies in one of the ranges. -/
def holds : CodeRanges → Nat → Bool
  | [], _ => false
  | r :: rs, n => r.1 ≤ n && (n ≤ r.2 || holds rs n)

/-- Whether all ranges are in order and begin above `n`. -/
def ascendAbove : Nat → CodeRanges → Bool
  | _, [] => true
  | n, r :: rs => n < r.1 && r.1 ≤ r.2 && ascendAbove r.2 rs

/-- Whether the ranges ascend and do not meet. -/
def ascend : CodeRanges → Bool
  | [] => true
  | r :: rs => r.1 ≤ r.2 && ascendAbove r.2 rs

/-- Ranges that ascend above a number start above it. -/
theorem lt_of_ascendAbove {n : Nat} {rs : CodeRanges} (h : ascendAbove n rs) :
    ∀ r ∈ rs, n < r.1 := by
  induction rs generalizing n with
  | nil => simp
  | cons s rs ih =>
    simp only [ascendAbove, Bool.and_eq_true, decide_eq_true_eq] at h
    intro r hr
    rcases List.mem_cons.1 hr with rfl | hr
    · exact h.1.1
    · have := ih h.2 r hr
      omega

/-- Ranges that ascend above a number ascend. -/
theorem ascend_of_ascendAbove {n : Nat} {rs : CodeRanges} (h : ascendAbove n rs) : ascend rs := by
  cases rs with
  | nil => rfl
  | cons r rs =>
    simp only [ascendAbove, Bool.and_eq_true, decide_eq_true_eq] at h
    simp [ascend, h.1.2, h.2]

/-- In ranges that ascend, a code point is found exactly if it lies in one of them. -/
theorem holds_iff {rs : CodeRanges} (h : ascend rs) (n : Nat) :
    holds rs n ↔ ∃ r ∈ rs, r.1 ≤ n ∧ n ≤ r.2 := by
  induction rs with
  | nil => simp [holds]
  | cons s rs ih =>
    simp only [ascend, Bool.and_eq_true, decide_eq_true_eq] at h
    have hlt := lt_of_ascendAbove h.2
    simp only [holds, Bool.and_eq_true, Bool.or_eq_true, decide_eq_true_eq,
      ih (ascend_of_ascendAbove h.2), List.mem_cons, exists_eq_or_imp]
    constructor
    · rintro ⟨hs, hn | hr⟩
      · exact .inl ⟨hs, hn⟩
      · exact .inr hr
    · rintro (⟨hs, hn⟩ | ⟨r, hr, hrn, hn⟩)
      · exact ⟨hs, .inl hn⟩
      · have := hlt r hr
        exact ⟨by omega, .inr ⟨r, hr, hrn, hn⟩⟩

end CodeRanges

end AtomicSet
