import AtomicSet.Text.Unseen.Blank
import AtomicSet.Text.Unseen.Mark
import AtomicSet.Text.Unseen.Vacant

/-!
# Characters that do not show by themselves

A reader should be able to tell any two texts apart. A character that leaves no mark of its own on
the page, or only alters the one before it, defeats that, so whoever shows a text has to know which
characters these are: the blanks, the marks and the code points without a character, as Unicode 17
has them.

## Main definitions

* `Unseen.unseen` — whether a character is one of these.

## Main statements

* `Unseen.unseen_iff` — above the seven-bit characters, `unseen` is to lie in one of the ranges.

## Conventions

The tables begin above the seven-bit characters, of which only the controls are unseen.
-/

namespace AtomicSet

namespace Unseen

/-- Whether a character does not show by itself. The space does. -/
def unseen (c : Char) : Bool :=
  if c.toNat < 0x80 then c.toNat < 0x20 || c.toNat = 0x7f
  else blankRanges.holds c.toNat || markRanges.holds c.toNat || vacantRanges.holds c.toNat

/-- Above the seven-bit characters, to be unseen is to lie in one of the ranges. -/
theorem unseen_iff (c : Char) (h : 0x80 ≤ c.toNat) :
    unseen c ↔
      ∃ r, (r ∈ blankRanges ∨ r ∈ markRanges ∨ r ∈ vacantRanges) ∧
        r.1 ≤ c.toNat ∧ c.toNat ≤ r.2 := by
  simp only [unseen, Nat.not_lt.2 h, if_false, Bool.or_eq_true,
    CodeRanges.holds_iff ascend_blankRanges, CodeRanges.holds_iff ascend_markRanges,
    CodeRanges.holds_iff ascend_vacantRanges, or_and_right, exists_or, or_assoc]

end Unseen

end AtomicSet
