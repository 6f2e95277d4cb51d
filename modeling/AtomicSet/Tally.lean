/-!
# Counting how transactions end

Both engines count their commits and aborts. A fake abort is one that no operation's precondition
caused: the victim of a cycle of waiting transactions, or a lock that was not free in time. Fake
aborts are counted among the aborts as well.

## Main definitions

* `Tally` — the three counters.
* `Tally.commit`, `Tally.abort` — count one transaction.
* `Tally.text` — the counters in words.
-/

namespace AtomicSet

/-- Numbers of commits, of aborts, and of those aborts that were fake. They stand for counters of 64
bits and have no bound here: a counter is taken not to wrap, for there are fewer than `2 ^ 64`
transactions between two resets. -/
structure Tally where
  commits : Nat := 0
  aborts : Nat := 0
  fakeAborts : Nat := 0
deriving DecidableEq, Repr

namespace Tally

/-- Counts a commit. -/
def commit (c : Tally) : Tally :=
  { c with commits := c.commits + 1 }

/-- Counts an abort, and a fake abort too if it was `fake`. -/
def abort (c : Tally) (fake : Bool) : Tally :=
  { c with
    aborts := c.aborts + 1
    fakeAborts := c.fakeAborts + (if fake then 1 else 0) }

/-- The counters in words. -/
def text (c : Tally) : String :=
  s!"commit: {c.commits}, abort (total/fake): {c.aborts}/{c.fakeAborts}"

end Tally

end AtomicSet
