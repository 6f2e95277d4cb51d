import AtomicSet.Text.Decimal

/-!
# Lengths of time

A length of time is shown in the largest of the units s, ms, µs and ns that is at most as long, with
the exact fraction and no zeros at its end: `2.05s`, `1ms`, `1.5µs`, `0ns`.

## Main definitions

* `Duration` — a whole number of nanoseconds.
* `Duration.text` — its text.
-/

namespace AtomicSet

/-- A length of time. -/
structure Duration where
  nanoseconds : Nat
deriving DecidableEq, Repr

namespace Duration

/-- A length of time in whole milliseconds. -/
def ofMilliseconds (ms : Nat) : Duration :=
  ⟨ms * 1000000⟩

/-- A length of time in whole seconds and further nanoseconds. -/
def ofSeconds (seconds nanoseconds : Nat) : Duration :=
  ⟨seconds * 1000000000 + nanoseconds⟩

/-- The units above a nanosecond, largest first: how many decimal places each is above it, and its
symbol. -/
def units : List (Nat × String) :=
  [(9, "s"), (6, "ms"), (3, "µs")]

/-- The exact number of units of `10 ^ places` nanoseconds, as a decimal. -/
def inUnits (d : Duration) (places : Nat) : String :=
  let unit := Nat.pow 10 places
  let fraction := trimZeros (zeroPadded places (d.nanoseconds % unit))
  if d.nanoseconds % unit = 0 then toString (d.nanoseconds / unit)
  else toString (d.nanoseconds / unit) ++ "." ++ String.ofList fraction

/-- The text of a length of time. -/
def text (d : Duration) : String :=
  match units.find? fun u => Nat.pow 10 u.1 ≤ d.nanoseconds with
  | some (places, symbol) => d.inUnits places ++ symbol
  | none => d.inUnits 0 ++ "ns"

end Duration

end AtomicSet
