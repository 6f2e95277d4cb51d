import AtomicSet.Text.Decimal

/-!
# Sizes in bytes

A size is shown with three decimals in the first of the units B, KiB, MiB and GiB in which its whole
part is below 1000, and in GiB if there is none. The size goes through a double first, which keeps
53 binary digits; the quotient by the unit is exact, and the last decimal is rounded to nearest,
a half to even.

## Main definitions

* `ByteSize.Unit`, `ByteSize.unitOf` — the units, and the unit of a size.
* `ByteSize.toDouble` — the nearest number of 53 binary digits.
* `ByteSize.thousandths` — the number that is shown, times 1000.
* `ByteSize.text` — the text.
-/

namespace AtomicSet

namespace ByteSize

/-- The nearest natural number with at most 53 significant binary digits; of two equally near ones,
the one with the even last digit. -/
def toDouble (n : Nat) : Nat :=
  let scale := Nat.pow 2 (n.log2 + 1 - 53)
  roundDiv n scale * scale

/-- The units. -/
inductive Unit where
  | byte
  | kibi
  | mebi
  | gibi
deriving DecidableEq, Repr

/-- The symbol of a unit. -/
def Unit.symbol : Unit → String
  | byte => "B"
  | kibi => "KiB"
  | mebi => "MiB"
  | gibi => "GiB"

/-- The number of bytes in a unit. -/
def Unit.bytes : Unit → Nat
  | byte => 1
  | kibi => 1024
  | mebi => 1048576
  | gibi => 1073741824

/-- The unit that a size is shown in. -/
def unitOf (n : Nat) : Unit :=
  if n / Unit.byte.bytes < 1000 then .byte
  else if n / Unit.kibi.bytes < 1000 then .kibi
  else if n / Unit.mebi.bytes < 1000 then .mebi
  else .gibi

/-- The number of thousandths of its unit that a size is shown as. -/
def thousandths (n : Nat) : Nat :=
  roundDiv (toDouble n * 1000) (unitOf n).bytes

/-- The text of a size. -/
def text (n : Nat) : String :=
  let t := thousandths n
  toString (t / 1000) ++ "." ++ String.ofList (zeroPadded 3 (t % 1000)) ++ " " ++
    (unitOf n).symbol

end ByteSize

end AtomicSet
