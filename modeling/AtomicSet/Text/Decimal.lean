/-!
# Fixed-point decimals

## Main definitions

* `roundDiv` — a quotient rounded to the nearest whole number, a half going to the even one.
* `zeroPadded` — digits with leading zeros up to a width.
* `trimZeros` — digits without their trailing zeros.
-/

namespace AtomicSet

/-- The whole number nearest to `num / den`; of two equally near ones, the even one. -/
def roundDiv (num den : Nat) : Nat :=
  let q := num / den
  let twice := 2 * (num % den)
  if twice < den then q
  else if den < twice then q + 1
  else if q % 2 = 0 then q else q + 1

/-- The digits of `n`, with leading zeros so that there are at least `width`. -/
def zeroPadded (width n : Nat) : List Char :=
  let digits := Nat.toDigits 10 n
  List.replicate (width - digits.length) '0' ++ digits

/-- The digits without the zeros at their end. -/
def trimZeros (digits : List Char) : List Char :=
  (digits.reverse.dropWhile fun c => c = '0').reverse

end AtomicSet
