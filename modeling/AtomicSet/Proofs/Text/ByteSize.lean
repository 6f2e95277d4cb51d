import AtomicSet.Proofs.Text.Rounding
import Mathlib.Algebra.Order.Field.Rat
import Mathlib.Data.List.Basic
import Mathlib.Tactic.Linarith
import Mathlib.Tactic.NormNum
import Mathlib.Tactic.Ring

/-!
# What the text of a size shows

The text of a size is read as a number with three decimals times a unit. The quantity that is read
is near the size, and of two sizes the greater one never shows less. Within a unit this is because
rounding keeps the order. Where the unit changes it is a matter of the numbers: just below the
change at most 1000.000 of the smaller unit is shown, from the change on at least 0.977 of the
greater one, and that is more.

## Main definitions

* `ByteSize.Reading`, `ByteSize.read?` — what a text shows, and how it is read.
* `ByteSize.Shows` — what a text has to show of a size.

## Main results

* `ByteSize.read?_text` — the text of a size can be read.
* `ByteSize.shown_mono` — sizes are shown in order.
* `ByteSize.shows_in_order` — sizes are shown accurately and in order.
-/

namespace AtomicSet

/-! ### Digits -/

variable {n m width : Nat}

/-- A padded number is all digits. -/
theorem isDigit_of_mem_zeroPadded {c : Char} (hc : c ∈ zeroPadded width n) : c.isDigit := by
  rcases List.mem_append.mp hc with hc | hc
  · rw [List.eq_of_mem_replicate hc]
    rfl
  · exact Nat.isDigit_of_mem_toDigits (by decide) (by decide) hc

/-- A number that is short enough is padded to the width. -/
theorem length_zeroPadded (hwidth : 0 < width) (h : n < 10 ^ width) :
    (zeroPadded width n).length = width := by
  have hle : (Nat.toDigits 10 n).length ≤ width :=
    (Nat.length_toDigits_le_iff (by decide) hwidth).mpr h
  simp only [zeroPadded, List.length_append, List.length_replicate]
  omega

/-- Zeros in front do not change a number. -/
theorem ofDigitChars_zeroPadded (width n : Nat) :
    Nat.ofDigitChars 10 (zeroPadded width n) 0 = n := by
  rw [zeroPadded, Nat.ofDigitChars_append, Nat.ofDigitChars_replicate_zero, Nat.mul_zero,
    Nat.ofDigitChars_ten_toDigits]

namespace ByteSize

/-! ### Reading a size -/

/-- What a text shows: a number with three decimals, and a unit. -/
structure Reading where
  whole : Nat
  /-- The decimals, as a number of thousandths. -/
  decimals : Nat
  unit : Unit
deriving DecidableEq, Repr

/-- The quantity that a text shows, in bytes. -/
def Reading.quantity (r : Reading) : ℚ :=
  (r.whole + r.decimals / 1000) * r.unit.bytes

/-- The unit that a symbol stands for. -/
def Unit.ofSymbol? (symbol : String) : Option Unit :=
  [byte, kibi, mebi, gibi].find? fun u => u.symbol = symbol

/-- Reads digits, a point, three digits, a blank and the symbol of a unit. -/
def read? (text : String) : Option Reading :=
  let whole := text.toList.takeWhile Char.isDigit
  match text.toList.dropWhile Char.isDigit with
  | '.' :: a :: b :: c :: ' ' :: symbol =>
    if whole ≠ [] ∧ [a, b, c].all Char.isDigit then
      (Unit.ofSymbol? (String.ofList symbol)).map fun unit =>
        ⟨Nat.ofDigitChars 10 whole 0, Nat.ofDigitChars 10 [a, b, c] 0, unit⟩
    else none
  | _ => none

/-- The symbol of a unit tells the unit. -/
theorem ofSymbol?_symbol (u : Unit) : Unit.ofSymbol? u.symbol = some u := by
  cases u <;> decide

/-- **The text of a size can be read.** -/
theorem read?_text (n : Nat) :
    read? (text n) = some ⟨thousandths n / 1000, thousandths n % 1000, unitOf n⟩ := by
  -- The reader looks at three single digits, so the padded decimals are taken apart first.
  have hlength : (zeroPadded 3 (thousandths n % 1000)).length = 3 :=
    length_zeroPadded (by decide) (Nat.mod_lt _ (by decide))
  obtain ⟨a, b, c, habc⟩ := List.length_eq_three.mp hlength
  have hdigits : ∀ x ∈ Nat.toDigits 10 (thousandths n / 1000), x.isDigit := fun x hx =>
    Nat.isDigit_of_mem_toDigits (by decide) (by decide) hx
  have hdecimals : [a, b, c].all Char.isDigit := by
    rw [← habc, List.all_eq_true]
    exact fun x hx => isDigit_of_mem_zeroPadded hx
  have htext : (text n).toList = Nat.toDigits 10 (thousandths n / 1000) ++
      '.' :: a :: b :: c :: ' ' :: (unitOf n).symbol.toList := by
    simp [text, habc, Nat.toString_eq_repr, Nat.toList_repr]
  have htake : (text n).toList.takeWhile Char.isDigit =
      Nat.toDigits 10 (thousandths n / 1000) := by
    rw [htext, List.takeWhile_append_of_pos hdigits, List.takeWhile_cons_of_neg (by decide),
      List.append_nil]
  have hdrop : (text n).toList.dropWhile Char.isDigit =
      '.' :: a :: b :: c :: ' ' :: (unitOf n).symbol.toList := by
    rw [htext, List.dropWhile_append_of_pos hdigits, List.dropWhile_cons_of_neg (by decide)]
  calc read? (text n)
      = (Unit.ofSymbol? (String.ofList (unitOf n).symbol.toList)).map fun unit =>
          ⟨Nat.ofDigitChars 10 (Nat.toDigits 10 (thousandths n / 1000)) 0,
            Nat.ofDigitChars 10 [a, b, c] 0, unit⟩ := by
        rw [read?, htake, hdrop]
        exact if_pos ⟨Nat.toDigits_ne_nil, hdecimals⟩
    _ = some ⟨thousandths n / 1000, thousandths n % 1000, unitOf n⟩ := by
        rw [String.ofList_toList, ofSymbol?_symbol, ← habc, ofDigitChars_zeroPadded,
          Nat.ofDigitChars_ten_toDigits, Option.map_some]

/-! ### The unit -/

/-- A unit is at least one byte. -/
theorem bytes_pos (u : Unit) : 0 < u.bytes := by
  cases u <;> decide

/-- Where the unit changes. -/
theorem unitOf_cases (n : Nat) :
    (unitOf n = .byte ∧ n < 1000) ∨
    (unitOf n = .kibi ∧ 1000 ≤ n ∧ n < 1000 * 1024) ∨
    (unitOf n = .mebi ∧ 1000 * 1024 ≤ n ∧ n < 1000 * 1048576) ∨
    (unitOf n = .gibi ∧ 1000 * 1048576 ≤ n) := by
  rw [unitOf]
  by_cases hbyte : n / Unit.byte.bytes < 1000
  · rw [if_pos hbyte]
    simp only [Unit.bytes] at hbyte
    exact Or.inl ⟨rfl, by omega⟩
  rw [if_neg hbyte]
  by_cases hkibi : n / Unit.kibi.bytes < 1000
  · rw [if_pos hkibi]
    simp only [Unit.bytes] at hbyte hkibi
    exact Or.inr (Or.inl ⟨rfl, by omega, by omega⟩)
  rw [if_neg hkibi]
  by_cases hmebi : n / Unit.mebi.bytes < 1000
  · rw [if_pos hmebi]
    simp only [Unit.bytes] at hkibi hmebi
    exact Or.inr (Or.inr (Or.inl ⟨rfl, by omega, by omega⟩))
  · rw [if_neg hmebi]
    simp only [Unit.bytes] at hmebi
    exact Or.inr (Or.inr (Or.inr ⟨rfl, by omega⟩))

/-- Less than a thousand of the unit is to be shown, unless there is no greater one. -/
theorem lt_of_unitOf_ne_gibi (h : unitOf n ≠ .gibi) : n < 1000 * (unitOf n).bytes := by
  rcases unitOf_cases n with ⟨hunit, hn⟩ | ⟨hunit, hn⟩ | ⟨hunit, hn⟩ | ⟨hunit, -⟩
  · rwa [hunit]
  · rw [hunit]
    exact hn.2
  · rw [hunit]
    exact hn.2
  · exact absurd hunit h

/-- At least a thousand of the next smaller unit is to be shown, unless there is none. -/
theorem exists_smaller (h : unitOf n ≠ .byte) :
    ∃ u : Unit, (unitOf n).bytes = 1024 * u.bytes ∧ 1000 * u.bytes ≤ n := by
  rcases unitOf_cases n with ⟨hunit, -⟩ | ⟨hunit, hn, -⟩ | ⟨hunit, hn, -⟩ | ⟨hunit, hn⟩
  · exact absurd hunit h
  · exact ⟨.byte, by rw [hunit]; rfl, hn⟩
  · exact ⟨.kibi, by rw [hunit]; rfl, hn⟩
  · exact ⟨.mebi, by rw [hunit]; rfl, hn⟩

/-- A greater size is shown in the same unit, or in one that is at least the next greater. -/
theorem unitOf_mono (h : n ≤ m) : unitOf n = unitOf m ∨
    unitOf n ≠ .gibi ∧ unitOf m ≠ .byte ∧ 1024 * (unitOf n).bytes ≤ (unitOf m).bytes := by
  rcases unitOf_cases n with ⟨hn, _⟩ | ⟨hn, _⟩ | ⟨hn, _⟩ | ⟨hn, _⟩ <;>
    rcases unitOf_cases m with ⟨hm, _⟩ | ⟨hm, _⟩ | ⟨hm, _⟩ | ⟨hm, _⟩ <;>
    first
    | omega
    | (rw [hn, hm]; decide)

/-! ### The quantity -/

/-- What the text of a size shows. -/
def reading (n : Nat) : Reading :=
  ⟨thousandths n / 1000, thousandths n % 1000, unitOf n⟩

/-- What is read from the text is the number of thousandths that was printed. -/
theorem quantity_reading (n : Nat) :
    (reading n).quantity * 1000 = (thousandths n * (unitOf n).bytes : Nat) := by
  have hsplit : ((1000 * (thousandths n / 1000) + thousandths n % 1000 : Nat) : ℚ) =
      thousandths n := by
    rw [Nat.div_add_mod]
  push_cast at hsplit ⊢
  rw [← hsplit, Reading.quantity, reading]
  ring

/-- A thousand of a unit has less than 53 binary digits. -/
theorem toDouble_thousand (u : Unit) : toDouble (1000 * u.bytes) = 1000 * u.bytes :=
  toDouble_eq_self (by cases u <;> decide)

/-- At most 1000.000 of a unit is shown, unless there is no greater one. -/
theorem thousandths_le (h : unitOf n ≠ .gibi) : thousandths n ≤ 1000 * 1000 := by
  have hle : toDouble n ≤ 1000 * (unitOf n).bytes := by
    rw [← toDouble_thousand]
    exact toDouble_mono (Nat.le_of_lt (lt_of_unitOf_ne_gibi h))
  refine roundDiv_le (bytes_pos _) ?_
  omega

/-- At least 0.977 of a unit is shown, unless there is no smaller one. -/
theorem le_thousandths (h : unitOf n ≠ .byte) : 977 ≤ thousandths n := by
  obtain ⟨u, hbytes, hu⟩ := exists_smaller h
  have hle : 1000 * u.bytes ≤ toDouble n := by
    rw [← toDouble_thousand]
    exact toDouble_mono hu
  -- With 976 thousandths the error would be more than a half.
  by_contra hlt
  have hshown : thousandths n * (unitOf n).bytes ≤ 976 * (unitOf n).bytes :=
    Nat.mul_le_mul_right _ (by omega)
  have hnear := (roundDiv_near (toDouble n * 1000) (bytes_pos (unitOf n))).2
  have hpos := bytes_pos u
  rw [thousandths] at hshown
  omega

/-- **Sizes are shown in order.** -/
theorem shown_mono (h : n ≤ m) :
    thousandths n * (unitOf n).bytes ≤ thousandths m * (unitOf m).bytes := by
  rcases unitOf_mono h with heq | ⟨hn, hm, hbytes⟩
  · rw [thousandths, thousandths, heq]
    exact Nat.mul_le_mul_right _
      (roundDiv_mono (Nat.mul_le_mul_right 1000 (toDouble_mono h)) (bytes_pos _))
  · calc thousandths n * (unitOf n).bytes
        ≤ 1000 * 1000 * (unitOf n).bytes := Nat.mul_le_mul_right _ (thousandths_le hn)
      _ ≤ 977 * (1024 * (unitOf n).bytes) := by omega
      _ ≤ 977 * (unitOf m).bytes := Nat.mul_le_mul_left 977 hbytes
      _ ≤ thousandths m * (unitOf m).bytes := Nat.mul_le_mul_right _ (le_thousandths hm)

/-- More bytes are never read as fewer. -/
theorem quantity_mono (h : n ≤ m) : (reading n).quantity ≤ (reading m).quantity := by
  have hle : ((thousandths n * (unitOf n).bytes : Nat) : ℚ) ≤
      (thousandths m * (unitOf m).bytes : Nat) := Nat.cast_le.mpr (shown_mono h)
  rw [← quantity_reading, ← quantity_reading] at hle
  linarith

/-- The last decimal is off by at most a half. -/
theorem quantity_near (n : Nat) :
    |(reading n).quantity - toDouble n| ≤ ((unitOf n).bytes : ℚ) / 2000 := by
  obtain ⟨hle, hge⟩ := roundDiv_near (toDouble n * 1000) (bytes_pos (unitOf n))
  have hshown := quantity_reading n
  rw [thousandths] at hshown
  generalize roundDiv (toDouble n * 1000) (unitOf n).bytes * (unitOf n).bytes = shown at *
  have hle' : (2 * shown : ℚ) ≤ 2 * (toDouble n * 1000) + (unitOf n).bytes := by exact_mod_cast hle
  have hge' : (2 * (toDouble n * 1000) : ℚ) ≤ 2 * shown + (unitOf n).bytes := by exact_mod_cast hge
  rw [abs_le]
  constructor <;> linarith

/-- A number is kept up to `2 ^ 53`, and is off by at most 1024 above it. -/
theorem toDouble_sub_le (h : n < 2 ^ 64) :
    |(toDouble n : ℚ) - n| ≤ if 2 ^ 53 < n then 1024 else 0 := by
  by_cases hlarge : 2 ^ 53 < n
  · obtain ⟨hle, hge⟩ := toDouble_near h
    have hle' : (toDouble n : ℚ) ≤ n + 1024 := by exact_mod_cast hle
    have hge' : (n : ℚ) ≤ toDouble n + 1024 := by exact_mod_cast hge
    rw [if_pos hlarge, abs_le]
    constructor <;> linarith
  · rw [if_neg hlarge, toDouble_eq_self (Nat.le_of_not_lt hlarge), sub_self, abs_zero]

/-- The text shows the size `n`, and `r` is what is read. -/
structure Shows (text : String) (n : Nat) (r : Reading) : Prop where
  read_eq : read? text = some r
  /-- The quantity is off by half of the last decimal, and by what a number of 53 digits leaves
  out. -/
  near : |r.quantity - n| ≤ (r.unit.bytes : ℚ) / 2000 + if 2 ^ 53 < n then 1024 else 0
  /-- The size is less than a thousand of the unit, if there is a greater one. -/
  lt_of_ne_gibi : r.unit ≠ .gibi → n < 1000 * r.unit.bytes
  /-- The size is at least a thousand of the next smaller unit, if there is one. -/
  le_of_ne_byte : r.unit ≠ .byte → ∃ u : Unit, r.unit.bytes = 1024 * u.bytes ∧ 1000 * u.bytes ≤ n

/-- The text of a number of bytes shows it. -/
theorem shows_text (h : n < 2 ^ 64) : Shows (text n) n (reading n) where
  read_eq := read?_text n
  near := calc |(reading n).quantity - n|
      ≤ |(reading n).quantity - toDouble n| + |(toDouble n : ℚ) - n| := abs_sub_le _ _ _
    _ ≤ _ := add_le_add (quantity_near n) (toDouble_sub_le h)
  lt_of_ne_gibi := lt_of_unitOf_ne_gibi
  le_of_ne_byte := exists_smaller

/-- **Sizes are shown accurately and in order**: the text of each can be read, what is read is near
the size, and what is read of the greater one is not less, also where the unit changes. -/
theorem shows_in_order (hle : n ≤ m) (hm : m < 2 ^ 64) :
    ∃ a b, Shows (text n) n a ∧ Shows (text m) m b ∧ a.quantity ≤ b.quantity :=
  ⟨_, _, shows_text (Nat.lt_of_le_of_lt hle hm), shows_text hm, quantity_mono hle⟩

/-- The last size that is shown in mebibytes, rounded up to a thousand of them, and the first that
is shown in gibibytes. -/
theorem shows_in_order_switch :
    1048575999 ≤ 1048576000 ∧ 1048576000 < 2 ^ 64 ∧
    text 1048575999 = "1000.000 MiB" ∧ text 1048576000 = "0.977 GiB" ∧
    Shows "1000.000 MiB" 1048575999 ⟨1000, 0, .mebi⟩ ∧
    Shows "0.977 GiB" 1048576000 ⟨0, 977, .gibi⟩ ∧
    (⟨1000, 0, .mebi⟩ : Reading).quantity ≤ (⟨0, 977, .gibi⟩ : Reading).quantity := by
  have htext : text 1048575999 = "1000.000 MiB" := by decide
  have htext' : text 1048576000 = "0.977 GiB" := by decide
  obtain ⟨a, b, ha, hb, hquantity⟩ :=
    shows_in_order (n := 1048575999) (m := 1048576000) (by decide) (by decide)
  rw [htext] at ha
  rw [htext'] at hb
  obtain rfl : a = ⟨1000, 0, .mebi⟩ := Option.some.inj (ha.read_eq.symm.trans (by decide))
  obtain rfl : b = ⟨0, 977, .gibi⟩ := Option.some.inj (hb.read_eq.symm.trans (by decide))
  exact ⟨by decide, by decide, htext, htext', ha, hb, hquantity⟩

end ByteSize

end AtomicSet
