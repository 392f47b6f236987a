namespace Formwork.Text

/-!
# Numerals

A count is written as an optional plus sign and one or more ASCII digits, and has to fit 64 bits.
Leading zeros are read, but they are not how a count is printed: a numeral is *plain* when it is
exactly the text its value prints as.
-/

/-- Counts have 64 bits: they stay below this bound. -/
def countBound : Nat := 0x10000000000000000

/-- The value of a non-empty run of ASCII digits below `countBound`. -/
def digits? (cs : List Char) : Option Nat :=
  if cs.isEmpty || !cs.all Char.isDigit then
    none
  else
    let n := Nat.ofDigitChars 10 cs 0
    if n < countBound then some n else none

/-- The count written as `s`, if it is a numeral. -/
def count? (s : String) : Option Nat :=
  match s.toList with
  | '+' :: cs => digits? cs
  | cs => digits? cs

/-- The count written as `s`, if `s` is the text that the count prints as. -/
def plainCount? (s : String) : Option Nat :=
  (count? s).filter fun n => toString n = s

example : count? "007" = some 7 := by decide
example : count? "+7" = some 7 := by decide
example : plainCount? "07" = none := by decide

end Formwork.Text
