namespace Formwork.Text

/-!
# Blank characters

The blank characters are those with the Unicode property `White_Space`: twenty-five code points,
in ten runs. They separate atoms, and an atom that holds one can only be written in quotes.
-/

/-- The runs of code points with the property `White_Space`, in increasing order. -/
def blankRuns : List (Nat × Nat) :=
  [(0x09, 0x0d), (0x20, 0x20), (0x85, 0x85), (0xa0, 0xa0), (0x1680, 0x1680), (0x2000, 0x200a),
    (0x2028, 0x2029), (0x202f, 0x202f), (0x205f, 0x205f), (0x3000, 0x3000)]

/-- Whether `c` is a blank character. -/
def isBlank (c : Char) : Bool :=
  blankRuns.any fun run => run.1 ≤ c.toNat && c.toNat ≤ run.2

/-- Blank characters taken off both ends. -/
def trim (cs : List Char) : List Char :=
  ((cs.dropWhile isBlank).reverse.dropWhile isBlank).reverse

example : (blankRuns.map fun run => run.2 - run.1 + 1).sum = 25 := by decide

end Formwork.Text
