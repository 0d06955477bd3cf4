/-!
# Ranges of characters

A property of characters as a list of ranges. The tables in the modules for
single properties are those of Unicode 17.0.
-/

namespace CommandScript.Text

/-- Whether a character lies in one of the ranges, which have their ends
included. -/
def inRanges (ranges : List (Nat × Nat)) (c : Char) : Bool :=
  ranges.any fun (first, last) => first ≤ c.toNat && c.toNat ≤ last

end CommandScript.Text
