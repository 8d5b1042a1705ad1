/-!
# Tables of character ranges

A class of characters is given by its ranges of code points.
-/

namespace Rv32Assembler.Text

/-- Membership in a table of inclusive ranges. -/
def inRanges (table : List (Nat × Nat)) (c : Char) : Bool :=
  table.any fun (first, last) => first ≤ c.toNat && c.toNat ≤ last

end Rv32Assembler.Text
