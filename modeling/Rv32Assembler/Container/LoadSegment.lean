import Rv32Assembler.Memory.Image
/-!
# Load segments

What the containers hold: the written part of each segment of an image as one contiguous run of
bytes.
-/

namespace Rv32Assembler

/-- A contiguous run of an image. -/
structure LoadSegment where
  name : Text
  address : Address
  data : List UInt8
  executable : Bool
  deriving DecidableEq, Repr

namespace LoadSegment

variable {σ : Type}

/-- The written part of a range, from its first to its last written byte. -/
def ofRange? (m : Image σ) (r : SegmentRange) : Option LoadSegment :=
  (m.extent r.first r.last).map fun (first, stop) =>
    ⟨r.name, first, m.slice first stop, r.executable⟩

/-- The written parts of the segments in their usual order. -/
def ofImage (m : Image σ) : List LoadSegment := m.layout.ranges.filterMap (ofRange? m)

end LoadSegment

end Rv32Assembler
