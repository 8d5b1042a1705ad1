import Rv32Assembler.Symbol
/-!
# Memory layout

Where the four segments of the address space lie. External data precedes the data segment proper and
is part of it. Limits are inclusive.
-/

namespace Rv32Assembler

structure Layout where
  textBase : Address := 0x00400000
  textLimit : Address := 0x0fffffff
  externBase : Address := 0x10000000
  dataBase : Address := 0x10010000
  dataLimit : Address := 0x7fffffff
  kernelTextBase : Address := 0x80000000
  kernelTextLimit : Address := 0x8fffffff
  kernelDataBase : Address := 0x90000000
  kernelDataLimit : Address := 0xffffffff
  deriving DecidableEq, Repr

structure SegmentRange where
  name : Text
  first : Address
  last : Address
  executable : Bool
  deriving DecidableEq, Repr

def SegmentRange.contains (r : SegmentRange) (a : Address) : Bool := r.first.ule a && a.ule r.last

namespace Layout

def textRange (l : Layout) : SegmentRange := ⟨".text", l.textBase, l.textLimit, true⟩

def dataRange (l : Layout) : SegmentRange := ⟨".data", l.externBase, l.dataLimit, false⟩

def kernelTextRange (l : Layout) : SegmentRange :=
  ⟨".ktext", l.kernelTextBase, l.kernelTextLimit, true⟩

def kernelDataRange (l : Layout) : SegmentRange :=
  ⟨".kdata", l.kernelDataBase, l.kernelDataLimit, false⟩

def ranges (l : Layout) : List SegmentRange :=
  [l.textRange, l.dataRange, l.kernelTextRange, l.kernelDataRange]

def inText (l : Layout) (a : Address) : Bool :=
  l.textRange.contains a || l.kernelTextRange.contains a

def inData (l : Layout) (a : Address) : Bool :=
  l.dataRange.contains a || l.kernelDataRange.contains a

def mapped (l : Layout) (a : Address) : Bool := l.inText a || l.inData a

end Layout

end Rv32Assembler
