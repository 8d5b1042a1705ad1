import Rv32Assembler.Directive
import Rv32Assembler.Memory.Layout
/-!
# Cursors

Where the next instruction and the next data item of each segment go. The addresses carry over from
one file to the next; the choice of a segment and automatic alignment do not.
-/

namespace Rv32Assembler

structure Segment where
  isData : Bool
  isKernel : Bool
  deriving DecidableEq, Repr

structure Cursors where
  text : Address
  data : Address
  kernelText : Address
  kernelData : Address
  /-- The next free address for external data. -/
  external : Address
  segment : Segment := ⟨false, false⟩
  /-- Numeric data is put at multiples of its size. -/
  autoAlign : Bool := true
  /-- The last data directive, which continuation lines repeat. -/
  directive : Option Directive := none
  deriving DecidableEq, Repr

/-- The least multiple of a positive number that is not below an address, modulo two to the 32. -/
def alignUp (a : Address) (multiple : Nat) : Address :=
  if a.toNat % multiple = 0 then a else a + BitVec.ofNat 32 (multiple - a.toNat % multiple)

namespace Cursors

def ofLayout (l : Layout) : Cursors where
  text := l.textBase
  data := l.dataBase
  kernelText := l.kernelTextBase
  kernelData := l.kernelDataBase
  external := l.externBase

def startFile (c : Cursors) : Cursors := { c with segment := ⟨false, false⟩, autoAlign := true }

def get (c : Cursors) (s : Segment) : Address :=
  match s.isData, s.isKernel with
  | false, false => c.text
  | false, true => c.kernelText
  | true, false => c.data
  | true, true => c.kernelData

def set (c : Cursors) (s : Segment) (a : Address) : Cursors :=
  match s.isData, s.isKernel with
  | false, false => { c with text := a }
  | false, true => { c with kernelText := a }
  | true, false => { c with data := a }
  | true, true => { c with kernelData := a }

def textSegment (c : Cursors) : Segment := ⟨false, c.segment.isKernel⟩

def dataSegment (c : Cursors) : Segment := ⟨true, c.segment.isKernel⟩

def here (c : Cursors) : Address := c.get c.segment

end Cursors

end Rv32Assembler
