/-!
# Little-endian bytes

The bytes of a number from the lowest to the highest, and the number they stand for.
-/

namespace Rv32Assembler

/-- Byte `i` of a number in two's complement, the lowest being byte 0. -/
def byteOf (v : Int) (i : Nat) : UInt8 := UInt8.ofNat ((v >>> (8 * i)) % 256).toNat

/-- The lowest bytes of a number. -/
def littleEndian (width : Nat) (v : Int) : List UInt8 := (List.range width).map (byteOf v)

@[simp]
theorem length_littleEndian (width : Nat) (v : Int) : (littleEndian width v).length = width := by
  simp [littleEndian]

def ofLittleEndian : List UInt8 → Nat
  | [] => 0
  | b :: rest => b.toNat + 256 * ofLittleEndian rest

end Rv32Assembler
