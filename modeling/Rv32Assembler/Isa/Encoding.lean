import Rv32Assembler.Text.Basic
/-!
# Machine encodings

An encoding lays fixed fields and operand values out in a machine word: in one of the instruction
formats of RV32, or as a function of its own says. Registers come as numbers, labels as addresses or,
in branches and jumps, as offsets.
-/

namespace Rv32Assembler

abbrev Word := BitVec 32

inductive Encoding.Error where
  /-- There are fewer operands than the format has. -/
  | missingOperand
  | immediateRange (value : Int)
  | offsetRange (value : Int)
  | shiftRange (value : Int)
  | branchRange (value : Int)
  | jumpRange (value : Int)
  | upperRange (value : Int)
  | refused (reason : Text)
  deriving DecidableEq, Repr

/-- Where the fields of a machine word come from. -/
inductive Encoding where
  /-- `op rd, rs1, rs2`. -/
  | register (funct7 : BitVec 7) (funct3 : BitVec 3)
  /-- `op rd, rs1, imm`. -/
  | immediate (opcode : BitVec 7) (funct3 : BitVec 3)
  /-- `op rd, imm(rs1)`. -/
  | load (funct3 : BitVec 3)
  /-- `op rd, rs1, amount`. -/
  | shift (funct7 : BitVec 7) (funct3 : BitVec 3)
  /-- `op rs2, imm(rs1)`. -/
  | store (funct3 : BitVec 3)
  /-- `op rs1, rs2, offset`. -/
  | branch (funct3 : BitVec 3)
  /-- `op rd, imm`, the immediate being the upper twenty bits. -/
  | upper (opcode : BitVec 7)
  /-- `op rd, offset`. -/
  | jump
  /-- A word without operands. -/
  | fixed (word : Word)
  /-- No operands can be encoded, for the reason given. -/
  | refused (reason : Text)
  /-- A format of another kind. -/
  | custom (encode : List Int → Except Encoding.Error Word)

namespace Encoding

namespace Opcode

def load : BitVec 7 := 0x03
def fence : BitVec 7 := 0x0f
def immediate : BitVec 7 := 0x13
def auipc : BitVec 7 := 0x17
def store : BitVec 7 := 0x23
def register : BitVec 7 := 0x33
def lui : BitVec 7 := 0x37
def branch : BitVec 7 := 0x63
def jalr : BitVec 7 := 0x67
def jal : BitVec 7 := 0x6f
def system : BitVec 7 := 0x73

end Opcode

def Error.message : Error → Text
  | missingOperand => "missing operand"
  | immediateRange v => "immediate " ++ Text.decimal v ++ " does not fit in 12 signed bits"
  | offsetRange v => "offset " ++ Text.decimal v ++ " does not fit in 12 signed bits"
  | shiftRange v => "shift amount " ++ Text.decimal v ++ " out of range 0..31"
  | branchRange v => "branch offset " ++ Text.decimal v ++ " out of range"
  | jumpRange v => "jump offset " ++ Text.decimal v ++ " out of range"
  | upperRange v => "immediate " ++ Text.decimal v ++ " does not fit in 20 bits"
  | refused reason => reason

/-- The range of `bits + 1` signed bits. -/
def fitsSigned (bits : Nat) (v : Int) : Bool :=
  let bound : Nat := 1 <<< bits
  v < bound && -(bound : Int) ≤ v

def registerField (v : Int) : BitVec 5 := BitVec.ofInt 5 v

def packRegister (funct7 : BitVec 7) (rs2 rs1 : BitVec 5) (funct3 : BitVec 3) (rd : BitVec 5)
    (opcode : BitVec 7) : Word :=
  funct7 ++ rs2 ++ rs1 ++ funct3 ++ rd ++ opcode

def packImmediate (imm : BitVec 12) (rs1 : BitVec 5) (funct3 : BitVec 3) (rd : BitVec 5)
    (opcode : BitVec 7) : Word :=
  imm ++ rs1 ++ funct3 ++ rd ++ opcode

/-- A store: the immediate is split around the registers. -/
def packStore (imm : BitVec 12) (rs2 rs1 : BitVec 5) (funct3 : BitVec 3) : Word :=
  imm.extractLsb' 5 7 ++ rs2 ++ rs1 ++ funct3 ++ imm.extractLsb' 0 5 ++ Opcode.store

/-- A branch: the offset is even and its bits are scattered. -/
def packBranch (offset : BitVec 13) (rs2 rs1 : BitVec 5) (funct3 : BitVec 3) : Word :=
  offset.extractLsb' 12 1 ++ offset.extractLsb' 5 6 ++ rs2 ++ rs1 ++ funct3
    ++ offset.extractLsb' 1 4 ++ offset.extractLsb' 11 1 ++ Opcode.branch

/-- A word with a twenty-bit immediate. -/
def packUpper (imm : BitVec 20) (rd : BitVec 5) (opcode : BitVec 7) : Word := imm ++ rd ++ opcode

/-- A jump: the offset is even and its bits are scattered. -/
def packJump (offset : BitVec 21) (rd : BitVec 5) : Word :=
  offset.extractLsb' 20 1 ++ offset.extractLsb' 1 10 ++ offset.extractLsb' 11 1
    ++ offset.extractLsb' 12 8 ++ rd ++ Opcode.jal

/-- An instruction with a twelve-bit signed immediate. -/
def encodeImmediate (opcode : BitVec 7) (funct3 : BitVec 3) (rd rs1 imm : Int) :
    Except Error Word :=
  if fitsSigned 11 imm then
    .ok (packImmediate (BitVec.ofInt 12 imm) (registerField rs1) funct3 (registerField rd) opcode)
  else .error (.immediateRange imm)

/-- The machine word for the operand values; operands beyond those of the format do not count. -/
def encode : Encoding → List Int → Except Error Word
  | register funct7 funct3, rd :: rs1 :: rs2 :: _ =>
    .ok (packRegister funct7 (registerField rs2) (registerField rs1) funct3 (registerField rd)
      Opcode.register)
  | immediate opcode funct3, rd :: rs1 :: imm :: _ => encodeImmediate opcode funct3 rd rs1 imm
  | load funct3, rd :: imm :: rs1 :: _ => encodeImmediate Opcode.load funct3 rd rs1 imm
  | shift funct7 funct3, rd :: rs1 :: amount :: _ =>
    if 0 ≤ amount && amount ≤ 31 then
      .ok (packRegister funct7 (BitVec.ofInt 5 amount) (registerField rs1) funct3
        (registerField rd) Opcode.immediate)
    else .error (.shiftRange amount)
  | store funct3, rs2 :: imm :: rs1 :: _ =>
    if fitsSigned 11 imm then
      .ok (packStore (BitVec.ofInt 12 imm) (registerField rs2) (registerField rs1) funct3)
    else .error (.offsetRange imm)
  | branch funct3, rs1 :: rs2 :: offset :: _ =>
    if offset % 2 == 0 && fitsSigned 12 offset then
      .ok (packBranch (BitVec.ofInt 13 offset) (registerField rs2) (registerField rs1) funct3)
    else .error (.branchRange offset)
  | upper opcode, rd :: imm :: _ =>
    if -0x80000 ≤ imm && imm ≤ 0xfffff then
      .ok (packUpper (BitVec.ofInt 20 imm) (registerField rd) opcode)
    else .error (.upperRange imm)
  | jump, rd :: offset :: _ =>
    if offset % 2 == 0 && fitsSigned 20 offset then
      .ok (packJump (BitVec.ofInt 21 offset) (registerField rd))
    else .error (.jumpRange offset)
  | fixed word, _ => .ok word
  | refused reason, _ => .error (.refused reason)
  | custom encode, values => encode values
  | _, _ => .error .missingOperand

end Encoding

end Rv32Assembler
