import Rv32Assembler.Isa.Registry
/-!
# RV32IM

The base integer instruction set with multiplication and division, and the pseudo-instructions made
from them. Basic forms come first, so that they win over the pseudo forms of their mnemonics.
-/

namespace Rv32Assembler.Rv32im

open Kind (registerName identifier integer5 integer12 integer20 integer32 leftParen rightParen)

def register3 (name description : Text) (funct7 : BitVec 7) (funct3 : BitVec 3) : Instruction :=
  ⟨name, name ++ " t1,t2,t3", description, [registerName, registerName, registerName],
   .basic false (.register funct7 funct3)⟩

def immediate (name description : Text) (opcode : BitVec 7) (funct3 : BitVec 3) : Instruction :=
  ⟨name, name ++ " t1,t2,-100", description, [registerName, registerName, integer12],
   .basic false (.immediate opcode funct3)⟩

def arithmetic (name description : Text) (funct3 : BitVec 3) : Instruction :=
  immediate name description Encoding.Opcode.immediate funct3

def shift (name description : Text) (funct7 : BitVec 7) (funct3 : BitVec 3) : Instruction :=
  ⟨name, name ++ " t1,t2,10", description, [registerName, registerName, integer5],
   .basic false (.shift funct7 funct3)⟩

/-- The operands `t1,-100(t2)`. -/
def indexed : List Kind := [registerName, integer12, leftParen, registerName, rightParen]

def load (name description : Text) (funct3 : BitVec 3) : Instruction :=
  ⟨name, name ++ " t1,-100(t2)", description, indexed, .basic false (.load funct3)⟩

def store (name description : Text) (funct3 : BitVec 3) : Instruction :=
  ⟨name, name ++ " t1,-100(t2)", description, indexed, .basic false (.store funct3)⟩

def branch (name description : Text) (funct3 : BitVec 3) : Instruction :=
  ⟨name, name ++ " t1,t2,label", description, [registerName, registerName, identifier],
   .basic true (.branch funct3)⟩

def upper (name description : Text) (opcode : BitVec 7) : Instruction :=
  ⟨name, name ++ " t1,100000", description, [registerName, integer20], .basic false (.upper opcode)⟩

def plain (name description : Text) (word : Word) : Instruction :=
  ⟨name, name, description, [], .basic false (.fixed word)⟩

/-- The forms with a machine encoding. -/
def basic : List Instruction :=
  [register3 "add" "Addition: set t1 to (t2 plus t3)" 0x00 0,
   register3 "sub" "Subtraction: set t1 to (t2 minus t3)" 0x20 0,
   register3 "sll" "Shift left logical by the low 5 bits of t3" 0x00 1,
   register3 "slt" "Set t1 to 1 if t2 < t3 (signed), else 0" 0x00 2,
   register3 "sltu" "Set t1 to 1 if t2 < t3 (unsigned), else 0" 0x00 3,
   register3 "xor" "Bitwise XOR" 0x00 4,
   register3 "srl" "Shift right logical by the low 5 bits of t3" 0x00 5,
   register3 "sra" "Shift right arithmetic by the low 5 bits of t3" 0x20 5,
   register3 "or" "Bitwise OR" 0x00 6,
   register3 "and" "Bitwise AND" 0x00 7,
   register3 "mul" "Multiplication: low 32 bits of t2 * t3" 0x01 0,
   register3 "mulh" "High 32 bits of signed t2 * t3" 0x01 1,
   register3 "mulhsu" "High 32 bits of signed t2 * unsigned t3" 0x01 2,
   register3 "mulhu" "High 32 bits of unsigned t2 * t3" 0x01 3,
   register3 "div" "Signed division" 0x01 4,
   register3 "divu" "Unsigned division" 0x01 5,
   register3 "rem" "Signed remainder" 0x01 6,
   register3 "remu" "Unsigned remainder" 0x01 7,
   arithmetic "addi" "Addition immediate: set t1 to (t2 plus 12-bit immediate)" 0,
   arithmetic "slti" "Set t1 to 1 if t2 < immediate (signed)" 2,
   arithmetic "sltiu" "Set t1 to 1 if t2 < immediate (unsigned)" 3,
   arithmetic "xori" "Bitwise XOR immediate" 4,
   arithmetic "ori" "Bitwise OR immediate" 6,
   arithmetic "andi" "Bitwise AND immediate" 7,
   shift "slli" "Shift left logical by a 5-bit amount" 0x00 1,
   shift "srli" "Shift right logical by a 5-bit amount" 0x00 5,
   shift "srai" "Shift right arithmetic by a 5-bit amount" 0x20 5,
   load "lb" "Load byte, sign extended" 0,
   load "lh" "Load halfword, sign extended" 1,
   load "lw" "Load word" 2,
   load "lbu" "Load byte, zero extended" 4,
   load "lhu" "Load halfword, zero extended" 5,
   store "sb" "Store the low byte of t1" 0,
   store "sh" "Store the low halfword of t1" 1,
   store "sw" "Store word" 2,
   branch "beq" "Branch if equal" 0,
   branch "bne" "Branch if not equal" 1,
   branch "blt" "Branch if less than (signed)" 4,
   branch "bge" "Branch if greater than or equal (signed)" 5,
   branch "bltu" "Branch if less than (unsigned)" 6,
   branch "bgeu" "Branch if greater than or equal (unsigned)" 7,
   ⟨"jal", "jal t1,target", "Jump and link: set t1 to PC+4 and jump to target",
    [registerName, identifier], .basic true .jump⟩,
   immediate "jalr" "Jump and link register: set t1 to PC+4, jump to t2 plus immediate"
     Encoding.Opcode.jalr 0,
   upper "lui" "Load upper immediate" Encoding.Opcode.lui,
   upper "auipc" "Add upper immediate to PC" Encoding.Opcode.auipc,
   plain "ecall" "Issue a system call" 0x00000073,
   plain "ebreak" "Pause execution" 0x00100073,
   plain "fence" "Order all memory accesses" 0x0ff0000f]

/-- A pseudo-instruction: its mnemonic, its sample operands with their kinds, and its templates. -/
def pseudo (name operands description : Text) (format : List Kind) (templates : List Text) :
    Instruction :=
  ⟨name, if operands.isEmpty then name else name ++ " " ++ operands, description, format,
   .extended templates⟩

/-- A load from a label, and one with zero offset. -/
def loadForms (name : Text) : List Instruction :=
  [pseudo name "t1,label" "Load from label" [registerName, identifier]
     ["auipc RG1, PH2", name ++ " RG1, PL2(RG1)"],
   pseudo name "t1,(t2)" "Load with zero offset" [registerName, leftParen, registerName, rightParen]
     [name ++ " RG1, 0(RG3)"]]

/-- A store to a label, and one with zero offset. -/
def storeForms (name : Text) : List Instruction :=
  [pseudo name "t1,label,t2" "Store to label using t2 as scratch"
     [registerName, identifier, registerName] ["auipc RG3, PH2", name ++ " RG1, PL2(RG3)"],
   pseudo name "t1,(t2)" "Store with zero offset"
     [registerName, leftParen, registerName, rightParen] [name ++ " RG1, 0(RG3)"]]

def branchZero (name description template : Text) : Instruction :=
  pseudo name "t1,label" description [registerName, identifier] [template]

def branchSwapped (name description template : Text) : Instruction :=
  pseudo name "t1,t2,label" description [registerName, registerName, identifier] [template]

def unary (name description template : Text) : Instruction :=
  pseudo name "t1,t2" description [registerName, registerName] [template]

def jump (name description : Text) (templates : List Text) : Instruction :=
  pseudo name "label" description [identifier] templates

def extended : List Instruction :=
  [pseudo "nop" [] "No operation" [] ["addi x0, x0, 0"],
   unary "mv" "Move: set t1 to t2" "add RG1, x0, RG2",
   unary "not" "Bitwise NOT" "xori RG1, RG2, -1",
   unary "neg" "Negate: set t1 to -t2" "sub RG1, x0, RG2",
   pseudo "li" "t1,-100" "Load a 12-bit immediate" [registerName, integer12]
     ["addi RG1, x0, VL2"],
   pseudo "li" "t1,1048576" "Load a 32-bit immediate" [registerName, integer32]
     ["lui RG1, LH2", "addi RG1, RG1, LL2"],
   pseudo "la" "t1,label" "Load the address of label" [registerName, identifier]
     ["auipc RG1, PH2", "addi RG1, RG1, PL2"]]
  ++ loadForms "lb" ++ loadForms "lh" ++ loadForms "lw" ++ loadForms "lbu" ++ loadForms "lhu"
  ++ storeForms "sb" ++ storeForms "sh" ++ storeForms "sw"
  ++ [jump "b" "Branch unconditionally" ["jal x0, LAB1"],
   jump "j" "Jump to label" ["jal x0, LAB1"],
   jump "jal" "Jump to label, saving the return address in ra" ["jal x1, LAB1"],
   pseudo "jr" "t1" "Jump to the address in t1" [registerName] ["jalr x0, RG1, 0"],
   pseudo "jalr" "t1" "Jump to the address in t1, saving the return address in ra" [registerName]
     ["jalr x1, RG1, 0"],
   pseudo "jalr" "t1,-100(t2)" "Jump to t2 plus offset, linking t1" indexed
     ["jalr RG1, RG4, VL2"],
   pseudo "ret" [] "Return to the address in ra" [] ["jalr x0, x1, 0"],
   jump "call" "Call a far subroutine" ["auipc x1, PH1", "jalr x1, x1, PL1"],
   jump "tail" "Tail call a far subroutine" ["auipc x6, PH1", "jalr x0, x6, PL1"],
   branchZero "beqz" "Branch if t1 is zero" "beq RG1, x0, LAB2",
   branchZero "bnez" "Branch if t1 is not zero" "bne RG1, x0, LAB2",
   branchZero "blez" "Branch if t1 <= 0" "bge x0, RG1, LAB2",
   branchZero "bgez" "Branch if t1 >= 0" "bge RG1, x0, LAB2",
   branchZero "bltz" "Branch if t1 < 0" "blt RG1, x0, LAB2",
   branchZero "bgtz" "Branch if t1 > 0" "blt x0, RG1, LAB2",
   branchSwapped "bgt" "Branch if t1 > t2 (signed)" "blt RG2, RG1, LAB3",
   branchSwapped "ble" "Branch if t1 <= t2 (signed)" "bge RG2, RG1, LAB3",
   branchSwapped "bgtu" "Branch if t1 > t2 (unsigned)" "bltu RG2, RG1, LAB3",
   branchSwapped "bleu" "Branch if t1 <= t2 (unsigned)" "bgeu RG2, RG1, LAB3",
   unary "seqz" "Set t1 to 1 if t2 is zero" "sltiu RG1, RG2, 1",
   unary "snez" "Set t1 to 1 if t2 is not zero" "sltu RG1, x0, RG2",
   unary "sltz" "Set t1 to 1 if t2 < 0" "slt RG1, RG2, x0",
   unary "sgtz" "Set t1 to 1 if t2 > 0" "slt RG1, x0, RG2"]

def registry : Registry := { registers := .rv32, forms := basic ++ extended }

@[simp]
theorem registers_registry : registry.registers = .rv32 := rfl

end Rv32Assembler.Rv32im
