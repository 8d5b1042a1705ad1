import Rv32Assembler.Isa.Instruction
import Rv32Assembler.Symbol
import Rv32Assembler.Text.Blank
/-!
# Statements

The first pass finds the form and the address of each statement; the second turns it into machine
statements, each with its operands' values, its machine word and its basic text.
-/

namespace Rv32Assembler

structure Statement where
  /-- The source line, absent from all but the first instruction of an expansion. -/
  source : Option SourceLine
  /-- The place of the file among those assembled. -/
  unit : Nat
  /-- The line's tokens as written. -/
  tokenLine : TokenLine
  /-- The line that the tokens of the instruction were read from. -/
  line : SourceLine
  /-- The mnemonic. -/
  operator : Token
  operands : List Token
  address : Address
  instruction : Instruction
  /-- Names the expansion that the statement comes from. -/
  note : Text

namespace Statement

def tokens (s : Statement) : List Token := s.operator :: s.operands

def location (s : Statement) : Text := s.line.file ++ ":" ++ Text.decimal s.line.line

end Statement

/-- A basic statement with its machine word. -/
structure MachineStatement extends Statement where
  code : Word
  values : List Int
  basicText : Text

namespace MachineStatement

/-- The text padded with blanks to a number of characters. -/
def padEnd (width : Nat) (s : Text) : Text := s ++ List.replicate (width - s.glyphs.length) 0x20

def listing (s : MachineStatement) : Text :=
  let fixed := Text.word s.address ++ "  " ++ Text.word s.code ++ "  " ++ padEnd 24 s.basicText
  let line :=
    match s.source with
    | some l => fixed ++ "  " ++ Text.padStart 4 0x20 (Text.decimal l.line) ++ ": " ++ l.text.trim
    | none => fixed
  line.trimEnd fun b => b == 0x20

end MachineStatement

end Rv32Assembler
