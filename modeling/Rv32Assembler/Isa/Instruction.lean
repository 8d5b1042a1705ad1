import Rv32Assembler.Isa.Encoding
import Rv32Assembler.Token.Basic
/-!
# Instructions

One operand form of a mnemonic. A basic form is one machine word; an extended form stands for as
many basic instructions as it has templates.
-/

namespace Rv32Assembler

/-- What a form becomes. -/
inductive Meaning where
  /-- `relative` says that a label operand is encoded as an offset from the instruction. -/
  | basic (relative : Bool) (encoding : Encoding)
  | extended (templates : List Text)

/-- One operand form of a mnemonic. -/
structure Instruction where
  name : Text
  /-- A sample statement. -/
  sample : Text
  description : Text
  /-- The kinds of the operand tokens. -/
  format : List Kind
  meaning : Meaning

namespace Instruction

def isExtended (i : Instruction) : Bool :=
  match i.meaning with
  | .basic .. => false
  | .extended _ => true

def wordCount (i : Instruction) : Nat :=
  match i.meaning with
  | .basic .. => 1
  | .extended templates => templates.length

def size (i : Instruction) : Nat := 4 * i.wordCount

end Instruction

end Rv32Assembler
