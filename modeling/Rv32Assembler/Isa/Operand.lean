import Rv32Assembler.Isa.Instruction
import Rv32Assembler.Text.Quoted
/-!
# Operands

Which operand tokens an instruction form accepts, and which form a statement means.
-/

namespace Rv32Assembler

/-- How a token of one kind fits a place for another. -/
inductive Fit where
  | exact
  /-- The place is wider. -/
  | widen
  /-- The value is too wide for the place. -/
  | narrow
  | mismatch
  deriving DecidableEq, Repr

namespace Fit

def name : Fit → Text
  | exact => "exact"
  | widen => "widen"
  | narrow => "narrow"
  | mismatch => "mismatch"

def isOk (f : Fit) : Bool := f == exact || f == widen

end Fit

/-- Integers fit any wider place, the two spellings of registers fit each other's places, and a
mnemonic may stand where a label is asked for. -/
def Kind.fit (required provided : Kind) : Fit :=
  if required = provided then .exact
  else
    match required.integerRank?, provided.integerRank? with
    | some wide, some given => if given < wide then .widen else .narrow
    | some _, none => .mismatch
    | none, _ =>
      if required.isRegister && provided.isRegister then .widen
      else if required == .identifier && provided == .operator then .widen
      else .mismatch

/-- Why a token is no operand. -/
inductive OperandError where
  | tooFew (sample : Text)
  | tooMany (sample : Text)
  | outOfRange (operand name : Text)
  | badRegister (operand : Text)
  | badType (operand sample : Text)
  | undefinedSymbol (name : Text)
  | noValue (operand : Text)
  deriving DecidableEq, Repr

def OperandError.message : OperandError → Text
  | tooFew sample => "too few or incorrectly formatted operands. Expected: " ++ sample
  | tooMany sample => "too many or incorrectly formatted operands. Expected: " ++ sample
  | outOfRange operand name => "operand " ++ operand.quote ++ " is out of range for " ++ name
  | badRegister operand => "invalid register name " ++ operand.quote
  | badType operand sample =>
    "operand " ++ operand.quote ++ " is of incorrect type. Expected: " ++ sample
  | undefinedSymbol name => "symbol " ++ name.quote ++ " not found in symbol table"
  | noValue operand => "operand " ++ operand.quote ++ " has no value"

namespace Instruction

/-- The number and the kinds of the operands fit. -/
def accepts (i : Instruction) (operands : List Token) : Bool :=
  i.format.length == operands.length
    && (i.format.zip operands).all fun (required, t) => (required.fit t.kind).isOk

/-- The first form that accepts the operands; the first of all when none does. -/
def select (forms : List Instruction) (operands : List Token) : Option Instruction :=
  (forms.find? fun i => i.accepts operands).or forms.head?

/-- What is wrong with a token in a place for `required`. -/
def operandError? (i : Instruction) (required : Kind) (t : Token) : Option OperandError :=
  match required.fit t.kind with
  | .exact | .widen => none
  | .narrow => some (.outOfRange t.text i.name)
  | .mismatch =>
    if required.isRegister && t.kind == .identifier then some (.badRegister t.text)
    else some (.badType t.text i.sample)

/-- The first token that does not belong, and why: the operator when operands are missing. -/
def check (i : Instruction) (operator : Token) (operands : List Token) :
    Option (Token × OperandError) :=
  if operands.length < i.format.length then some (operator, .tooFew i.sample)
  else
    match operands[i.format.length]? with
    | some t => some (t, .tooMany i.sample)
    | none =>
      (i.format.zip operands).findSome? fun (required, t) =>
        (i.operandError? required t).map fun error => (t, error)

end Instruction

end Rv32Assembler
