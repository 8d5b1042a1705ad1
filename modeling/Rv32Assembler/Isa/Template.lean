import Rv32Assembler.Isa.Operand
import Rv32Assembler.Isa.Register
/-!
# Templates

A template is the text of a basic instruction with codes for the operands of the extended statement.
The digit after a code is the place of the token it draws from, the operator being token 0.

* `RG` a register in its number spelling, `VL` a value in decimal, `LAB` the text of the token;
* `LH` and `LL` the upper twenty bits and the signed lower twelve of a value;
* `PH` and `PL` the same of the value's distance from the first instruction of the expansion.
-/

namespace Rv32Assembler

/-- The upper twenty bits of a value, rounded for a signed lower part. -/
def upper20 (v : Int) : Int := (v + 0x800) / 0x1000 % 0x100000

/-- The lower twelve bits of a value as a signed number. -/
def lower12 (v : Int) : Int := v.bmod 0x1000

namespace Template

/-- What a code draws from its token. -/
inductive Code where
  | label
  | register
  | value
  | upper
  | lower
  | relativeUpper
  | relativeLower
  deriving DecidableEq, Repr

/-- A byte that stands for itself, or a code with the place of its token. -/
inductive Piece where
  | byte (b : UInt8)
  | operand (code : Code) (index : Nat)
  deriving DecidableEq, Repr

def codes : List (Text × Code) :=
  [("LAB", .label), ("RG", .register), ("VL", .value), ("LH", .upper), ("LL", .lower),
   ("PH", .relativeUpper), ("PL", .relativeLower)]

/-- The code with its digit at the start of a text, and their length. -/
def code? (s : Text) : Option (Piece × Nat) :=
  codes.findSome? fun (name, code) =>
    match s.drop name.length with
    | d :: _ =>
      if name.isPrefixOf s && 0x30 ≤ d && d ≤ 0x39 then
        some (.operand code (d.toNat - 0x30), name.length + 1)
      else none
    | [] => none

def pieces : Text → List Piece
  | [] => []
  | b :: rest =>
    match code? (b :: rest) with
    | some (piece, length) => piece :: pieces (rest.drop (length - 1))
    | none => .byte b :: pieces rest
termination_by s => s.length
decreasing_by all_goals simp; try omega

inductive Error where
  | missingOperand (template : Text) (index : Nat)
  | notRegister (text : Text)
  | operand (token : Token) (error : OperandError)
  deriving DecidableEq, Repr

def Error.message : Error → Text
  | missingOperand template index =>
    "template " ++ template.quote ++ " refers to missing operand " ++ Text.decimal index
  | notRegister text => text.quote ++ " is not a register"
  | operand _ error => error.message

/-- The value of an operand: a number, a label's address or a register's number. -/
def operandValue (registers : RegisterFile) (lookup : Text → Option Int) (t : Token) :
    Except Error Int :=
  if t.kind.isInteger then .ok t.value
  else if t.kind.isLabel then
    match lookup t.text with
    | some v => .ok v
    | none => .error (.operand t (.undefinedSymbol t.text))
  else if t.kind.isRegister then .ok ((registers.ofText? t.text).getD 0)
  else .error (.operand t (.noValue t.text))

/-- The signed distance of a value from an address, modulo two to the 32. -/
def distance (v : Int) (pc : Word) : Int := (BitVec.ofInt 32 v - pc).toInt

/-- The text that a code draws from its token. -/
def drawn (registers : RegisterFile) (pc : Word) (lookup : Text → Option Int) (code : Code)
    (t : Token) : Except Error Text :=
  let number (f : Int → Int) := (operandValue registers lookup t).map fun v => Text.decimal (f v)
  match code with
  | .label => .ok t.text
  | .register =>
    match registers.ofText? t.text with
    | some n => .ok (RegisterFile.spelling n)
    | none => .error (.notRegister t.text)
  | .value => number id
  | .upper => number upper20
  | .lower => number lower12
  | .relativeUpper => number fun v => upper20 (distance v pc)
  | .relativeLower => number fun v => lower12 (distance v pc)

/-- Fills in a template from the tokens of an extended statement whose expansion starts at `pc`. -/
def fill (template : Text) (tokens : List Token) (pc : Word) (lookup : Text → Option Int)
    (registers : RegisterFile := .rv32) : Except Error Text := do
  let texts ← (pieces template).mapM fun
    | .byte b => .ok [b]
    | .operand code index =>
      match tokens[index]? with
      | some t => drawn registers pc lookup code t
      | none => .error (.missingOperand template index)
  return texts.flatten

end Template

end Rv32Assembler
