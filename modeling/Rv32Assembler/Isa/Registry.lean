import Rv32Assembler.Directive
import Rv32Assembler.Isa.Operand
import Rv32Assembler.Isa.Register
import Rv32Assembler.Text.Blank
import Rv32Assembler.Token.Lexer
/-!
# The instruction set

The registers, and the forms of all mnemonics in the order in which they were added; that order decides between forms
that fit equally. A form may be added from a sample statement alone: its tokens give the format.
-/

namespace Rv32Assembler

/-- The registers and the forms of an instruction set. -/
structure Registry where
  registers : RegisterFile
  forms : List Instruction := []

namespace Registry

def lookup (r : Registry) (mnemonic : Text) : List Instruction :=
  let name := mnemonic.lower
  r.forms.filter fun i => i.name == name

def isOperator (r : Registry) (word : Text) : Bool :=
  let name := word.lower
  r.forms.any fun i => i.name == name

/-- The reserved words, with or without the directives. -/
def vocabulary (r : Registry) (directives : Bool) : Vocabulary where
  isOperator := r.isOperator
  isRegisterName s := (r.registers.ofName? s).isSome
  isRegisterNumber s := (r.registers.ofSpelling? s).isSome
  isDirective s := directives && Directive.isName s

/-- Why a sample statement describes no form. -/
inductive SampleError where
  /-- It has no word, or no token. -/
  | blank
  | lexical (sample : Text) (error : LexicalError)
  deriving DecidableEq, Repr

def SampleError.message : SampleError → Text
  | blank => "blank instruction example"
  | lexical sample error =>
    "bad instruction example " ++ sample.quote ++ ": " ++ error.message

/-- Adds the form that a sample statement describes. The new mnemonic is already a reserved word
when the sample is read. -/
def add (r : Registry) (sample description : Text) (meaning : Meaning) :
    Except SampleError Registry :=
  match sample.firstField? with
  | none => .error .blank
  | some word =>
    let name := word.lower
    let known := r.vocabulary false
    let v : Vocabulary :=
      { known with isOperator := fun s => known.isOperator s || s.lower == name }
    match v.tokenize ⟨sample, [], 0⟩ with
    | (_, (_, error) :: _) => .error (.lexical sample error)
    | (line, []) =>
      match line.tokens with
      | [] => .error .blank
      | _ :: operands =>
        .ok { r with
          forms := r.forms ++ [⟨name, sample, description, operands.map Token.kind, meaning⟩] }

end Registry

end Rv32Assembler
