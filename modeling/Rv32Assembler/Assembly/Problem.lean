import Rv32Assembler.Diagnostic
import Rv32Assembler.Directive
import Rv32Assembler.Isa.Encoding
import Rv32Assembler.Isa.Template
import Rv32Assembler.Literal.Escape
import Rv32Assembler.Macro.CallStack
import Rv32Assembler.Macro.Pool
import Rv32Assembler.Memory.Image
/-!
# Problems of an assembly

What may be wrong with a source, one constructor for each kind of message.
-/

namespace Rv32Assembler

inductive Problem where
  | duplicateLabel (error : SymbolTable.DuplicateError)
  | unrecognizedDirective (text : Text)
  | ignoredDirective (text : Text)
  | directiveInText (directive : Directive)
  | includeLine
  | dataWithoutDirective
  | instructionInData (text : Text)
  | expansionLoop
  | unknownOperator (text : Text)
  | badCall (text : Text)
  | pseudoRefused (sample : Text)
  | operand (error : OperandError)
  | definition (error : Macro.Error)
  | noGlobalLabel (directive : Directive)
  | badGlobalLabel (text : Text) (directive : Directive)
  | undefinedGlobal (name : Text)
  | duplicateGlobal (name : Text)
  | segmentOperands (text : Text)
  | sectionOperands
  | ignoredSection (name : Text)
  | alignOperands
  | alignRange (exponent : Int)
  | alignRounded (exponent : Int)
  | spaceOperands
  | externalOperands
  | loneSign (text : Text)
  | badCount (text : Text)
  | truncated (value stored : Int)
  | badInteger (text : Text) (directive : Directive)
  | badReal (text : Text) (directive : Directive)
  | realRange (text : Text) (directive : Directive)
  | badString (text : Text) (directive : Directive)
  | escape (error : Literal.EscapeError)
  | address (error : Image.AddressError)
  | undefinedSymbol (name : Text)
  | badExpansion (text name : Text)
  | notBasic (text name : Text)
  | template (error : Template.Error)
  | unencodable (text : Text)
  | encoding (error : Encoding.Error)
  | duplicateAddress (address : Address) (location : Text)
  deriving DecidableEq, Repr

namespace Problem

def pattern (v : Int) : Text := "0x" ++ Text.hex (BitVec.ofInt 64 v).toNat

def message : Problem → Text
  | duplicateLabel error => error.message
  | unrecognizedDirective text => "unrecognized directive " ++ text.quote
  | ignoredDirective text =>
    "directive " ++ text.quote ++ " is not recognized and has been ignored"
  | directiveInText d => d.name ++ " directive cannot appear in text segment"
  | includeLine => ".include must be resolved when the source is loaded"
  | dataWithoutDirective => "data values without a preceding data directive"
  | instructionInData text =>
    "instruction " ++ text.quote ++ " cannot appear in the data segment"
  | expansionLoop => CallStack.loopMessage
  | unknownOperator text => text.quote ++ " is not a recognized operator"
  | badCall text => "forward reference or invalid parameters for macro " ++ text.quote
  | pseudoRefused sample =>
    "extended (pseudo) instruction or format not permitted: " ++ sample
  | operand error => error.message
  | definition error => error.message
  | noGlobalLabel d => d.name ++ " requires at least one label operand"
  | badGlobalLabel text d => text.quote ++ " is not a valid label for " ++ d.name
  | undefinedGlobal name => name ++ " declared global label but not defined"
  | duplicateGlobal name => name ++ " already defined as global in a different file"
  | segmentOperands text => text ++ " takes at most one integer address operand"
  | sectionOperands => ".section requires a section name"
  | ignoredSection name => "section " ++ name.quote ++ " is not recognized and has been ignored"
  | alignOperands => ".align requires one non-negative integer operand"
  | alignRange n => ".align " ++ Text.decimal n ++ " is out of range (0 to 31)"
  | alignRounded n =>
    ".align " ++ Text.decimal n ++ " in the text segment rounded up to a word boundary"
  | spaceOperands => ".space requires one non-negative integer operand"
  | externalOperands => ".extern requires a label and a non-negative size"
  | loneSign text => "sign " ++ text.quote ++ " without a value"
  | badCount text => "repetition count " ++ text.quote ++ " must be a positive integer"
  | truncated value stored =>
    "value " ++ pattern value ++ " is out-of-range and truncated to " ++ pattern stored
  | badInteger text d => text.quote ++ " is not a valid integer value for " ++ d.name
  | badReal text d => text.quote ++ " is not a valid floating point value for " ++ d.name
  | realRange text d => "value " ++ text.quote ++ " is out-of-range for " ++ d.name
  | badString text d => text.quote ++ " is not a valid string for " ++ d.name
  | escape error => error.message
  | address error => error.message
  | undefinedSymbol name => "symbol " ++ name.quote ++ " not found in symbol table"
  | badExpansion text name => "bad expansion " ++ text.quote ++ " of " ++ name
  | notBasic text name =>
    "expansion " ++ text.quote ++ " of " ++ name ++ " is not a basic instruction"
  | template error => error.message
  | unencodable text => "operand " ++ text.quote ++ " cannot be encoded"
  | encoding error => error.message
  | duplicateAddress a location =>
    "duplicate text segment address " ++ Text.word a ++ ": already used by " ++ location

/-- The problems that do not fail an assembly. -/
def isWarning : Problem → Bool
  | ignoredDirective _ | ignoredSection _ | alignRounded _ | truncated .. => true
  | _ => false

/-- The message about a token that has the problem. -/
def about (p : Problem) (t : Token) (note : Text) : Message := .ofToken t p.message p.isWarning note

end Problem

end Rv32Assembler
