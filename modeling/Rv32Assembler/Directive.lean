import Rv32Assembler.Text.LowerCase
/-!
# Directives

The closed set of assembler directives.
-/

namespace Rv32Assembler

inductive Directive where
  | data
  | text
  | kernelText
  | kernelData
  | namedSection
  | word
  | half
  | byte
  | doubleWord
  | float
  | double
  | ascii
  | asciz
  | string
  | align
  | space
  | external
  | globl
  | global
  | equivalence
  | beginMacro
  | endMacro
  | includeFile
  deriving DecidableEq, Repr

namespace Directive

def all : List Directive :=
  [data, text, kernelText, kernelData, namedSection, word, half, byte, doubleWord, float, double,
   ascii, asciz, string, align, space, external, globl, global, equivalence, beginMacro, endMacro,
   includeFile]

def name : Directive → Text
  | data => ".data"
  | text => ".text"
  | kernelText => ".ktext"
  | kernelData => ".kdata"
  | namedSection => ".section"
  | word => ".word"
  | half => ".half"
  | byte => ".byte"
  | doubleWord => ".dword"
  | float => ".float"
  | double => ".double"
  | ascii => ".ascii"
  | asciz => ".asciz"
  | string => ".string"
  | align => ".align"
  | space => ".space"
  | external => ".extern"
  | globl => ".globl"
  | global => ".global"
  | equivalence => ".eqv"
  | beginMacro => ".macro"
  | endMacro => ".end_macro"
  | includeFile => ".include"

def ofName? (s : Text) : Option Directive :=
  let s := s.lower
  all.find? fun d => d.name == s

def isName (s : Text) : Bool := (ofName? s).isSome

/-- The size in bytes of one data item. -/
def width : Directive → Nat
  | byte => 1
  | half => 2
  | word | float => 4
  | doubleWord | double => 8
  | _ => 0

def isInteger (d : Directive) : Bool := d == byte || d == half || d == word || d == doubleWord

def isReal (d : Directive) : Bool := d == float || d == double

def isNumeric (d : Directive) : Bool := d.isInteger || d.isReal

def isString (d : Directive) : Bool := d == ascii || d == asciz || d == string

def isSegment (d : Directive) : Bool :=
  d == data || d == text || d == kernelText || d == kernelData || d == namedSection

end Directive

end Rv32Assembler
