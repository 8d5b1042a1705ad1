import Rv32Assembler.Text.Basic
/-!
# Token kinds

Integers are classed by the narrowest field that holds them, so that the operand format of an
instruction can ask for a width.
-/

namespace Rv32Assembler

inductive Kind where
  | error
  | comment
  | directive
  | operator
  | registerName
  | registerNumber
  | identifier
  | leftParen
  | rightParen
  | colon
  | plus
  | minus
  | quotedString
  | integer5
  | integer6
  | integer12
  | integer20
  | integer32
  | integer64
  | realNumber
  | macroParameter
  deriving DecidableEq, Repr

namespace Kind

def all : List Kind :=
  [error, comment, directive, operator, registerName, registerNumber, identifier, leftParen,
   rightParen, colon, plus, minus, quotedString, integer5, integer6, integer12, integer20,
   integer32, integer64, realNumber, macroParameter]

def name : Kind → Text
  | error => "ERROR"
  | comment => "COMMENT"
  | directive => "DIRECTIVE"
  | operator => "OPERATOR"
  | registerName => "REGISTER_NAME"
  | registerNumber => "REGISTER_NUMBER"
  | identifier => "IDENTIFIER"
  | leftParen => "("
  | rightParen => ")"
  | colon => ":"
  | plus => "+"
  | minus => "-"
  | quotedString => "QUOTED_STRING"
  | integer5 => "INTEGER_5"
  | integer6 => "INTEGER_6"
  | integer12 => "INTEGER_12"
  | integer20 => "INTEGER_20"
  | integer32 => "INTEGER_32"
  | integer64 => "INTEGER_64"
  | realNumber => "REAL_NUMBER"
  | macroParameter => "MACRO_PARAMETER"

/-- The place of an integer kind in the order of widths. -/
def integerRank? : Kind → Option Nat
  | integer5 => some 1
  | integer6 => some 2
  | integer12 => some 3
  | integer20 => some 4
  | integer32 => some 5
  | integer64 => some 6
  | _ => none

def isInteger (k : Kind) : Bool := k.integerRank?.isSome

def isRegister (k : Kind) : Bool := k == registerName || k == registerNumber

/-- A word that may name a label; a mnemonic may. -/
def isLabel (k : Kind) : Bool := k == identifier || k == operator

/-- A sign right after such a token is an operator and not part of a number. -/
def isValue (k : Kind) : Bool :=
  k == identifier || k.isRegister || k == rightParen || k == realNumber || k == quotedString
    || k.isInteger

/-- The narrowest integer kind that holds a value. -/
def classify (v : Int) : Kind :=
  if 0 ≤ v && v ≤ 31 then integer5
  else if 0 ≤ v && v ≤ 63 then integer6
  else if -2048 ≤ v && v ≤ 2047 then integer12
  else if 0 ≤ v && v ≤ 0xfffff then integer20
  else if -0x80000000 ≤ v && v ≤ 0xffffffff then integer32
  else integer64

end Kind

end Rv32Assembler
