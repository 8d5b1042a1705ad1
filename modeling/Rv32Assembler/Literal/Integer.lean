import Rv32Assembler.Text.Blank
import Rv32Assembler.Text.Quoted
/-!
# Integer literals

A literal is an optional sign and a numeral: decimal, hexadecimal after `0x`, binary after `0b`,
octal after `0o` or a leading zero. The prefixed and octal forms spell any 64-bit pattern; a
decimal literal has to be in the range of a signed 64-bit number. The value is a signed 64-bit
number.
-/

namespace Rv32Assembler.Literal

/-- The signed 64-bit number with the same low 64 bits. -/
def wrap64 (n : Int) : Int := n.bmod (1 <<< 64)

/-- The value of a digit or a letter used as a digit. -/
def digitValue? (b : UInt8) : Option Nat :=
  if 0x30 ≤ b && b ≤ 0x39 then some (b.toNat - 0x30)
  else if 0x61 ≤ b && b ≤ 0x7a then some (b.toNat - 0x61 + 10)
  else if 0x41 ≤ b && b ≤ 0x5a then some (b.toNat - 0x41 + 10)
  else none

inductive DigitsError where
  /-- There is none, or one does not belong to the base. -/
  | malformed
  /-- The value reaches the limit. -/
  | tooLarge
  deriving DecidableEq, Repr

namespace DigitsError

def message : DigitsError → Text
  | malformed => "invalid syntax"
  | tooLarge => "value out of range"

end DigitsError

/-- Reads digits from left to right after others of value `acc`, up to the first that is wrong or
brings the value to `limit`. -/
def digitsFrom (base limit acc : Nat) : Text → Except DigitsError Nat
  | [] => .ok acc
  | b :: rest =>
    match digitValue? b with
    | none => .error .malformed
    | some d =>
      if d < base then
        if acc * base + d < limit then digitsFrom base limit (acc * base + d) rest
        else .error .tooLarge
      else .error .malformed

def digits (base limit : Nat) : Text → Except DigitsError Nat
  | [] => .error .malformed
  | b :: rest => digitsFrom base limit 0 (b :: rest)

inductive IntegerError where
  | empty
  /-- The numeral, its prefix removed, has no value. -/
  | numeral (error : DigitsError) (text : Text)
  /-- The decimal numeral does not fit a signed 64-bit number. -/
  | outOfRange (text : Text)
  deriving DecidableEq, Repr

def IntegerError.message : IntegerError → Text
  | empty => "empty"
  | numeral error text => "strconv.ParseUint: parsing " ++ text.quote ++ ": " ++ error.message
  | outOfRange text => text ++ " out of range"

/-- Takes a sign off; `true` means minus. -/
def splitSign : Text → Bool × Text
  | 0x2b :: rest => (false, rest)
  | 0x2d :: rest => (true, rest)
  | s => (false, s)

/-- The base that the second byte of a prefix names. -/
def prefixBase? (b : UInt8) : Option Nat :=
  if b == 0x78 || b == 0x58 then some 16
  else if b == 0x62 || b == 0x42 then some 2
  else if b == 0x6f || b == 0x4f then some 8
  else none

def splitBase : Text → Nat × Text
  | 0x30 :: b :: c :: rest =>
    match prefixBase? b with
    | some base => (base, c :: rest)
    | none => (8, b :: c :: rest)
  | 0x30 :: b :: [] => (8, [b])
  | s => (10, s)

/-- The value of an integer literal; white space around it does not count. -/
def integer (s : Text) : Except IntegerError Int :=
  match s.trim with
  | [] => .error .empty
  | b :: rest =>
    let (negative, numeral) := splitSign (b :: rest)
    let (base, text) := splitBase numeral
    match digits base (1 <<< 64) text with
    | .error error => .error (.numeral error text)
    | .ok n =>
      if base == 10 && (1 <<< 63 < n || (n == (1 <<< 63) && !negative)) then .error (.outOfRange text)
      else .ok (wrap64 (if negative then -n else n))

end Rv32Assembler.Literal
