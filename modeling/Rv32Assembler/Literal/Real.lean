import Rv32Assembler.Literal.Binary
import Rv32Assembler.Literal.Integer
/-!
# Real literals

A real literal is an optional sign and a decimal or hexadecimal numeral with a point and an
exponent, or the name of an infinity or of the value that is no number. Its value is the nearest
double.
-/

namespace Rv32Assembler.Literal

structure RealError where
  error : DigitsError
  text : Text
  deriving DecidableEq, Repr

def RealError.message (e : RealError) : Text :=
  "strconv.ParseFloat: parsing " ++ e.text.quote ++ ": " ++ e.error.message

def isDigit (b : UInt8) : Bool := 0x30 ≤ b && b ≤ 0x39

/-- A digit, or also a letter from `a` to `f`. -/
def isDigitOf (hexadecimal : Bool) (b : UInt8) : Bool :=
  isDigit b || (hexadecimal && ((0x61 ≤ b && b ≤ 0x66) || (0x41 ≤ b && b ≤ 0x46)))

def isUnderscore (b : UInt8) : Bool := b == 0x5f

/-- What stands just before a place in a numeral, as far as underscores are concerned. -/
inductive Separation where
  | digit
  | underscore
  | other
  deriving DecidableEq, Repr

/-- Every underscore stands between digits, where a base prefix counts as a digit. -/
def underscoresFrom (hexadecimal : Bool) (last : Separation) : Text → Bool
  | [] => last != .underscore
  | b :: rest =>
    if isDigitOf hexadecimal b then underscoresFrom hexadecimal .digit rest
    else if isUnderscore b then
      last == .digit && underscoresFrom hexadecimal .underscore rest
    else last != .underscore && underscoresFrom hexadecimal .other rest

/-- Whether the underscores of a numeral are well placed. -/
def underscoresOk (s : Text) : Bool :=
  match (splitSign s).2 with
  | 0x30 :: b :: rest =>
    match prefixBase? b with
    | some base => underscoresFrom (base == 16) .digit rest
    | none => underscoresFrom false .other (0x30 :: b :: rest)
  | numeral => underscoresFrom false .other numeral

/-- A real numeral: `digits` times a power of ten, or of two when it is hexadecimal. -/
structure Numeral where
  digits : Nat
  hexadecimal : Bool
  exponent : Int
  deriving DecidableEq, Repr

def digitsValue (base : Nat) (s : Text) : Nat :=
  s.foldl (fun acc b => ((digitValue? b).map (acc * base + ·)).getD acc) 0

/-- The exponent's digits; the value stops growing once it has five. -/
def exponentValue (s : Text) : Nat :=
  s.foldl (fun acc b =>
    ((digitValue? b).map fun d => if acc < 10000 then acc * 10 + d else acc).getD acc) 0

/-- The exponent that ends a numeral, `none` when it is malformed. A hexadecimal numeral has to have
one. -/
def exponent? (hexadecimal : Bool) : Text → Option Int
  | [] => if hexadecimal then none else some 0
  | b :: rest =>
    if b ||| 0x20 == if hexadecimal then 0x70 else 0x65 then
      let (negative, digits) := splitSign rest
      match digits with
      | d :: _ =>
        if isDigit d && digits.all fun b => isDigit b || isUnderscore b then
          some (if negative then -exponentValue digits else exponentValue digits)
        else none
      | [] => none
    else none

def numeral? (s : Text) : Option Numeral :=
  let (hexadecimal, s) :=
    match s with
    | 0x30 :: b :: c :: rest =>
      if b == 0x78 || b == 0x58 then (true, c :: rest) else (false, s)
    | _ => (false, s)
  let part := fun b => isDigitOf hexadecimal b || isUnderscore b
  let whole := s.takeWhile part
  let rest := s.dropWhile part
  let (fraction, rest) :=
    match rest with
    | 0x2e :: rest => (rest.takeWhile part, rest.dropWhile part)
    | _ => ([], rest)
  let digits := (whole ++ fraction).filter (isDigitOf hexadecimal)
  let places := (fraction.filter (isDigitOf hexadecimal)).length
  if digits.isEmpty then none
  else
    match exponent? hexadecimal rest with
    | none => none
    | some e =>
      if hexadecimal then some ⟨digitsValue 16 digits, true, e - 4 * places⟩
      else some ⟨digitsValue 10 digits, false, e - places⟩

def Numeral.nearest (n : Numeral) : Nat :=
  let power := Nat.pow (if n.hexadecimal then 2 else 10) n.exponent.natAbs
  if n.exponent < 0 then BinaryFormat.double.nearest n.digits power
  else BinaryFormat.double.nearest (n.digits * power) 1

def lowerAscii (s : Text) : Text :=
  s.map fun b => if 0x41 ≤ b && b ≤ 0x5a then b + 0x20 else b

def namedReal? (s : Text) : Option Binary64 :=
  let (negative, name) := splitSign s
  if lowerAscii s == "nan" then some Binary64.nan
  else if lowerAscii name == "inf" || lowerAscii name == "infinity" then
    some (Binary64.ofParts negative BinaryFormat.double.infinity)
  else none

/-- The double nearest to a real literal; white space around it does not count. -/
def real (s : Text) : Except RealError Binary64 :=
  let s := s.trim
  match namedReal? s with
  | some x => .ok x
  | none =>
    let (negative, unsigned) := splitSign s
    match numeral? unsigned with
    | none => .error ⟨.malformed, s⟩
    | some n =>
      if s.any isUnderscore && !underscoresOk s then .error ⟨.malformed, s⟩
      else if BinaryFormat.double.infinity ≤ n.nearest then .error ⟨.tooLarge, s⟩
      else .ok (Binary64.ofParts negative n.nearest)

end Rv32Assembler.Literal
