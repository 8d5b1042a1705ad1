import Rv32Assembler.Literal.Integer
/-!
# Escapes

Between quotes a backslash starts an escape: a letter or sign of its own, three octal digits, or
`u` and four hexadecimal digits. A malformed escape stays as it is written, the first one is
reported, and decoding goes on after it.
-/

namespace Rv32Assembler.Literal

inductive EscapeError where
  /-- The text ends after a backslash. -/
  | dangling (body : Text)
  /-- Three octal digits whose value is no byte. -/
  | octalRange (digits : Text)
  /-- An octal digit other than zero without two more. -/
  | octal (digit : UInt8)
  /-- Fewer than four bytes after `u`; `text` starts with the `u`. -/
  | incomplete (text : Text)
  /-- Four bytes after `u` that are not hexadecimal digits. -/
  | code (digits : Text)
  | unknown (byte : UInt8)
  deriving DecidableEq, Repr

/-- The character whose number is the byte. -/
def byteCharacter (b : UInt8) : Text := Text.encodeCode b.toNat

def EscapeError.message : EscapeError → Text
  | dangling body => "dangling escape at end of " ++ body.quote
  | octalRange digits => "octal escape \\" ++ digits ++ " out of range"
  | octal digit => "invalid octal escape \\" ++ byteCharacter digit
  | incomplete text => "incomplete unicode escape \\" ++ text
  | code digits => "invalid unicode escape \\u" ++ digits
  | unknown byte => "unknown escape \\" ++ byteCharacter byte

/-- One escape read: the bytes it gives, its problem, and the number of bytes it takes after the
backslash and the byte that follows. -/
structure Escape where
  bytes : Text
  problem : Option EscapeError := none
  extra : Nat := 0
  deriving DecidableEq, Repr

def isOctal (b : UInt8) : Bool := 0x30 ≤ b && b ≤ 0x37

/-- The byte that an escape of one letter or sign stands for. -/
def simpleEscape? (b : UInt8) : Option UInt8 :=
  if b == 0x6e then some 0x0a
  else if b == 0x74 then some 0x09
  else if b == 0x72 then some 0x0d
  else if b == 0x62 then some 0x08
  else if b == 0x66 then some 0x0c
  else if b == 0x5c || b == 0x22 || b == 0x27 then some b
  else none

def octalEscape (b : UInt8) (rest : Text) : Escape :=
  let short : Escape :=
    if b == 0x30 then ⟨[0], none, 0⟩ else ⟨[0x5c, b], some (.octal b), 0⟩
  match rest with
  | c :: d :: _ =>
    if isOctal c && isOctal d then
      match digits 8 256 [b, c, d] with
      | .ok n => ⟨[UInt8.ofNat n], none, 2⟩
      | .error _ => ⟨[0x5c, b, c, d], some (.octalRange [b, c, d]), 2⟩
    else short
  | _ => short

def codeEscape (b : UInt8) (rest : Text) : Escape :=
  if rest.length < 4 then ⟨0x5c :: b :: rest, some (.incomplete (b :: rest)), rest.length⟩
  else
    match digits 16 (1 <<< 32) (rest.take 4) with
    | .ok n => ⟨Text.encodeCode n, none, 4⟩
    | .error _ => ⟨0x5c :: b :: rest.take 4, some (.code (rest.take 4)), 4⟩

/-- The escape made of a backslash, the byte `b` and perhaps some of `rest`. -/
def escape (b : UInt8) (rest : Text) : Escape :=
  match simpleEscape? b with
  | some byte => ⟨[byte], none, 0⟩
  | none =>
    if isOctal b then octalEscape b rest
    else if b == 0x75 then codeEscape b rest
    else ⟨[0x5c, b], some (.unknown b), 0⟩

/-- Decodes the escapes of `body` from `s` on: the bytes, and the first problem. -/
def unescapeFrom (body : Text) : Text → Text × Option EscapeError
  | [] => ([], none)
  | b :: rest =>
    if b == 0x5c then
      match rest with
      | [] => ([0x5c], some (.dangling body))
      | c :: rest =>
        let e := escape c rest
        let (bytes, problem) := unescapeFrom body (rest.drop e.extra)
        (e.bytes ++ bytes, e.problem.or problem)
    else
      let (bytes, problem) := unescapeFrom body rest
      (b :: bytes, problem)
termination_by s => s.length
decreasing_by all_goals simp; try omega

/-- The bytes that the text between the quotes denotes, and the first problem in it. -/
def unescape (body : Text) : Text × Option EscapeError := unescapeFrom body body

inductive CharacterError where
  | escape (error : EscapeError)
  | notOne (body : Text)
  deriving DecidableEq, Repr

def CharacterError.message : CharacterError → Text
  | escape error => error.message
  | notOne body => "character literal '" ++ body ++ "' must hold one character"

/-- The code of the one character between single quotes. -/
def character (body : Text) : Except CharacterError Int :=
  match unescape body with
  | (_, some error) => .error (.escape error)
  | (bytes, none) =>
    match bytes.glyphs with
    | [g] => .ok g.char.toNat
    | _ => .error (.notOne body)

end Rv32Assembler.Literal
