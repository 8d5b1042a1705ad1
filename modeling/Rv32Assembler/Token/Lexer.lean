import Rv32Assembler.Literal.Escape
import Rv32Assembler.Literal.Real
import Rv32Assembler.Text.Letter
import Rv32Assembler.Text.LowerCase
import Rv32Assembler.Token.Basic
/-!
# Reading tokens

A line is read character by character. What starts at a character is either a separator or a lexeme;
a lexeme reaches as far as its class allows. A lexeme that is wrong becomes an error token with a
problem, and reading goes on after it.
-/

namespace Rv32Assembler

open Text

structure Vocabulary where
  isOperator : Text → Bool
  isRegisterName : Text → Bool
  isRegisterNumber : Text → Bool
  isDirective : Text → Bool

/-- The kind of a word. Register names are case sensitive, mnemonics and directives are not. -/
def Vocabulary.classify (v : Vocabulary) (word : Text) : Kind :=
  if word.head? == some 0x2e && v.isDirective (lower word) then .directive
  else if v.isRegisterName word then .registerName
  else if v.isRegisterNumber word then .registerNumber
  else if v.isOperator (lower word) then .operator
  else .identifier

/-- What is wrong with a lexeme. -/
inductive LexicalError where
  /-- A percent sign without a name. -/
  | parameter
  | number (text : Text)
  | openString
  | openCharacter
  | character (error : Literal.CharacterError)
  | stray (c : Char)
  deriving DecidableEq, Repr

def LexicalError.message : LexicalError → Text
  | parameter => "'%' must be followed by a parameter name"
  | number text => "invalid number " ++ text.quote
  | openString => "unterminated string"
  | openCharacter => "unterminated character literal"
  | character error => error.message
  | stray c => "unrecognized character '" ++ encodeChar c ++ "'"

/-- A lexeme: its kind, the number of its characters after the first, and its value or problem. -/
structure Lexeme where
  kind : Kind
  extra : Nat
  value : Int := 0
  real : Binary64 := 0
  problem : Option LexicalError := none
  deriving DecidableEq, Repr

namespace Lexeme

def isSeparator (c : Char) : Bool := c == ' ' || c == '\t' || c == '\r' || c == ','

def isSign (c : Char) : Bool := c == '-' || c == '+'

def isWordStart (c : Char) : Bool := isLetter c || c == '_' || c == '.' || c == '$'

def isWordPart (c : Char) : Bool := isWordStart c || isDecimalDigit c

/-- A character that continues a number wherever it stands. -/
def isNumberPart (c : Char) : Bool := isDecimalDigit c || isLetter c || c == '.' || c == '_'

/-- An error of the given length. -/
def wrong (extra : Nat) (problem : LexicalError) : Lexeme :=
  { kind := .error, extra := extra, problem := some problem }

/-- The number of characters that continue a word. -/
def wordLength (gs : List Glyph) : Nat := (gs.takeWhile fun g => isWordPart g.char).length

/-- The number of characters that continue a number after `last`. A sign continues it right after an
`e`, unless the number has a hexadecimal prefix. -/
def numberLength (hexadecimal : Bool) (last : Char) : List Glyph → Nat
  | [] => 0
  | g :: rest =>
    if isNumberPart g.char || (isSign g.char && (last == 'e' || last == 'E') && !hexadecimal) then
      let hexadecimal := hexadecimal || (last == '0' && (g.char == 'x' || g.char == 'X'))
      numberLength hexadecimal g.char rest + 1
    else 0

/-- The number of characters up to and with the closing mark; a backslash hides the next one. -/
def closing? (mark : Char) : List Glyph → Option Nat
  | [] => none
  | g :: rest =>
    if g.char == '\\' then
      match rest with
      | [] => none
      | _ :: rest => (closing? mark rest).map (· + 2)
    else if g.char == mark then some 1
    else (closing? mark rest).map (· + 1)

/-- A numeral with a point or an exponent and without a hexadecimal prefix. -/
def looksReal (text : Text) : Bool :=
  let text := text.dropWhile fun b => b == 0x2b || b == 0x2d
  let hexadecimal :=
    match text with
    | 0x30 :: b :: _ => b == 0x78 || b == 0x58
    | _ => false
  !hexadecimal && text.any fun b => b == 0x2e || b == 0x65 || b == 0x45

def number (text : Text) (extra : Nat) : Lexeme :=
  if looksReal text then
    match Literal.real text with
    | .ok x => { kind := .realNumber, extra := extra, real := x }
    | .error _ => wrong extra (.number text)
  else
    match Literal.integer text with
    | .ok v => { kind := .classify v, extra := extra, value := v }
    | .error _ => wrong extra (.number text)

def quoted (rest : List Glyph) : Lexeme :=
  match closing? '"' rest with
  | some n => { kind := .quotedString, extra := n }
  | none => wrong rest.length .openString

def character (rest : List Glyph) : Lexeme :=
  match closing? '\'' rest with
  | some n =>
    match Literal.character (ofGlyphs (rest.take (n - 1))) with
    | .ok v => { kind := .classify v, extra := n, value := v }
    | .error error => wrong n (.character error)
  | none => wrong rest.length .openCharacter

/-- The number that may start with a sign; otherwise the sign alone. -/
def signed (g : Glyph) (rest : List Glyph) : Lexeme :=
  let alone : Lexeme := { kind := if g.char == '-' then .minus else .plus, extra := 0 }
  match rest with
  | d :: more =>
    if isDecimalDigit d.char then
      let extra := numberLength false d.char more + 1
      number (ofGlyphs (g :: rest.take extra)) extra
    else alone
  | [] => alone

/-- The lexeme that starts at `g`, `none` when that is a separator. `afterValue` says that a value
ends right before `g`. -/
def read (v : Vocabulary) (afterValue : Bool) (g : Glyph) (rest : List Glyph) : Option Lexeme :=
  let c := g.char
  if isSeparator c then none
  else if c == '#' then some { kind := .comment, extra := rest.length }
  else if c == '"' then some (quoted rest)
  else if c == '\'' then some (character rest)
  else if c == '%' then
    let extra := wordLength rest
    some (if extra == 0 then wrong 0 .parameter else { kind := .macroParameter, extra := extra })
  else if isDecimalDigit c then
    let extra := numberLength false c rest
    some (number (ofGlyphs (g :: rest.take extra)) extra)
  else if isSign c then
    if afterValue then some { kind := if c == '-' then .minus else .plus, extra := 0 }
    else some (signed g rest)
  else if isWordStart c then
    let extra := wordLength rest
    some { kind := v.classify (ofGlyphs (g :: rest.take extra)), extra := extra }
  else if c == '(' then some { kind := .leftParen, extra := 0 }
  else if c == ')' then some { kind := .rightParen, extra := 0 }
  else if c == ':' then some { kind := .colon, extra := 0 }
  else some (wrong 0 (.stray c))

end Lexeme

/-- Reads the tokens, with their problems, of the part of a line that starts `offset` bytes and
`column` characters into it. -/
def Vocabulary.scan (v : Vocabulary) (line : SourceLine) (afterValue : Bool) (offset column : Nat) :
    List Glyph → List (Token × Option LexicalError)
  | [] => []
  | g :: rest =>
    match Lexeme.read v afterValue g rest with
    | none => v.scan line false (offset + g.bytes.length) (column + 1) rest
    | some lexeme =>
      let text := ofGlyphs (g :: rest.take lexeme.extra)
      let token : Token :=
        { kind := lexeme.kind, text := text, file := line.file, line := line.line,
          column := column + 1, offset := offset, value := lexeme.value, real := lexeme.real }
      (token, lexeme.problem) ::
        v.scan line lexeme.kind.isValue (offset + text.length) (column + 1 + lexeme.extra)
          (rest.drop lexeme.extra)
termination_by gs => gs.length
decreasing_by all_goals simp; try omega

/-- A token that is wrong, and why. -/
abbrev LexicalProblem := Token × LexicalError

/-- The tokens of a text that stands for a line, and the problems among them in order. -/
def Vocabulary.tokenizeText (v : Vocabulary) (text : Text) (line : SourceLine) :
    TokenLine × List LexicalProblem :=
  let scanned := v.scan line false 0 0 text.glyphs
  (⟨scanned.map Prod.fst, text, line⟩,
   scanned.filterMap fun (token, problem) => problem.map fun error => (token, error))

def Vocabulary.tokenize (v : Vocabulary) (line : SourceLine) : TokenLine × List LexicalProblem :=
  v.tokenizeText line.text line

end Rv32Assembler
