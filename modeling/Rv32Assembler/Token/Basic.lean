import Rv32Assembler.Literal.Binary
import Rv32Assembler.Token.Kind
/-!
# Tokens

A token carries its text, its place in the line it was read from, and the value of a number. A
tokenized line keeps the text that its tokens were read from beside the line as it stands in the
file.
-/

namespace Rv32Assembler

structure SourceLine where
  text : Text
  file : Text
  line : Int
  deriving DecidableEq, Repr

structure Token where
  kind : Kind
  text : Text
  file : Text
  line : Int
  /-- One plus the number of characters before the token. -/
  column : Nat
  /-- The number of bytes before the token. -/
  offset : Nat
  /-- The value of an integer. -/
  value : Int := 0
  /-- The value of a real number. -/
  real : Binary64 := 0
  deriving DecidableEq, Repr

/-- The number of bytes up to the end of the token. -/
def Token.stop (t : Token) : Nat := t.offset + t.text.length

/-- The tokens of a line, and the text and the line they come from. -/
structure TokenLine where
  tokens : List Token
  text : Text
  source : SourceLine
  deriving DecidableEq, Repr

namespace TokenLine

/-- The line without the comment that ends it. -/
def withoutComment (l : TokenLine) : TokenLine :=
  match l.tokens.getLast? with
  | some t => if t.kind == .comment then { l with tokens := l.tokens.dropLast } else l
  | none => l

end TokenLine

namespace Token

/-- Whether a blank stands between two neighbours. -/
def spaced (left right : Token) : Bool :=
  right.kind != .rightParen && right.kind != .colon && left.kind != .leftParen

/-- The texts of the tokens after `left`, with blanks. -/
def renderAfter (left : Token) : List Token → Text
  | [] => []
  | t :: rest => (if spaced left t then 0x20 :: t.text else t.text) ++ renderAfter t rest

def render : List Token → Text
  | [] => []
  | t :: rest => t.text ++ renderAfter t rest

end Token

def TokenLine.render (l : TokenLine) : Text := Token.render l.tokens

end Rv32Assembler
