import Rv32Assembler.Text.Glyph
import Rv32Assembler.Text.Printable
/-!
# Quoted text

Messages show a text between double quotes. Printable characters stand for themselves; a quote, a
backslash and the usual controls have two-character escapes; all else is given by its number.
-/

namespace Rv32Assembler.Text

/-- The escape with a letter of its own, if the character has one. -/
def namedEscape? (c : Char) : Option Text :=
  match c.toNat with
  | 7 => some "\\a"
  | 8 => some "\\b"
  | 12 => some "\\f"
  | 10 => some "\\n"
  | 13 => some "\\r"
  | 9 => some "\\t"
  | 11 => some "\\v"
  | 34 => some "\\\""
  | 92 => some "\\\\"
  | _ => none

/-- One character of a quoted text. -/
def quotedGlyph (g : Glyph) : Text :=
  let n := g.char.toNat
  if g.isStray then "\\x" ++ g.bytes.flatMap fun b => hexPadded 2 b.toNat
  else
    match namedEscape? g.char with
    | some escape => escape
    | none =>
      if isPrintable g.char then g.bytes
      else if n < 0x80 then "\\x" ++ hexPadded 2 n
      else if n < 0x10000 then "\\u" ++ hexPadded 4 n
      else "\\U" ++ hexPadded 8 n

def quote (s : Text) : Text := 34 :: (glyphs s).flatMap quotedGlyph ++ [34]

end Rv32Assembler.Text
