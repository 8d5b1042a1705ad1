import Rv32Assembler.Text.Glyph
/-!
# White space

The characters with the Unicode property White_Space, and what is cut at them.
-/

namespace Rv32Assembler.Text

def isBlank (c : Char) : Bool :=
  let n := c.toNat
  (9 ≤ n && n ≤ 13) || n == 0x20 || n == 0x85 || n == 0xa0 || n == 0x1680
    || (0x2000 ≤ n && n ≤ 0x200a) || n == 0x2028 || n == 0x2029 || n == 0x202f || n == 0x205f
    || n == 0x3000

def trim (s : Text) : Text :=
  let blank := fun g : Glyph => isBlank g.char
  ofGlyphs (((glyphs s).dropWhile blank).reverse.dropWhile blank).reverse

/-- The first run of characters that are not white space, or `none` in a blank text. -/
def firstField? (s : Text) : Option Text :=
  match (glyphs s).dropWhile fun g => isBlank g.char with
  | [] => none
  | gs => some (ofGlyphs (gs.takeWhile fun g => !isBlank g.char))

end Rv32Assembler.Text
