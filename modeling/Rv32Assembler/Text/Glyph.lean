import Rv32Assembler.Text.Basic
/-!
# Characters of a text

A text is read as UTF-8 from left to right. A byte that starts no well-formed sequence is a
character of its own, U+FFFD, so every text has a reading and no byte is lost: `ofGlyphs_glyphs`.
-/

namespace Rv32Assembler.Text

/-- One character as it stands in a text. -/
structure Glyph where
  char : Char
  bytes : Text
  deriving DecidableEq, Repr

/-- Stands for a byte outside every well-formed sequence. -/
def replacement : Char := Char.ofNat 0xfffd

/-- The glyph is one byte that is no part of UTF-8. -/
def Glyph.isStray (g : Glyph) : Bool := g.char == replacement && g.bytes.length == 1

/-- A byte that continues a sequence. -/
def isTail (b : UInt8) : Bool := 0x80 ≤ b && b ≤ 0xbf

/-- The second byte allowed after a first one; it excludes overlong forms, surrogates and what lies
beyond U+10FFFF. -/
def isSecond (first b : UInt8) : Bool :=
  if first == 0xe0 then 0xa0 ≤ b && b ≤ 0xbf
  else if first == 0xed then 0x80 ≤ b && b ≤ 0x9f
  else if first == 0xf0 then 0x90 ≤ b && b ≤ 0xbf
  else if first == 0xf4 then 0x80 ≤ b && b ≤ 0x8f
  else isTail b

/-- The six bits that a continuation byte carries. -/
def tailBits (b : UInt8) : Nat := b.toNat % 64

/-- The code point of the well-formed sequence that starts with `b`, and the number of its further
bytes. -/
def sequence? (b : UInt8) (rest : Text) : Option (Nat × Nat) :=
  if b < 0x80 then some (b.toNat, 0)
  else if 0xc2 ≤ b && b ≤ 0xdf then
    match rest with
    | b₁ :: _ => if isSecond b b₁ then some (b.toNat % 32 * 64 + tailBits b₁, 1) else none
    | _ => none
  else if 0xe0 ≤ b && b ≤ 0xef then
    match rest with
    | b₁ :: b₂ :: _ =>
      if isSecond b b₁ && isTail b₂ then
        some (b.toNat % 16 * 4096 + tailBits b₁ * 64 + tailBits b₂, 2)
      else none
    | _ => none
  else if 0xf0 ≤ b && b ≤ 0xf4 then
    match rest with
    | b₁ :: b₂ :: b₃ :: _ =>
      if isSecond b b₁ && isTail b₂ && isTail b₃ then
        some (b.toNat % 8 * 262144 + tailBits b₁ * 4096 + tailBits b₂ * 64 + tailBits b₃, 3)
      else none
    | _ => none
  else none

/-- The glyph at the start of a text, and the number of bytes it takes after the first one. -/
def firstGlyph (b : UInt8) (rest : Text) : Glyph × Nat :=
  match sequence? b rest with
  | some (code, extra) => (⟨Char.ofNat code, b :: rest.take extra⟩, extra)
  | none => (⟨replacement, [b]⟩, 0)

def glyphs : Text → List Glyph
  | [] => []
  | b :: rest =>
    let first := firstGlyph b rest
    first.1 :: glyphs (rest.drop first.2)
termination_by s => s.length
decreasing_by simp only [List.length_drop, List.length_cons]; omega

def ofGlyphs (gs : List Glyph) : Text := gs.flatMap Glyph.bytes

theorem firstGlyph_bytes (b : UInt8) (rest : Text) :
    (firstGlyph b rest).1.bytes = b :: rest.take (firstGlyph b rest).2 := by
  unfold firstGlyph
  split <;> simp

theorem ofGlyphs_glyphs (s : Text) : ofGlyphs (glyphs s) = s := by
  fun_induction glyphs s with
  | case1 => rfl
  | case2 b rest first ih =>
    simp only [ofGlyphs] at ih ⊢
    rw [List.flatMap_cons, ih, firstGlyph_bytes]
    simp [first, List.take_append_drop]

def encodeChar (c : Char) : Text := String.utf8EncodeChar c

/-- The UTF-8 bytes of a code point, those of U+FFFD when it is none. -/
def encodeCode (code : Nat) : Text :=
  if code.isValidChar then encodeChar (Char.ofNat code) else encodeChar replacement

end Rv32Assembler.Text
