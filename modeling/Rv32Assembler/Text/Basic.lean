/-!
# Text

Source text is a sequence of bytes. It is UTF-8 where that decodes, nothing requires it to be, and
every position in a line is counted in bytes; so texts are byte lists, and characters are a view of
them (`Text.glyphs`). This module has the texts of numbers and the small operations on byte lists.
-/

namespace Rv32Assembler

/-- A sequence of bytes to be read as text. -/
abbrev Text := List UInt8

namespace Text

def ofString (s : String) : Text := s.toByteArray.data.toList

instance : Coe String Text := ⟨ofString⟩

/-- The digit with value `d` in bases up to sixteen. -/
def digit (d : Nat) : UInt8 := if d < 10 then UInt8.ofNat (48 + d) else UInt8.ofNat (87 + d)

/-- The digits of a natural number, most significant first, without leading zeros. -/
def digits (base n : Nat) : Text :=
  if _h : n < base ∨ base < 2 then [digit n]
  else digits base (n / base) ++ [digit (n % base)]
termination_by n
decreasing_by
  exact Nat.div_lt_self (by omega) (by omega)

/-- The decimal form of an integer, with a minus sign when it is negative. -/
def decimal (n : Int) : Text :=
  if n < 0 then 45 :: digits 10 n.natAbs else digits 10 n.natAbs

def hex (n : Nat) : Text := digits 16 n

/-- Puts copies of a byte in front until the text has the given width. -/
def padStart (width : Nat) (fill : UInt8) (s : Text) : Text :=
  List.replicate (width - s.length) fill ++ s

/-- Lower-case hexadecimal with at least `width` digits. -/
def hexPadded (width n : Nat) : Text := padStart width 48 (hex n)

/-- An address or a machine word as messages and listings show it. -/
def word (w : BitVec 32) : Text := "0x" ++ hexPadded 8 w.toNat

/-- The bytes without those at either end that satisfy `p`. -/
def trimBytes (p : UInt8 → Bool) (s : Text) : Text :=
  ((s.dropWhile p).reverse.dropWhile p).reverse

/-- The bytes without those at the end that satisfy `p`. -/
def trimEnd (p : UInt8 → Bool) (s : Text) : Text := (s.reverse.dropWhile p).reverse

/-- The text, or nothing when it is not to be shown. -/
def shownIf (shown : Bool) (s : Text) : Text := if shown then s else []

/-- Byte-wise lexicographic order. -/
def before : Text → Text → Bool
  | _, [] => false
  | [], _ :: _ => true
  | a :: s, b :: t => a < b || (a == b && before s t)

/-- The texts with `separator` between them. -/
def join (separator : Text) (parts : List Text) : Text := (parts.intersperse separator).flatten

/-- The pieces between the occurrences of a byte, one more than there are occurrences. -/
def splitOn (separator : UInt8) : Text → List Text
  | [] => [[]]
  | b :: rest =>
    if b == separator then [] :: splitOn separator rest
    else
      match splitOn separator rest with
      | piece :: pieces => (b :: piece) :: pieces
      | [] => [[b]]

theorem splitOn_ne_nil (separator : UInt8) (s : Text) : splitOn separator s ≠ [] := by
  fun_cases splitOn separator s <;> simp

theorem join_splitOn (separator : UInt8) (s : Text) :
    join [separator] (splitOn separator s) = s := by
  induction s with
  | nil => rfl
  | cons b rest ih =>
    obtain ⟨piece, pieces, hrest⟩ := List.exists_cons_of_ne_nil (splitOn_ne_nil separator rest)
    rw [hrest] at ih
    unfold splitOn
    split
    · rename_i hb
      rw [hrest, eq_of_beq hb]
      simpa [join] using ih
    · rw [hrest]
      cases pieces <;> simpa [join] using ih

/-- One replacement in a text: the bytes from `start` to `stop` give way to `text`. -/
structure Edit where
  start : Nat
  stop : Nat
  text : Text
  deriving DecidableEq, Repr

/-- Makes the replacements, in order and without overlap, in the part of `s` from `done` on. -/
def splice (s : Text) (done : Nat) : List Edit → Text
  | [] => s.drop done
  | e :: edits => (s.drop done).take (e.start - done) ++ e.text ++ splice s e.stop edits

end Text

end Rv32Assembler
