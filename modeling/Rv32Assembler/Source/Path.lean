import Rv32Assembler.Text.Glyph
/-!
# Paths

Slash-separated paths, handled as texts.
-/

namespace Rv32Assembler.Path

def slash : UInt8 := 0x2f

/-- One element after the cleaned elements `done`, innermost first: nothing and `.` are dropped, and
`..` takes the last element back where there is one to take. -/
def cleanStep (rooted : Bool) (done : List Text) (element : Text) : List Text :=
  if element.isEmpty || element == "." then done
  else if element == ".." then
    match done with
    | last :: rest => if last == ".." then element :: done else rest
    | [] => if rooted then [] else [element]
  else element :: done

def clean (path : Text) : Text :=
  let rooted := path.head? == some slash
  let elements := ((Text.splitOn slash path).foldl (cleanStep rooted) []).reverse
  let joined := Text.join [slash] elements
  if rooted then slash :: joined else if joined.isEmpty then "." else joined

/-- The part up to and with the last slash, and the part after it. -/
def split (path : Text) : Text × Text :=
  let base := (path.reverse.takeWhile fun b => b != slash).reverse
  (path.take (path.length - base.length), base)

/-- The directory that a path lies in. -/
def directory (path : Text) : Text := clean (split path).1

def base (path : Text) : Text :=
  if path.isEmpty then "."
  else
    let trimmed := path.trimEnd fun b => b == slash
    if trimmed.isEmpty then [slash] else (split trimmed).2

/-- The path of `target` as seen from `directory`. -/
def resolve (directory target : Text) : Text := clean (directory ++ slash :: target)

/-- The part from the last point of the last element on. -/
def extension (path : Text) : Text :=
  let (_, base) := split path
  let tail := (base.reverse.takeWhile fun b => b != 0x2e).reverse
  if tail.length == base.length then [] else 0x2e :: tail

def withoutExtension (path : Text) : Text := path.take (path.length - (extension path).length)

/-- The text is UTF-8 throughout. -/
def isUtf8 (s : Text) : Bool := s.glyphs.all fun g => !g.isStray

/-- A path that names a file below a root: no element is empty, `.` or `..`. -/
def isValid (path : Text) : Bool :=
  isUtf8 path
    && (path == "."
      || (Text.splitOn slash path).all fun e => !e.isEmpty && e != "." && e != "..")

end Rv32Assembler.Path
