import Rv32Assembler.Diagnostic
import Rv32Assembler.Literal.Real
import Rv32Assembler.Source.FileStore
/-!
# Source files

A source file is a list of lines, each of which knows the file and the number it has there. Loading
puts the lines of an included file in the place of the line that names it.
-/

namespace Rv32Assembler

structure SourceFile where
  name : Text
  lines : List SourceLine
  messages : List Message := []
  deriving DecidableEq, Repr

namespace SourceFile

/-- Line feeds in place of pairs of carriage return and line feed. -/
def lineFeeds : Text → Text
  | 0x0d :: 0x0a :: rest => 0x0a :: lineFeeds rest
  | b :: rest => b :: lineFeeds rest
  | [] => []

/-- The lines of a text; an empty line after the last line feed does not count. -/
def textLines (text : Text) : List Text :=
  let lines := Text.splitOn 0x0a (lineFeeds text)
  if lines.getLast? == some [] then lines.dropLast else lines

def splitLines (name text : Text) : List SourceLine :=
  (textLines text).zipIdx.map fun (line, i) => ⟨line, name, i + 1⟩

/-- A file with the given text. Its include lines stay. -/
def ofText (name text : Text) : SourceFile := ⟨name, splitLines name text, []⟩

/-- White space in an include line. -/
def isSpace (b : UInt8) : Bool := b == 0x20 || b == 0x09 || b == 0x0a || b == 0x0c || b == 0x0d

/-- Only white space and perhaps a comment is left. -/
def isLineEnd (s : Text) : Bool :=
  match s.dropWhile isSpace with
  | [] => true
  | b :: rest => b == 0x23 && !rest.contains 0x0a

/-- The file that an include line names. -/
def includeTarget? (line : Text) : Option Text :=
  let keyword : Text := ".include"
  let line := line.dropWhile isSpace
  if Literal.lowerAscii (line.take keyword.length) == keyword then
    let rest := line.drop keyword.length
    match rest, rest.dropWhile isSpace with
    | gap :: _, 0x22 :: rest =>
      let target := rest.takeWhile fun b => b != 0x22
      match rest.dropWhile fun b => b != 0x22 with
      | _ :: rest =>
        if isSpace gap && !target.isEmpty && isLineEnd rest then some target else none
      | [] => none
    | _, _ => none
  else none

def lineMessage (l : SourceLine) (text : Text) : Message :=
  { file := l.file, line := l.line, text := text }

/-- The lines with the included ones in place, and the problems met. `chain` holds the files that
are being included, `name` the one that the lines belong to. -/
def flatten (store : FileStore) (chain : List Text) (name : Text) :
    List SourceLine → List SourceLine × List Message
  | [] => ([], [])
  | l :: rest =>
    let (lines, messages) :=
      match includeTarget? l.text with
      | none => ([l], [])
      | some target =>
        let path := Path.resolve (Path.directory name) target
        if _hnew : chain.contains path = true then
          ([], [lineMessage l ("recursive include of " ++ path)])
        else
          match _hread : store.read path with
          | .error e =>
            ([], [lineMessage l ("cannot open include file " ++ path ++ ": " ++ e.message)])
          | .ok text => flatten store (path :: chain) path (splitLines path text)
    let (moreLines, moreMessages) := flatten store chain name rest
    (lines ++ moreLines, messages ++ moreMessages)
termination_by lines => (store.unseen chain, lines.length)
decreasing_by
  · exact Prod.Lex.left _ _ (FileStore.unseen_cons_lt _hread _hnew)
  · exact Prod.Lex.right _ (by simp)

/-- Reads a file and what it includes. Only a top-level file that cannot be read is an error. -/
def load (store : FileStore) (name : Text) : Except FileError SourceFile :=
  (store.read name).map fun text =>
    let (lines, messages) := flatten store [name] name (splitLines name text)
    ⟨name, lines, messages⟩

end SourceFile

end Rv32Assembler
