import Rv32Assembler.CommandLine.Run
/-!
# The program

Gathers the files that the command may read, runs it on them, and carries out what it decides.
-/

namespace Rv32Assembler.CommandLine

/-- A text as a string; a byte outside UTF-8 becomes the replacement character. -/
def stringOf (s : Text) : String := String.ofList (s.glyphs.map fun g => g.char)

def bytesOf (s : Text) : ByteArray := ⟨s.toArray⟩

/-- An entry that makes a path a directory. Its own path names no file. -/
def directoryMark (path : Text) : Text × Text := (path ++ "/.", [])

/-- The entries of a directory for a path: its file, or a mark that it is a directory, which can be
opened and not read. -/
def readEntry (path : Text) : IO Directory := do
  match ← (IO.FS.readBinFile (stringOf path)).toBaseIO with
  | .ok content => return [(path, content.data.toList)]
  | .error _ =>
    match ← (IO.FS.Handle.mk (stringOf path) .read).toBaseIO with
    | .ok _ => return [directoryMark path]
    | .error _ => return []

/-- Adds a file, seen from a directory, and all that it includes. -/
partial def gather (d : Directory) (directory name : Text) : IO Directory := do
  let path := Path.resolve directory name
  if d.contains path || !Path.isValid name then return d
  let mut d := d ++ (← readEntry path)
  match List.find? (fun f => f.1 == path) d with
  | none => return d
  | some (_, text) =>
    for line in SourceFile.textLines text do
      match SourceFile.includeTarget? line with
      | some target => d ← gather d directory (Path.resolve (Path.directory name) target)
      | none => pure ()
    return d

/-- Adds what is at a path to be written and on the way to it. -/
def gatherTarget (d : Directory) (path : Text) : IO Directory := do
  let elements := Text.splitOn Path.slash path
  let mut d := d
  for n in List.range elements.length do
    let part := Path.clean (Text.join [Path.slash] (elements.take (n + 1)))
    unless d.contains part do d := d ++ (← readEntry part)
  return d

/-- The files that matter to a command. -/
def gatherAll (arguments : List Text) : IO Directory := do
  match Arguments.read arguments with
  | .error _ => return []
  | .ok a =>
    let mut d : Directory := []
    for source in a.sources do
      d ← gather d (Path.directory source) (Path.base source)
    gatherTarget d a.options.output

/-- Read and execute for all, write for the owner. -/
def executableRights : IO.FileRight :=
  ⟨⟨true, true, true⟩, ⟨true, false, true⟩, ⟨true, false, true⟩⟩

def writeOutput (d : Directory) (file : OutputFile) : IO Unit := do
  let path := stringOf file.path
  IO.FS.writeBinFile path (bytesOf file.content)
  if file.executable && !d.contains file.path then IO.setAccessRights path executableRights

end Rv32Assembler.CommandLine

open Rv32Assembler CommandLine in
def main (arguments : List String) : IO UInt32 := do
  let arguments := arguments.map Text.ofString
  let directory ← gatherAll arguments
  let outcome := run directory arguments
  (← IO.getStdout).write (bytesOf outcome.stdout)
  (← IO.getStderr).write (bytesOf outcome.stderr)
  match outcome.output with
  | some file => writeOutput directory file
  | none => pure ()
  return UInt32.ofNat outcome.exit
