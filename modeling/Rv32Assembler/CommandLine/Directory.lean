import Rv32Assembler.Source.FileStore
/-!
# The working directory

The files below the directory that the command runs in. Sources are read from the directories they
lie in, and an output file is written at a path that may pass through any of them.
-/

namespace Rv32Assembler.CommandLine

/-- The files by their paths. -/
abbrev Directory := List (Text × Text)

namespace Directory

def missing : Text := "no such file or directory"

def notDirectory : Text := "not a directory"

def isDirectory : Text := "is a directory"

def tooLong : Text := "file name too long"

def nameLimit : Nat := 255

def pathLimit : Nat := 4095

def contains (d : Directory) (path : Text) : Bool := List.any d fun f => f.1 == path

/-- The path relative to a directory, `none` when it is not below it. -/
def relative? (directory path : Text) : Option Text :=
  if directory == "." then some path
  else
    let stem := directory ++ [Path.slash]
    if stem.isPrefixOf path then some (path.drop stem.length) else none

/-- A place on the way to a path: the elements from the working directory, or somewhere outside. -/
inductive Place where
  | inside (elements : List Text)
  | outside
  deriving DecidableEq, Repr

def Place.start (path : Text) : Place :=
  if path.head? == some Path.slash then .outside else .inside []

/-- Goes from a directory to one in it. -/
def enter (d : Directory) (place : Place) (element : Text) : Except Text Place :=
  match place with
  | .outside => .ok .outside
  | .inside elements =>
    if element.isEmpty || element == "." then .ok place
    else if element == ".." then
      .ok (if elements.isEmpty then .outside else .inside elements.dropLast)
    else if nameLimit < element.length then .error tooLong
    else
      let path := Text.join [Path.slash] (elements ++ [element])
      if FileStore.isDirectory d path then .ok (.inside (elements ++ [element]))
      else if contains d path then .error notDirectory
      else .error missing

/-- The files below one of the directories, read by their paths from there. -/
def store (d : Directory) (directory : Text) : FileStore where
  files :=
    (List.filterMap (fun f => (relative? directory f.1).map fun path => (path, f.2)) d).filter
      fun f => Path.isValid f.1
  refuse path :=
    let full := Path.resolve directory path
    if !Path.isValid path || path.contains 0 then ⟨"readfile", path, "invalid argument"⟩
    else if pathLimit < directory.length + 1 + path.length then ⟨"open", path, tooLong⟩
    else
      match (Text.splitOn Path.slash full).foldlM (enter d) (Place.start full) with
      | .ok (.inside _) => ⟨"read", path, isDirectory⟩
      | .ok .outside => ⟨"open", path, missing⟩
      | .error cause => ⟨"open", path, cause⟩

/-- Where a file written at a path ends up. A path that leads outside the directory stays as it
is. -/
def target (d : Directory) (path : Text) : Except Text Text := do
  if path.isEmpty then throw missing
  if pathLimit < path.length then throw tooLong
  let elements := Text.splitOn Path.slash (path.trimEnd fun b => b == Path.slash)
  let place ← elements.dropLast.foldlM (enter d) (Place.start path)
  let last := elements.getLastD []
  if path.getLast? == some Path.slash || last == "." || last == ".." then throw isDirectory
  if nameLimit < last.length then throw tooLong
  match place with
  | .outside => return path
  | .inside parents =>
    let full := Text.join [Path.slash] (parents ++ [last])
    if FileStore.isDirectory d full then throw isDirectory else return full

end Directory

end Rv32Assembler.CommandLine
