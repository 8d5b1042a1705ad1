import Rv32Assembler.Container.Elf
import Rv32Assembler.Container.IntelHex
import Rv32Assembler.Text.LowerCase
/-!
# Output formats

The containers a program may be written to, and the machines it may be written for.
-/

namespace Rv32Assembler

def unknownName : Text := "unknown"

inductive Machine where
  | rv32im
  deriving DecidableEq, Repr

namespace Machine

def name : Machine → Text
  | rv32im => "rv32im"

def synonyms : List Text := ["rv32", "rv32i", "rv32im", "riscv", "riscv32"]

def ofName? (s : Text) : Option Machine := if synonyms.contains s.lower then some rv32im else none

end Machine

inductive OutputFormat where
  | elf
  | raw
  | hex
  deriving DecidableEq, Repr

/-- Why no file is written. -/
inductive BuildError where
  | unsupported
  | nothing
  deriving DecidableEq, Repr

def BuildError.message : BuildError → Text
  | unsupported => "unsupported format: " ++ unknownName
  | nothing => "nothing to write"

namespace OutputFormat

def name : OutputFormat → Text
  | elf => "elf"
  | raw => "raw"
  | hex => "hex"

def ofName? (s : Text) : Option OutputFormat :=
  if s == "elf" then some elf
  else if s == "raw" || s == "bin" then some raw
  else if s == "hex" || s == "ihex" then some hex
  else none

/-- The end of a file's name. -/
def extension : OutputFormat → Text
  | elf => []
  | raw => ".bin"
  | hex => ".hex"

/-- The bytes of the file that holds the segments. -/
def build (f : OutputFormat) (machine : Option Machine) (segments : List LoadSegment)
    (entry : Address) : Except BuildError (List UInt8) :=
  match f with
  | elf =>
    if segments.isEmpty then .error .nothing
    else .ok (Elf.file segments entry (if machine.isSome then Elf.machineRiscV else 0))
  | raw => .ok (segments.flatMap LoadSegment.data)
  | hex => .ok (IntelHex.file segments entry)

end OutputFormat

end Rv32Assembler
