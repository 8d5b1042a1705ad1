import Rv32Assembler.CommandLine.Value
/-!
# Values of trace options

The command accepts options that ask for traces of its work. They change nothing that it writes, but
a value that such an option cannot have is refused. So a reader here only says whether a text is a
value: a verbosity, a severity, a list of levels for files, a list of places in files.
-/

namespace Rv32Assembler.CommandLine.Trace

/-- Accepts a text that `read` reads. -/
def accept {α : Type} (read : Text → Except ValueError α) (s : Text) : Except ValueError Unit :=
  (read s).map fun _ => ()

def verbosity : Text → Except ValueError Unit := accept decimal

def state (s : Text) : Except ValueError Unit :=
  (accept switch s).mapError fun _ => .unreadable

def bufferLevel (s : Text) : Except ValueError Unit :=
  match signed (natural (1 <<< 64)) s with
  | .ok _ => .ok ()
  | .error .malformed => .error .unreadable
  | .error .tooLarge => .error .tooLarge

def severityNames : List Text := ["info", "warning", "error", "fatal"]

/-- The lower-case form of an ASCII letter; other bytes stay. -/
def lowerByte (b : UInt8) : UInt8 := if 0x41 ≤ b && b ≤ 0x5a then b + 0x20 else b

/-- A severity: its name in any case, or its number. Only the low eight bits of a number count. -/
def severity (s : Text) : Except ValueError Unit :=
  if severityNames.contains (s.map lowerByte) then .ok ()
  else
    match decimal s with
    | .error e => .error e
    | .ok n =>
      if 0 ≤ n.bmod 256 && n.bmod 256 ≤ 3 then .ok () else .error (.noSeverity n)

/-- The text is a number in decimal. -/
def isDecimal (s : Text) : Bool := (decimal s).isOk

def isLevel (s : Text) : Bool :=
  match Text.splitOn 0x3d s with
  | [file, level] => !file.isEmpty && isDecimal level
  | _ => false

/-- Levels of files, with commas between them; nothing between two commas is no fault. -/
def levels (s : Text) : Except ValueError Unit :=
  if (Text.splitOn 0x2c s).all fun piece => piece.isEmpty || isLevel piece then .ok ()
  else .error .badLevels

/-- A place: the name of a file, which has a point in it, a colon and a line number. -/
def place (s : Text) : Except ValueError Unit :=
  match Text.splitOn 0x3a s with
  | [file, line] =>
    match file.contains 0x2e, decimal line with
    | true, .ok n => if n < 0 then .error .negativeLine else .ok ()
    | _, _ => .error .badPlaces
  | _ => .error .badPlaces

/-- No place, or places with commas between them. -/
def places (s : Text) : Except ValueError Unit :=
  if s.isEmpty then .ok () else (Text.splitOn 0x2c s).forM place

end Rv32Assembler.CommandLine.Trace
