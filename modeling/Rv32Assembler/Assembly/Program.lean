import Rv32Assembler.Assembly.SecondPass
/-!
# Assembling

Both passes over a list of files. A run fails when an error was recorded, and on a warning when the
options say so; what it leaves then is the log.
-/

namespace Rv32Assembler

structure Program where
  /-- The machine statements in the order of their addresses. -/
  statements : List MachineStatement
  global : SymbolTable
  /-- The name and the labels of each file. -/
  locals : List (Text × SymbolTable)
  image : Image MachineStatement
  log : Log
  /-- Where execution starts. -/
  entry : Address

/-- The label that execution starts at. -/
def mainLabel : Text := "main"

/-- Tokenizes the files; their loading problems come first in the log. -/
def tokenizeFiles (v : Vocabulary) (log : Log) :
    List SourceFile → Log × List (Text × Array TokenLine)
  | [] => (log, [])
  | f :: rest =>
    let (lines, log) := v.tokenizeFile (log.addAll f.messages) f.lines
    let (log, files) := tokenizeFiles v log rest
    (log, (f.name, lines.toArray) :: files)

def Session.program (s : Session) (config : Config) (units : List SourceUnit)
    (statements : List MachineStatement) : Program where
  statements := statements
  global := s.global
  locals := units.map fun u => (u.name, u.labels)
  image := s.image
  log := s.log
  entry := ((s.global.lookup mainLabel).map Symbol.address).getD config.layout.textBase

def firstPass (config : Config) (isa : Registry) (files : List SourceFile) :
    Except Fault (Session × List SourceUnit) := do
  let session := Session.ofConfig config
  let (log, tokenized) := tokenizeFiles (isa.vocabulary true) session.log files
  let (session, units) ← { session with log := log }.readFiles config isa 0 tokenized
  return (session.patchUnits units, units)

/-- Resolves and places the statements of a first pass without errors. -/
def secondPass (config : Config) (isa : Registry) (session : Session) (units : List SourceUnit) :
    Except Fault (Except Log Program) := do
  let (log, machine) ← resolveUnits isa session.global session.log units
  let (session, statements) := { session with log := log }.generate machine
  if session.log.hasErrors || (config.warningsAreErrors && session.log.hasWarnings) then
    return .error session.log
  return .ok (session.program config units statements)

/-- Assembles files to a program, or to the log of what is wrong with them. -/
def assemble (config : Config) (isa : Registry) (files : List SourceFile) :
    Except Fault (Except Log Program) := do
  let (session, units) ← firstPass config isa files
  if session.log.hasErrors then return .error session.log
  secondPass config isa session units

end Rv32Assembler
