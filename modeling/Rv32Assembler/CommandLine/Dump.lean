import Rv32Assembler.Assembly.Program
/-!
# Dumps

The statements and the symbols of a program as nested records, for inspection.
-/

namespace Rv32Assembler.CommandLine

/-- A record of a type: a line for each field, names padded so that the values stand in a column. -/
def renderRecord (type : Text) (fields : List (Text × Text)) : Text :=
  let width := fields.foldl (fun n f => max n (f.1.length + 1)) 0
  let line (f : Text × Text) : Text :=
    "    " ++ MachineStatement.padEnd width (f.1 ++ ":") ++ " " ++ f.2 ++ ",\n"
  "  " ++ type ++ "\x7b\n" ++ fields.flatMap line ++ "  \x7d,\n"

def renderRecords (type : Text) (records : List (List (Text × Text))) : Text :=
  if records.isEmpty then "[]" ++ type ++ "\x7b\x7d"
  else "[]" ++ type ++ "\x7b\n" ++ records.flatMap (renderRecord type) ++ "\x7d"

def sourceText (s : MachineStatement) : Text :=
  match s.source with
  | some l => l.file ++ ":" ++ Text.decimal l.line ++ ": " ++ l.text.trim
  | none => []

def statementFields (s : MachineStatement) : List (Text × Text) :=
  [("Address", (Text.word s.address).quote), ("Code", (Text.word s.code).quote),
   ("Basic", s.basicText.quote), ("Source", (sourceText s).quote)]

def symbolFields (s : Symbol) : List (Text × Text) :=
  [("Name", s.name.quote), ("Address", Text.decimal s.address.toNat),
   ("IsData", if s.isData then "true" else "false")]

def renderSymbols (t : SymbolTable) : Text :=
  renderRecords "symbol.Symbol" (t.sorted.map symbolFields)

def renderFile (file : Text × SymbolTable) : Text :=
  file.1.quote ++ " " ++ renderSymbols file.2 ++ "\n"

def renderProgram (p : Program) : Text :=
  renderRecords "main.dumpLine" (p.statements.map statementFields) ++ "\n"
    ++ renderSymbols p.global ++ "\n" ++ p.locals.flatMap renderFile

end Rv32Assembler.CommandLine
