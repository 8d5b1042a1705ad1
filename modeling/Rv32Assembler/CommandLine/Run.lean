import Rv32Assembler.Checksum
import Rv32Assembler.CommandLine.Directory
import Rv32Assembler.CommandLine.Dump
import Rv32Assembler.CommandLine.Flag
import Rv32Assembler.Container.Format
import Rv32Assembler.Isa.Rv32im
/-!
# The command

Reads the sources, assembles them and writes the image; on request it shows what it made. The checks
come in a fixed order, and the first that fails ends the command with a message.
-/

namespace Rv32Assembler.CommandLine

structure OutputFile where
  path : Text
  content : List UInt8
  /-- The file is executable when it is new. -/
  executable : Bool
  deriving DecidableEq, Repr

/-- What the command does: its exit status, what it prints, and the file it writes. -/
structure Outcome where
  exit : Nat
  stdout : Text := []
  stderr : Text := []
  output : Option OutputFile := none
  deriving DecidableEq, Repr

/-- The name that starts the last line of a failed run. -/
def commandName : Text := "rvasm"

def Outcome.fail (o : Outcome) (message : Text) : Outcome :=
  { o with exit := 1, stderr := o.stderr ++ commandName ++ ": " ++ message ++ "\n" }

def Options.config (o : Options) : Config where
  errorLimit := o.errorLimit
  warningsAreErrors := o.warningsAreErrors
  pseudo := !o.noPseudo
  layout := { textBase := o.textBase, dataBase := o.dataBase }

/-- What a program's text output is. -/
def Options.printed (o : Options) (p : Program) : Text :=
  Text.shownIf o.listing (p.statements.flatMap fun s => s.listing ++ [0x0a])
    ++ Text.shownIf o.dump (renderProgram p)
    ++ Text.shownIf o.checksum (Checksum.render p.image.dump ++ [0x0a])

/-- The name of the output where none is given. -/
def defaultOutput (source : Text) (format : OutputFormat) : Text :=
  Path.withoutExtension (Path.base source) ++ format.extension

/-- Reads the sources in order. -/
def loadSources (d : Directory) (sources : List Text) : Except FileError (List SourceFile) :=
  sources.mapM fun path => SourceFile.load (d.store (Path.directory path)) (Path.base path)

def finish (d : Directory) (o : Options) (source : Text) (machine : Machine) (format : OutputFormat)
    (p : Program) (printed : Outcome) : Outcome :=
  match format.build (some machine) (LoadSegment.ofImage p.image) p.entry with
  | .error e => printed.fail e.message
  | .ok content =>
    let path := if o.output.isEmpty then defaultOutput source format else o.output
    match d.target path with
    | .error cause => printed.fail (FileError.message ⟨"open", path, cause⟩)
    | .ok full => { printed with output := some ⟨full, content, format == .elf⟩ }

/-- Assembles the sources and writes the result. -/
def execute (d : Directory) (o : Options) (sources : List Text) : Outcome :=
  let nothing : Outcome := { exit := 0 }
  match Machine.ofName? o.machine with
  | none => nothing.fail ("unsupported architecture: " ++ o.machine)
  | some machine =>
    match OutputFormat.ofName? o.format with
    | none => nothing.fail BuildError.unsupported.message
    | some format =>
      match loadSources d sources with
      | .error e => nothing.fail e.message
      | .ok files =>
        match assemble o.config Rv32im.registry files with
        | .error _ => nothing.fail "internal fault"
        | .ok (.error log) =>
          { nothing with stderr := log.report }.fail
            ("assembly failed with " ++ Text.decimal log.errorCount ++ " error(s)")
        | .ok (.ok p) =>
          finish d o (sources.headD []) machine format p
            { nothing with stdout := o.printed p, stderr := p.log.warningReport }

def usage : Text :=
  "Two-pass assembler for RV32IM\n\nUsage:\n  " ++ commandName ++ " [flags] source...\n"

def run (d : Directory) (arguments : List Text) : Outcome :=
  match Arguments.read arguments with
  | .error e => Outcome.fail { exit := 0 } e.message
  | .ok a =>
    if a.options.help then { exit := 0, stdout := usage } else execute d a.options a.sources

/-- The file of the directory that the command changes, if it changes one, and whether that is
executable: a file that exists keeps its mode. -/
def Outcome.change? (o : Outcome) (d : Directory) : Option (OutputFile × Bool) :=
  match o.output with
  | none => none
  | some file =>
    if !Path.isValid file.path then none
    else
      match List.find? (fun f => f.1 == file.path) d with
      | some (_, content) => if content == file.content then none else some (file, false)
      | none => some (file, file.executable)

end Rv32Assembler.CommandLine
