import Rv32Assembler.CommandLine.Trace
import Rv32Assembler.Assembly.State
/-!
# Flags

Flags and sources may be mixed. A long flag takes its value after an equals sign or as the next
argument; a switch has its value only after an equals sign. Short flags may be run together, and the
first that takes a value takes what follows it. What follows `test.` in a run of short flags is left
unread, with the word itself.
-/

namespace Rv32Assembler.CommandLine

structure Options where
  errorLimit : Int := Log.defaultLimit
  warningsAreErrors : Bool := false
  noPseudo : Bool := false
  textBase : Address := ({} : Layout).textBase
  dataBase : Address := ({} : Layout).dataBase
  machine : Text := "rv32im"
  format : Text := "elf"
  output : Text := []
  listing : Bool := false
  dump : Bool := false
  checksum : Bool := false
  help : Bool := false
  deriving DecidableEq, Repr

/-- A flag: its names, whether it is a switch, and what its value does. -/
structure Flag where
  name : Text
  short : Option UInt8 := none
  isSwitch : Bool := false
  apply : Options → Text → Except ValueError Options

namespace Flag

/-- A flag that is on or off. -/
def ofSwitch (name : Text) (short : Option UInt8) (put : Options → Bool → Options) : Flag :=
  ⟨name, short, true, fun o s => (switch s).map (put o)⟩

/-- A flag whose value is a text. -/
def ofText (name : Text) (short : Option UInt8) (put : Options → Text → Options) : Flag :=
  ⟨name, short, false, fun o s => .ok (put o s)⟩

/-- A flag that asks for traces, which are not given: its value is only checked. -/
def ofTrace (name : Text) (check : Text → Except ValueError Unit) (short : Option UInt8 := none)
    (isSwitch : Bool := false) : Flag :=
  ⟨name, short, isSwitch, fun o s => (check s).map fun _ => o⟩

def shown (f : Flag) : Text :=
  match f.short with
  | some b => [0x2d, b] ++ ", --" ++ f.name
  | none => "--" ++ f.name

end Flag

def flags : List Flag :=
  [⟨"error-limit", none, false, fun o s => (integer s).map fun n => { o with errorLimit := n }⟩,
   .ofSwitch "werror" none fun o b => { o with warningsAreErrors := b },
   .ofSwitch "no-pseudo" none fun o b => { o with noPseudo := b },
   ⟨"text-base", none, false, fun o s => (address s).map fun a => { o with textBase := a }⟩,
   ⟨"data-base", none, false, fun o s => (address s).map fun a => { o with dataBase := a }⟩,
   .ofText "arch" none fun o s => { o with machine := s },
   .ofText "format" none fun o s => { o with format := s },
   .ofText "output" (some 0x6f) fun o s => { o with output := s },
   .ofSwitch "listing" (some 0x6c) fun o b => { o with listing := b },
   .ofSwitch "dump" none fun o b => { o with dump := b },
   .ofSwitch "checksum" none fun o b => { o with checksum := b },
   .ofSwitch "help" (some 0x68) fun o b => { o with help := b },
   .ofTrace "v" Trace.verbosity (some 0x76),
   .ofTrace "logtostderr" Trace.state none true,
   .ofTrace "alsologtostderr" Trace.state none true,
   .ofTrace "stderrthreshold" Trace.severity,
   .ofTrace "vmodule" Trace.levels,
   .ofTrace "log_backtrace_at" Trace.places,
   .ofTrace "log_dir" fun _ => .ok (),
   .ofTrace "log_link" fun _ => .ok (),
   .ofTrace "logbuflevel" Trace.bufferLevel]

inductive FlagError where
  | badSyntax (argument : Text)
  | unknown (name : Text)
  | unknownShort (short : UInt8) (rest : Text)
  | noValue (argument : Text)
  | noShortValue (short : UInt8) (rest : Text)
  | badValue (value shown : Text) (error : ValueError)
  | tooFewSources
  deriving DecidableEq, Repr

/-- A byte as a character between single quotes. -/
def quotedByte (b : UInt8) : Text :=
  let c := Char.ofNat b.toNat
  let body : Text :=
    if b == 0x27 then "\\'" else if b == 0x22 then [b] else Text.quotedGlyph ⟨c, Text.encodeChar c⟩
  0x27 :: body ++ [0x27]

def FlagError.message : FlagError → Text
  | badSyntax argument => "bad flag syntax: " ++ argument
  | unknown name => "unknown flag: --" ++ name
  | unknownShort short rest => "unknown shorthand flag: " ++ quotedByte short ++ " in -" ++ rest
  | noValue argument => "flag needs an argument: " ++ argument
  | noShortValue short rest => "flag needs an argument: " ++ quotedByte short ++ " in -" ++ rest
  | badValue value shown error =>
    "invalid argument " ++ value.quote ++ " for " ++ shown.quote ++ " flag: " ++ error.message
  | tooFewSources => "requires at least 1 arg(s), only received 0"

/-- Options and sources read so far. -/
structure Arguments where
  options : Options := {}
  sources : List Text := []
  deriving DecidableEq, Repr

namespace Arguments

/-- Gives a flag its value. -/
def assign (a : Arguments) (f : Flag) (value : Text) : Except FlagError Arguments :=
  match f.apply a.options value with
  | .ok options => .ok { a with options := options }
  | .error e => .error (.badValue value f.shown e)

/-- Reads a long flag; the result says whether the next argument is its value. -/
def readLong (a : Arguments) (argument : Text) (next : Option Text) :
    Except FlagError (Arguments × Bool) :=
  let body := argument.drop 2
  let name := body.takeWhile fun b => b != 0x3d
  let after := body.dropWhile fun b => b != 0x3d
  if body.head? == some 0x2d || body.head? == some 0x3d then .error (.badSyntax argument)
  else
    match flags.find? fun f => f.name == name with
    | none => .error (.unknown name)
    | some f =>
      match after, next with
      | _ :: value, _ => (a.assign f value).map fun a => (a, false)
      | [], some value =>
        if f.isSwitch then (a.assign f "true").map fun a => (a, false)
        else (a.assign f value).map fun a => (a, true)
      | [], none =>
        if f.isSwitch then (a.assign f "true").map fun a => (a, false)
        else .error (.noValue argument)

/-- What ends a run of short flags. -/
def endOfShort : Text := "test."

/-- Reads short flags run together; the result says whether the next argument is a value. -/
def readShort (a : Arguments) (next : Option Text) : Text → Except FlagError (Arguments × Bool)
  | [] => .ok (a, false)
  | b :: rest =>
    if endOfShort.isPrefixOf (b :: rest) then .ok (a, false)
    else
      match flags.find? fun f => f.short == some b with
      | none => .error (.unknownShort b (b :: rest))
      | some f =>
        match rest with
        | 0x3d :: c :: value => (a.assign f (c :: value)).map fun a => (a, false)
        | _ =>
          if f.isSwitch then
            match a.assign f "true" with
            | .ok a => a.readShort next rest
            | .error e => .error e
          else if !rest.isEmpty then (a.assign f rest).map fun a => (a, false)
          else
            match next with
            | some value => (a.assign f value).map fun a => (a, true)
            | none => .error (.noShortValue b [b])

/-- Reads arguments in order. -/
def readAll (a : Arguments) : List Text → Except FlagError Arguments
  | [] => .ok a
  | argument :: rest =>
    match argument with
    | 0x2d :: 0x2d :: [] => .ok { a with sources := a.sources ++ rest }
    | 0x2d :: b :: short =>
      let result :=
        if b == 0x2d then a.readLong argument rest.head? else a.readShort rest.head? (b :: short)
      match result with
      | .error e => .error e
      | .ok (a, used) => a.readAll (rest.drop (if used then 1 else 0))
    | _ => { a with sources := a.sources ++ [argument] }.readAll rest
termination_by arguments => arguments.length
decreasing_by all_goals simp; try omega

/-- Reads the arguments of the command. It needs a source unless it is asked for help. -/
def read (arguments : List Text) : Except FlagError Arguments :=
  match readAll {} arguments with
  | .error e => .error e
  | .ok a => if a.sources.isEmpty && !a.options.help then .error .tooFewSources else .ok a

end Arguments

end Rv32Assembler.CommandLine
