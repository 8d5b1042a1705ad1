import Rv32Assembler.Assembly.Cursor
import Rv32Assembler.Assembly.Problem
import Rv32Assembler.Assembly.Statement
import Rv32Assembler.Isa.Registry
/-!
# State of the first pass

What a run carries from file to file, and what it gathers while it reads one file.
-/

namespace Rv32Assembler

structure Config where
  /-- The number of errors recorded before the run stops; the default when not positive. -/
  errorLimit : Int := Log.defaultLimit
  warningsAreErrors : Bool := false
  /-- Pseudo-instructions are permitted. -/
  pseudo : Bool := true
  layout : Layout := {}
  deriving DecidableEq, Repr

/-- What is common to all files of a run. -/
structure Session where
  image : Image MachineStatement
  global : SymbolTable
  log : Log
  cursors : Cursors

def Session.ofConfig (c : Config) : Session where
  image := .empty c.layout
  global := .empty
  log := .ofLimit c.errorLimit
  cursors := .ofLayout c.layout

/-- A data item stored as zero because its label is not defined yet. -/
structure Pending where
  address : Address
  width : Nat
  token : Token
  deriving DecidableEq, Repr

/-- The state while a file is being read. -/
structure Reading extends Session where
  /-- The labels of the file. -/
  labels : SymbolTable := .empty
  pool : MacroPool
  /-- The names to be made global, as they were declared. -/
  exported : List Token := []
  pending : List Pending := []
  /-- The statements so far. -/
  parsed : List Statement := []

namespace Session

def record (s : Session) (m : Message) : Session := { s with log := s.log.add m }

/-- Takes over the image that a store leaves, and records why the store was refused. -/
def stored (s : Session) (t : Token) (note : Text)
    (outcome : Image MachineStatement × Option Image.AddressError) : Session :=
  let s := { s with image := outcome.1 }
  match outcome.2 with
  | some e => s.record ((Problem.address e).about t note)
  | none => s

end Session

namespace Reading

def start (s : Session) (name : Text) : Reading where
  toSession := { s with cursors := s.cursors.startFile }
  pool := { file := name }

def record (r : Reading) (m : Message) : Reading := { r with log := r.log.add m }

/-- Records a problem of a token; `note` names the expansion under way. -/
def report (r : Reading) (note : Text) (t : Token) (p : Problem) : Reading :=
  r.record (p.about t note)

def dataCursor (r : Reading) : Address := r.cursors.get r.cursors.dataSegment

def advanceData (r : Reading) (n : Nat) : Reading :=
  { r with
    cursors := r.cursors.set r.cursors.dataSegment (r.dataCursor + BitVec.ofNat 32 n) }

/-- Moves a cursor up to a multiple. A label at its old place, having nothing behind it yet, moves
with it. -/
def align (r : Reading) (s : Segment) (multiple : Nat) : Reading :=
  let old := r.cursors.get s
  let new := alignUp old multiple
  if new = old then r
  else { r with cursors := r.cursors.set s new, labels := r.labels.move old new }

def lookup (r : Reading) (name : Text) : Option Symbol := r.labels.lookupOr r.global name

end Reading

end Rv32Assembler
