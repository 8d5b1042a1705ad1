import Rv32Assembler.Assembly.Line
import Rv32Assembler.Source.Include
/-!
# The first pass

Reads the files in turn: collects labels, stores data and reserves addresses for instructions. At
the end of a file its exported labels become global and its pending data is patched as far as the
labels known then allow; what is left waits for the end of all files.
-/

namespace Rv32Assembler

structure SourceUnit where
  name : Text
  labels : SymbolTable
  parsed : List Statement
  pending : List Pending

namespace Session

/-- Writes the address of a pending item's label in its place. -/
def patch (s : Session) (item : Pending) (symbol : Symbol) : Session :=
  s.stored item.token [] (s.image.store item.address symbol.address.toNat item.width)

/-- Patches the items whose labels are known; the others come back. -/
def patchAll (s : Session) (labels : SymbolTable) (pending : List Pending) :
    Session × List Pending :=
  let known (item : Pending) := labels.lookupOr s.global item.token.text
  let patched := pending.foldl (fun s item =>
    match known item with
    | some symbol => s.patch item symbol
    | none => s) s
  (patched, pending.filter fun item => (known item).isNone)

/-- Patches what the files left pending, and reports the labels that no file defines. -/
def patchUnits (s : Session) (units : List SourceUnit) : Session :=
  let (s, missing) := units.foldl (fun (s, missing) u =>
    let (s, left) := s.patchAll u.labels u.pending
    (s, missing ++ left)) (s, [])
  missing.foldl (fun s item =>
    s.record ((Problem.undefinedSymbol item.token.text).about item.token [])) s

end Session

namespace Reading

/-- Moves an exported label to the global table, unless it has moved already. -/
def exportLabel (state : Reading × List Text) (t : Token) : Reading × List Text :=
  let (r, done) := state
  if done.contains t.text then state
  else
    match r.labels.lookup t.text with
    | none => (r.report [] t (.undefinedGlobal t.text), done)
    | some symbol =>
      match r.global.add symbol with
      | .error _ => (r.report [] t (.duplicateGlobal t.text), done)
      | .ok global =>
        ({ r with labels := r.labels.remove t.text, global := global }, t.text :: done)

def exportLabels (r : Reading) : Reading := (r.exported.foldl exportLabel (r, [])).1

/-- Drops a definition that the file leaves open, with an error. -/
def closeDefinition (r : Reading) (name : Text) : Reading :=
  let (open?, pool) := r.pool.abandon
  let r := { r with pool := pool }
  match open? with
  | some m =>
    r.record { file := name, line := m.firstLine, text := Macro.unterminatedMessage m.name }
  | none => r

/-- Reads the lines of a file one by one until the log is full. -/
def readLines (s : Scope) (r : Reading) : Except Fault Reading :=
  s.lines.toList.zipIdx.foldlM (fun r (line, i) =>
    if r.log.exceeded then .ok r else readLine s {} [] i line r) r

/-- What the end of a file brings about. -/
def finish (r : Reading) (name : Text) : Session × SourceUnit :=
  let r := (r.closeDefinition name).exportLabels
  let (session, left) := r.toSession.patchAll r.labels r.pending
  (session, ⟨name, r.labels, r.parsed, left⟩)

end Reading

def Session.readFile (session : Session) (s : Scope) (name : Text) :
    Except Fault (Session × SourceUnit) :=
  (Reading.readLines s (.start session name)).map fun r => r.finish name

/-- Reads the tokenized files from place `unit` on until the log is full. -/
def Session.readFiles (session : Session) (config : Config) (isa : Registry) (unit : Nat) :
    List (Text × Array TokenLine) → Except Fault (Session × List SourceUnit)
  | [] => .ok (session, [])
  | (name, lines) :: rest =>
    if session.log.exceeded then .ok (session, [])
    else do
      let (session, u) ← session.readFile ⟨config, isa, unit, lines⟩ name
      let (session, us) ← session.readFiles config isa (unit + 1) rest
      return (session, u :: us)

end Rv32Assembler
