import Rv32Assembler.Assembly.FirstPass
/-!
# The second pass

Every statement becomes machine statements: a basic one is encoded as it is, an extended one gives
a basic statement for each of its templates, at consecutive addresses. The machine statements are
placed in memory and put in the order of their addresses.
-/

namespace Rv32Assembler

/-- Why a statement has no machine statements. -/
inductive Refusal where
  | fault (fault : Fault)
  | problem (token : Token) (problem : Problem)
  deriving DecidableEq, Repr

/-- The operands of a basic statement as values and as texts. `inner` says that a parenthesis is
open, so that the next text belongs to the one before it. -/
structure OperandValues where
  values : List Int := []
  parts : List Text := []
  inner : Bool := false
  deriving DecidableEq, Repr

namespace OperandValues

def push (o : OperandValues) (value : Int) (text : Text) : OperandValues :=
  match o.inner, o.parts.getLast? with
  | true, some last =>
    { values := o.values ++ [value],
      parts := o.parts.dropLast ++ [last ++ "(" ++ text ++ ")"],
      inner := false }
  | _, _ => { o with values := o.values ++ [value], parts := o.parts ++ [text] }

end OperandValues

/-- The symbol tables that a file's labels are looked up in. -/
structure Names where
  labels : SymbolTable
  global : SymbolTable

def Names.address? (n : Names) (name : Text) : Option Address :=
  (n.labels.lookupOr n.global name).map Symbol.address

namespace Statement

/-- Takes in one operand token. A label is its address, or its distance from the statement. -/
def readOperand (s : Statement) (registers : RegisterFile) (names : Names) (relative : Bool)
    (o : OperandValues) (t : Token) : Except Refusal OperandValues :=
  if t.kind == .leftParen then .ok { o with inner := true }
  else if t.kind == .rightParen then .ok o
  else if t.kind.isRegister then
    let n := (registers.ofText? t.text).getD 0
    .ok (o.push n (RegisterFile.spelling n))
  else if t.kind.isInteger then .ok (o.push t.value (Text.decimal t.value))
  else if t.kind.isLabel then
    match names.address? t.text with
    | some a =>
      let v : Int := if relative then (a - s.address).toInt else a.toNat
      .ok (o.push v (Text.decimal v))
    | none => .error (.problem t (.undefinedSymbol t.text))
  else .error (.problem t (.unencodable t.text))

/-- The machine statement of a basic statement. -/
def encode (s : Statement) (registers : RegisterFile) (names : Names) (relative : Bool)
    (encoding : Encoding) : Except Refusal MachineStatement := do
  let o ← s.operands.foldlM (s.readOperand registers names relative) {}
  match encoding.encode o.values with
  | .error .missingOperand => .error (.fault .missingOperand)
  | .error e => .error (.problem s.operator (.encoding e))
  | .ok code =>
    let operands := if o.parts.isEmpty then [] else 0x20 :: Text.join "," o.parts
    return { s with code := code, values := o.values, basicText := s.instruction.name ++ operands }

def expandTemplate (s : Statement) (isa : Registry) (names : Names) (template : Text) (i : Nat) :
    Except Refusal MachineStatement := do
  let address? (name : Text) : Option Int := (names.address? name).map fun a => a.toNat
  let text ←
    match Template.fill template s.tokens s.address address? isa.registers with
    | .ok text => .ok text
    | .error (.operand t e) => .error (.problem t (.operand e))
    | .error e => .error (.problem s.operator (.template e))
  let name := s.instruction.name
  match (isa.vocabulary true).tokenize ⟨text, s.line.file, s.line.line⟩ with
  | (⟨operator :: operands, _, line⟩, []) =>
    if operator.kind != .operator then
      .error (.problem s.operator (.badExpansion text name))
    else
      match Instruction.select (isa.lookup operator.text) operands with
      | some form =>
        match form.meaning with
        | .basic relative encoding =>
          match form.check operator operands with
          | some (t, e) => .error (.problem t (.operand e))
          | none =>
            let basic : Statement :=
              { s with
                source := if i = 0 then s.source else none
                line := line, operator := operator, operands := operands
                address := s.address + BitVec.ofNat 32 (4 * i), instruction := form }
            basic.encode isa.registers names relative encoding
        | .extended _ => .error (.problem s.operator (.notBasic text name))
      | none => .error (.problem s.operator (.notBasic text name))
  | _ => .error (.problem s.operator (.badExpansion text name))

def resolve (s : Statement) (isa : Registry) (names : Names) :
    Except Refusal (List MachineStatement) :=
  match s.instruction.meaning with
  | .basic relative encoding => (s.encode isa.registers names relative encoding).map fun m => [m]
  | .extended templates =>
    templates.zipIdx.mapM fun (template, i) => s.expandTemplate isa names template i

end Statement

/-- Resolves the statements of a file until the log is full: the log and the machine statements. -/
def SourceUnit.resolve (u : SourceUnit) (isa : Registry) (global : SymbolTable) (log : Log) :
    Except Fault (Log × List MachineStatement) :=
  u.parsed.foldlM (fun (log, machine) s =>
    if log.exceeded then .ok (log, machine)
    else
      match s.resolve isa ⟨u.labels, global⟩ with
      | .ok statements => .ok (log, machine ++ statements)
      | .error (.fault f) => .error f
      | .error (.problem t p) => .ok (log.add (p.about t s.note), machine)) (log, [])

def resolveUnits (isa : Registry) (global : SymbolTable) (log : Log) (units : List SourceUnit) :
    Except Fault (Log × List MachineStatement) :=
  units.foldlM (fun (log, machine) u => do
    let (log, statements) ← u.resolve isa global log
    return (log, machine ++ statements)) (log, [])

namespace MachineStatement

def place (s : MachineStatement) (session : Session) : Session :=
  session.stored s.operator s.note (session.image.storeStatement s.address s.code s)

def precedes (a b : MachineStatement) : Bool := a.address.ule b.address

/-- The error of a statement at the address of the one before it. -/
def clash? (earlier later : MachineStatement) : Option Message :=
  if earlier.address = later.address then
    some ((Problem.duplicateAddress later.address earlier.location).about later.operator later.note)
  else none

/-- The errors of statements that share an address with the one before them. -/
def clashes : List MachineStatement → List Message
  | a :: b :: rest => (clash? a b).toList ++ clashes (b :: rest)
  | _ => []

end MachineStatement

/-- Places the machine statements, and puts them in the order of their addresses. -/
def Session.generate (s : Session) (machine : List MachineStatement) :
    Session × List MachineStatement :=
  let s := machine.foldl (fun s m => m.place s) s
  let sorted := machine.mergeSort MachineStatement.precedes
  ({ s with log := s.log.addAll (MachineStatement.clashes sorted) }, sorted)

end Rv32Assembler
