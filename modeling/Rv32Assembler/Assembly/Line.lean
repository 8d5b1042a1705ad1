import Rv32Assembler.Assembly.Execute
import Rv32Assembler.Token.Equivalence
/-!
# Reading lines

The first pass over one line: its labels, then a directive, a macro call, more data or an
instruction. A macro call reads the lines of its body in turn. Such calls nest, and they end
because the call stack never holds a line twice: with every call fewer lines of the file are left
that are not on it.
-/

namespace Rv32Assembler

/-- An outcome that the parts of the assembler can have and that no source leads to. -/
inductive Fault where
  /-- A macro without a line or an argument that it needs. -/
  | expansion (error : Macro.Error)
  /-- A call from a line that is not in the file. -/
  | strayLine
  /-- An instruction without an operand that its encoding needs. -/
  | missingOperand
  deriving DecidableEq, Repr

/-- What stays the same while a file is read. -/
structure Scope where
  config : Config
  isa : Registry
  /-- The place of the file among those assembled. -/
  unit : Nat
  lines : Array TokenLine

namespace Scope

/-- The number of lines whose numbers are not on the call stack. -/
def room (s : Scope) (stack : CallStack) : Nat :=
  (s.lines.toList.filter fun l => !stack.lines.contains l.source.line).length

def vocabulary (s : Scope) : Vocabulary := s.isa.vocabulary true

end Scope

namespace Reading

/-- Puts a label at the cursor, or adds it to the macro under definition. -/
def defineLabel (r : Reading) (note : Text) (t : Token) : Reading :=
  if r.pool.isDefining then { r with pool := r.pool.addLabel t.text }
  else
    match r.labels.add ⟨t.text, r.cursors.here, r.cursors.segment.isData⟩ with
    | .ok labels => { r with labels := labels }
    | .error e => r.report note t (.duplicateLabel e)

/-- Defines the labels at the start of a line; the rest of the line comes back. -/
def defineLabels (r : Reading) (note : Text) : List Token → Reading × List Token
  | label :: colon :: rest =>
    if label.kind.isLabel && colon.kind == .colon then
      (r.defineLabel note label).defineLabels note rest
    else (r, label :: colon :: rest)
  | tokens => (r, tokens)

/-- A token that may go on with data. -/
def continuesData (t : Token) : Bool :=
  t.kind == .plus || t.kind == .minus || t.kind == .quotedString || t.kind == .identifier
    || t.kind == .realNumber || t.kind.isInteger

/-- A call without the parentheses that may stand around its arguments. -/
def bareCall (tokens : List Token) : List Token :=
  match tokens with
  | name :: left :: rest =>
    match rest.getLast? with
    | some right =>
      if left.kind == .leftParen && right.kind == .rightParen then name :: rest.dropLast else tokens
    | none => tokens
  | _ => tokens

/-- The macro that a line calls, and the call as a name and arguments. -/
def called? (r : Reading) (tokens : List Token) : Option (Macro × List Token) :=
  match tokens with
  | [] => none
  | name :: _ =>
    if name.kind.isLabel then
      match r.pool.matching (bareCall tokens) with
      | some m => some (m, bareCall tokens)
      | none => (r.pool.matching tokens).map fun m => (m, tokens)
    else none

/-- Names an expansion in messages and statements. -/
def expansionNote (m : Macro) (line : Int) : Text :=
  "in macro " ++ m.name ++ " expanded at line " ++ Text.decimal line

/-- The places of the body lines. -/
def bodyIndices (m : Macro) : List Int :=
  (List.range (m.last - m.first - 1).toNat).map fun i : Nat => m.first + 1 + i

def readInstruction (r : Reading) (s : Scope) (note : Text) (tokenLine : TokenLine)
    (operator : Token) (operands : List Token) : Reading :=
  if operator.kind != .operator then
    if r.pool.hasName operator.text then r.report note operator (.badCall operator.text)
    else r.report note operator (.unknownOperator operator.text)
  else
    match Instruction.select (s.isa.lookup operator.text) operands with
    | none => r.report note operator (.unknownOperator operator.text)
    | some form =>
      if form.isExtended && !s.config.pseudo then
        r.report note operator (.pseudoRefused form.sample)
      else
        match form.check operator operands with
        | some (t, e) => r.report note t (.operand e)
        | none =>
          let segment := r.cursors.textSegment
          let address := r.cursors.get segment
          let statement : Statement :=
            { source := some tokenLine.source, unit := s.unit, tokenLine := tokenLine,
              line := tokenLine.source, operator := operator, operands := operands,
              address := address, instruction := form, note := note }
          { r with
            cursors := r.cursors.set segment (address + BitVec.ofNat 32 form.size)
            parsed := r.parsed ++ [statement] }

def readPlain (r : Reading) (s : Scope) (note : Text) (tokenLine : TokenLine) (first : Token)
    (rest : List Token) : Reading :=
  if first.kind == .identifier && first.text.head? == some 0x2e then
    r.report note first (.ignoredDirective first.text)
  else if r.cursors.segment.isData && continuesData first then
    match r.cursors.directive with
    | some d => r.storeData note d (first :: rest)
    | none => r.report note first .dataWithoutDirective
  else if r.cursors.segment.isData && first.kind == .operator then
    r.report note first (.instructionInData first.text)
  else r.readInstruction s note tokenLine first rest

/-- Reads the line that a macro's body has at place `i` for one call, by way of `next`. -/
def expandLine (s : Scope) (m : Macro) (call : List Token) (counter : Int) (note : Text)
    (next : Int → TokenLine → Reading → Except Fault Reading) (r : Reading) (i : Int) :
    Except Fault Reading :=
  if r.log.exceeded then .ok r
  else
    match Macro.lineAt? s.lines i with
    | none => .error (.expansion .missingLine)
    | some body =>
      match m.substitute s.lines i call counter with
      | .error e =>
        if e.isFault then .error (.expansion e)
        else
          .ok (r.record { file := body.source.file, line := body.source.line, text := e.message })
      | .ok text =>
        let (line, problems) :=
          s.vocabulary.tokenize ⟨text, body.source.file, body.source.line⟩
        next i line { r with log := r.log.addAll (lexicalMessages note problems) }

/-- Reads a tokenized line, which is the one at place `index` or a line of a macro body made from
it. `stack` and `note` tell the calls under expansion. -/
def readLine (s : Scope) (stack : CallStack) (note : Text) (index : Int) (tokenLine : TokenLine)
    (r : Reading) : Except Fault Reading :=
  let tokens := tokenLine.withoutComment.tokens
  if tokens.any fun t => t.kind == .error then .ok r
  else
    let (r, tokens) := r.defineLabels note tokens
    match tokens with
    | [] => .ok r
    | first :: rest =>
      if first.kind == .directive then .ok (r.execute note index first rest)
      else if r.pool.isDefining then .ok r
      else
        match r.called? (first :: rest) with
        | none => .ok (r.readPlain s note tokenLine first rest)
        | some (m, call) =>
          match stack.push? tokenLine.source.line with
          | none => .ok (r.report note first .expansionLoop)
          | some inner =>
            if _h : s.room inner < s.room stack then
              let (counter, pool) := r.pool.nextCounter
              let innerNote := expansionNote m tokenLine.source.line
              (bodyIndices m).foldlM
                (expandLine s m call counter innerNote (readLine s inner innerNote))
                { r with pool := pool }
            else .error .strayLine
termination_by s.room stack

end Reading

end Rv32Assembler
