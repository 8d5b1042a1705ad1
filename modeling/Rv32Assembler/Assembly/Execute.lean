import Rv32Assembler.Assembly.Data
/-!
# Executing directives

What each directive does to the state of the first pass. While a macro is being defined only the
directives that delimit definitions count.
-/

namespace Rv32Assembler.Reading

def maxAlign : Int := 31

/-- Switches to a segment. An address operand moves its cursor. -/
def selectSegment (r : Reading) (note : Text) (directive : Token) (operands : List Token)
    (segment : Segment) : Reading :=
  let r := { r with cursors := { r.cursors with segment := segment, autoAlign := true } }
  match operands with
  | [] => r
  | first :: rest =>
    if rest.isEmpty && first.kind.isInteger then
      { r with cursors := r.cursors.set segment (BitVec.ofInt 32 first.value) }
    else r.report note first (.segmentOperands directive.text)

/-- Switches to the segment that a section name stands for. -/
def selectSection (r : Reading) (note : Text) (directive : Token) (operands : List Token) :
    Reading :=
  match operands with
  | [operand] =>
    let name := operand.text.trimBytes fun b => b == 0x22
    let starts (stem : Text) : Bool := stem.isPrefixOf name
    if starts ".data" || starts ".rodata" || starts ".sdata" then
      r.selectSegment note directive [] ⟨true, false⟩
    else if starts ".text" then r.selectSegment note directive [] ⟨false, false⟩
    else r.report note operand (.ignoredSection name)
  | _ => r.report note directive .sectionOperands

/-- Aligns the current segment. In a text segment the least alignment is a word; in a data segment
the exponent zero turns automatic alignment off. -/
def executeAlign (r : Reading) (note : Text) (directive : Token) (operands : List Token) :
    Reading :=
  match operands with
  | [operand] =>
    let n := operand.value
    if !operand.kind.isInteger || n < 0 then r.report note directive .alignOperands
    else if maxAlign < n then r.report note operand (.alignRange n)
    else if !r.cursors.segment.isData then
      let r := if n < 2 then r.report note operand (.alignRounded n) else r
      r.align r.cursors.textSegment (1 <<< (max n 2).toNat)
    else if n == 0 then { r with cursors := { r.cursors with autoAlign := false } }
    else r.align r.cursors.dataSegment (1 <<< n.toNat)
  | _ => r.report note directive .alignOperands

/-- Reserves bytes without storing any. -/
def executeSpace (r : Reading) (note : Text) (directive : Token) (operands : List Token) :
    Reading :=
  if !r.cursors.segment.isData then r.report note directive (.directiveInText .space)
  else
    match operands with
    | [operand] =>
      if operand.kind.isInteger && 0 ≤ operand.value then r.advanceData operand.value.toNat
      else r.report note directive .spaceOperands
    | _ => r.report note directive .spaceOperands

/-- Reserves external data for a global label; the first declaration of a label wins. -/
def executeExternal (r : Reading) (note : Text) (directive : Token) (operands : List Token) :
    Reading :=
  match operands with
  | [label, size] =>
    if label.kind.isLabel && size.kind.isInteger && 0 ≤ size.value then
      match r.global.add ⟨label.text, r.cursors.external, true⟩ with
      | .error _ => r
      | .ok global =>
        let next := r.cursors.external + BitVec.ofInt 32 size.value
        { r with global := global, cursors := { r.cursors with external := next } }
    else r.report note directive .externalOperands
  | _ => r.report note directive .externalOperands

/-- Notes labels to be made global at the end of the file. -/
def executeGlobal (r : Reading) (note : Text) (d : Directive) (directive : Token)
    (operands : List Token) : Reading :=
  if operands.isEmpty then r.report note directive (.noGlobalLabel d)
  else
    operands.foldl (fun r t =>
      if t.kind.isLabel then { r with exported := r.exported ++ [t] }
      else r.report note t (.badGlobalLabel t.text d)) r

/-- Takes over the pool that a step of a definition leaves, and records why the step was refused. -/
def define (r : Reading) (note : Text) (t : Token) (outcome : MacroPool × Option Macro.Error) :
    Reading :=
  let r := { r with pool := outcome.1 }
  match outcome.2 with
  | some e => r.report note t (.definition e)
  | none => r

def executeBegin (r : Reading) (note : Text) (index : Int) (directive : Token)
    (operands : List Token) : Reading :=
  r.define note directive (r.pool.start operands index)

def executeEnd (r : Reading) (note : Text) (index : Int) (directive : Token)
    (operands : List Token) : Reading :=
  r.define note directive (r.pool.finish index directive.line operands)

/-- Stores data, in a data segment. Continuation lines will repeat the directive either way. -/
def executeData (r : Reading) (note : Text) (d : Directive) (directive : Token)
    (operands : List Token) : Reading :=
  let r := { r with cursors := { r.cursors with directive := some d } }
  if r.cursors.segment.isData then r.storeData note d operands
  else r.report note directive (.directiveInText d)

def executePlain (r : Reading) (note : Text) (index : Int) (d : Directive) (directive : Token)
    (operands : List Token) : Reading :=
  match d with
  | .data => r.selectSegment note directive operands ⟨true, false⟩
  | .kernelData => r.selectSegment note directive operands ⟨true, true⟩
  | .text => r.selectSegment note directive operands ⟨false, false⟩
  | .kernelText => r.selectSegment note directive operands ⟨false, true⟩
  | .namedSection => r.selectSection note directive operands
  | .word | .half | .byte | .doubleWord | .float | .double | .ascii | .asciz | .string =>
    r.executeData note d directive operands
  | .align => r.executeAlign note directive operands
  | .space => r.executeSpace note directive operands
  | .external => r.executeExternal note directive operands
  | .globl | .global => r.executeGlobal note d directive operands
  | .equivalence => r
  | .beginMacro => r.executeBegin note index directive operands
  | .endMacro => r.executeEnd note index directive operands
  | .includeFile => r.report note directive .includeLine

/-- Executes the directive of a line at a place of the file. -/
def execute (r : Reading) (note : Text) (index : Int) (directive : Token) (operands : List Token) :
    Reading :=
  match Directive.ofName? directive.text with
  | none => r.report note directive (.unrecognizedDirective directive.text)
  | some d =>
    if r.pool.isDefining then
      if d == .beginMacro then r.executeBegin note index directive operands
      else if d == .endMacro then r.executeEnd note index directive operands
      else r
    else r.executePlain note index d directive operands

end Rv32Assembler.Reading
