import Rv32Assembler.Outcome
import Rv32Assembler.Text.Quoted
import Rv32Assembler.Token.Basic
/-!
# Macro definitions

The macros of one file. A macro does not hold its body: it holds the places of the two lines around
it, and the lines between are read again at every expansion, with the arguments of the call in place
of the parameters and with its labels renamed.
-/

namespace Rv32Assembler

structure Macro where
  name : Text
  /-- The parameters with their percent signs. -/
  parameters : List Text
  /-- The labels that the body defines, in order. -/
  labels : Array Text := #[]
  /-- The place of the line that starts the definition. -/
  first : Int
  /-- The place of the line that ends it. -/
  last : Int := 0
  /-- The numbers of these lines in their files. -/
  firstLine : Int
  lastLine : Int := 0
  file : Text
  deriving DecidableEq, Repr

namespace Macro

/-- Why a definition or an expansion is refused. -/
inductive Error where
  | nested
  | noBegin
  | trailing
  | noName
  | badName (text : Text)
  | badParameter (text : Text)
  /-- The line is not in the body. -/
  | outside (index : Int) (name : Text)
  | unknownParameter (text : Text)
  /-- The call has no argument for a parameter. -/
  | missingArgument
  /-- The file has no line at this place. -/
  | missingLine
  deriving DecidableEq, Repr

def Error.message : Error → Text
  | nested => "nested macro definitions are not allowed"
  | noBegin => ".end_macro without a matching .macro"
  | trailing => "invalid text after .end_macro"
  | noName => "macro name missing"
  | badName text => "invalid macro name " ++ text.quote
  | badParameter text => "invalid macro parameter " ++ text.quote
  | outside index name =>
    "line " ++ Text.decimal index ++ " is outside macro " ++ name
  | unknownParameter text => "unknown macro parameter " ++ text
  | missingArgument => "missing macro argument"
  | missingLine => "missing macro line"

/-- The error that no call of the assembler meets: its lines and arguments are all there. -/
def Error.isFault : Error → Bool
  | missingArgument | missingLine => true
  | _ => false

def unterminatedMessage (name : Text) : Text := "macro definition has no .end_macro: " ++ name

/-- The first place from `low` to `high` whose label does not come before `name`. -/
def searchLabel (labels : Array Text) (name : Text) (low high : Nat) : Nat :=
  if low < high then
    let middle := (low + high) / 2
    if (labels[middle]?.getD []).before name then searchLabel labels name (middle + 1) high
    else searchLabel labels name low middle
  else low
termination_by high - low
decreasing_by all_goals omega

/-- Whether the body defines a label; the labels are in order. -/
def hasLabel (m : Macro) (name : Text) : Bool :=
  m.labels[searchLabel m.labels name 0 m.labels.size]? == some name

def renamed (label : Text) (counter : Int) : Text := label ++ "_M" ++ Text.decimal counter

/-- The text that stands for a token of the body in an expansion, `none` when it stays. -/
def replacement (m : Macro) (call : List Token) (counter : Int) (t : Token) :
    Except Error (Option Text) :=
  if t.kind == .macroParameter then
    match m.parameters.findIdx? fun p => p == t.text with
    | none => .error (.unknownParameter t.text)
    | some i =>
      match call[i + 1]? with
      | some argument => .ok (some argument.text)
      | none => .error .missingArgument
  else if t.kind.isLabel && m.hasLabel t.text then .ok (some (renamed t.text counter))
  else .ok none

def edits (m : Macro) (call : List Token) (counter : Int) :
    List Token → Except Error (List Text.Edit)
  | [] => .ok []
  | t :: rest => do
    let new ← m.replacement call counter t
    let edits ← m.edits call counter rest
    match new with
    | some text => return ⟨t.offset, t.stop, text⟩ :: edits
    | none => return edits

/-- The line at a place of the file. -/
def lineAt? (lines : Array TokenLine) (index : Int) : Option TokenLine :=
  if index < 0 then none else lines[index.toNat]?

/-- The text of the body line at a place of the file for one call; token 0 of the call is the
macro's name. -/
def substitute (m : Macro) (lines : Array TokenLine) (index : Int) (call : List Token)
    (counter : Int) : Except Error Text :=
  if index ≤ m.first || m.last ≤ index then .error (.outside index m.name)
  else
    match lineAt? lines index with
    | none => .error .missingLine
    | some line => (m.edits call counter line.tokens).map (line.text.splice 0 ·)

end Macro

/-- The macros of a file and the definition under way. -/
structure MacroPool where
  file : Text
  macros : List Macro := []
  /-- The macro under definition with the labels met in its body. -/
  current : Option (Macro × List Text) := none
  /-- The number of expansions so far. -/
  counter : Nat := 0
  deriving DecidableEq, Repr

namespace MacroPool

def isDefining (p : MacroPool) : Bool := p.current.isSome

/-- The parameters without the parentheses that may stand around them. -/
def bareParameters (operands : List Token) : List Token :=
  match operands with
  | left :: rest =>
    match rest.getLast? with
    | some right =>
      if left.kind == .leftParen && right.kind == .rightParen then rest.dropLast else operands
    | none => operands
  | [] => []

/-- Starts a definition at a place of the file; the operands are the name and the parameters. Gives
the pool as it is then, and why the definition is refused. -/
def start (p : MacroPool) (operands : List Token) (index : Int) : MacroPool × Option Macro.Error :=
  if p.isDefining then (p, some .nested)
  else
    match operands with
    | [] => (p, some .noName)
    | name :: rest =>
      if !name.kind.isLabel then (p, some (.badName name.text))
      else
        let parameters := bareParameters rest
        match parameters.find? fun t => t.kind != .macroParameter with
        | some t => (p, some (.badParameter t.text))
        | none =>
          let m : Macro :=
            { name := name.text, parameters := parameters.map Token.text, first := index,
              firstLine := name.line, file := p.file }
          ({ p with current := some (m, []) }, none)

/-- Records a label of the body being captured. -/
def addLabel (p : MacroPool) (name : Text) : MacroPool :=
  match p.current with
  | some (m, labels) =>
    if labels.contains name then p else { p with current := some (m, labels ++ [name]) }
  | none => p

/-- Ends the definition at a place of the file; nothing may follow on the line. Gives the pool as it
is then, and why the end is refused. -/
def finish (p : MacroPool) (index line : Int) (trailing : List Token) :
    MacroPool × Option Macro.Error :=
  match p.current with
  | none => (p, some .noBegin)
  | some (m, labels) =>
    if !trailing.isEmpty then (p, some .trailing)
    else
      let sorted := labels.mergeSort fun a b => !b.before a
      let m := { m with labels := sorted.toArray, last := index, lastLine := line }
      ({ p with macros := p.macros ++ [m], current := none }, none)

/-- The pool after a definition was started. -/
def begin (p : MacroPool) (operands : List Token) (index : Int) : Except Macro.Error MacroPool :=
  settled (p.start operands index)

/-- The pool after a definition was ended. -/
def commit (p : MacroPool) (index line : Int) (trailing : List Token) :
    Except Macro.Error MacroPool :=
  settled (p.finish index line trailing)

def abandon (p : MacroPool) : Option Macro × MacroPool :=
  (p.current.map Prod.fst, { p with current := none })

/-- The later of a macro and the best one so far. -/
def later (best : Option Macro) (m : Macro) : Option Macro :=
  match best with
  | none => some m
  | some b => if b.first < m.first then some m else some b

/-- The macro that tokens call: the name, then one token for each argument. The latest definition
wins. -/
def matching (p : MacroPool) (call : List Token) : Option Macro :=
  match call with
  | [] => none
  | name :: arguments =>
    (p.macros.filter fun m => m.name == name.text && m.parameters.length == arguments.length).foldl
      later none

def hasName (p : MacroPool) (name : Text) : Bool := p.macros.any fun m => m.name == name

/-- A number that no expansion of the file had before. -/
def nextCounter (p : MacroPool) : Nat × MacroPool :=
  (p.counter + 1, { p with counter := p.counter + 1 })

end MacroPool

end Rv32Assembler
