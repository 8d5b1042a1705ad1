import Rv32Assembler.Diagnostic
import Rv32Assembler.Token.Lexer
/-!
# Equivalences

A line `.eqv NAME value` makes the name stand for the value in all later lines of the file. The name
is replaced in the text, and the line is tokenized again, so a value may be several tokens.
-/

namespace Rv32Assembler

/-- A name that stands for a text, and the line that says so. -/
structure Equivalence where
  name : Text
  value : Text
  line : Int
  deriving DecidableEq, Repr

abbrev Equivalences := List Equivalence

def Equivalences.find? (es : Equivalences) (name : Text) : Option Equivalence :=
  List.find? (fun e => e.name == name) es

/-- The place of the directive in a line that may be a definition; `start` is the place of the first
token given. Before the directive there may be a label. -/
def equivalenceFrom? (start : Nat) : List Token → Option Nat
  | [] => none
  | t :: rest =>
    if t.kind == .directive && t.text.lower == ".eqv" then some start
    else if t.kind == .colon || (start == 0 && t.kind.isLabel) then
      equivalenceFrom? (start + 1) rest
    else none

def TokenLine.equivalence? (l : TokenLine) : Option Nat := equivalenceFrom? 0 l.tokens

/-- Why a definition is refused. -/
inductive EquivalenceError where
  | tooFew (directive : Text)
  | badSymbol (directive symbol : Text)
  | selfReference (symbol : Text)
  | duplicate (symbol : Text) (line : Int)
  | redefined (symbol value : Text) (line : Int)
  deriving DecidableEq, Repr

def EquivalenceError.message : EquivalenceError → Text
  | tooFew directive => "too few operands for " ++ directive ++ " directive"
  | badSymbol directive symbol =>
    "malformed " ++ directive ++ " directive: " ++ symbol.quote ++ " is not a valid symbol"
  | selfReference symbol => "cannot substitute " ++ symbol ++ " for itself"
  | duplicate symbol line =>
    "duplicate .eqv definition of " ++ symbol ++ " (first defined on line " ++ Text.decimal line
      ++ ")"
  | redefined symbol value line =>
    symbol ++ " already defined as " ++ value.quote ++ " on line " ++ Text.decimal line

def TokenLine.slice (l : TokenLine) (first last : Token) : Text :=
  Text.trim ((l.text.take last.stop).drop first.offset)

/-- What a line defines: nothing, an equivalence, or an error about a token. -/
def TokenLine.definition (l : TokenLine) (es : Equivalences) :
    Except (Token × EquivalenceError) (Option Equivalence) :=
  let l := l.withoutComment
  match l.equivalence? with
  | none => .ok none
  | some place =>
    match l.tokens.drop place with
    | directive :: symbol :: first :: rest =>
      if symbol.kind != .identifier then .error (symbol, .badSymbol directive.text symbol.text)
      else
        match (first :: rest).find? fun t => t.kind == .identifier && t.text == symbol.text with
        | some t => .error (t, .selfReference symbol.text)
        | none =>
          let value := l.slice first (rest.getLastD first)
          match es.find? symbol.text with
          | none => .ok (some ⟨symbol.text, value, symbol.line⟩)
          | some e =>
            if e.value == value then .error (symbol, .duplicate symbol.text e.line)
            else .error (symbol, .redefined symbol.text e.value e.line)
    | directive :: _ => .error (directive, .tooFew directive.text)
    | [] => .ok none

/-- The replacements in the tokens from place `index` on, where the token at `skip` keeps its
name. -/
def equivalenceEdits (es : Equivalences) (skip : Option Nat) (index : Nat) :
    List Token → List Text.Edit
  | [] => []
  | t :: rest =>
    let edits := equivalenceEdits es skip (index + 1) rest
    let isLabel := index == 0 && (rest.head?.map Token.kind) == some .colon
    if t.kind != .identifier || some index == skip || isLabel then edits
    else
      match es.find? t.text with
      | some e => ⟨t.offset, t.stop, e.value⟩ :: edits
      | none => edits

/-- The replacements that the equivalences make in a line. A label and the symbol that the line
defines keep their names. -/
def TokenLine.equivalenceEdits (l : TokenLine) (es : Equivalences) : List Text.Edit :=
  Rv32Assembler.equivalenceEdits es (l.equivalence?.map (· + 1)) 0 l.tokens

def lexicalMessages (note : Text) (problems : List LexicalProblem) : List Message :=
  problems.map fun (t, error) => .ofToken t error.message false note

/-- Tokenizes one line under the equivalences in force. -/
def Vocabulary.tokenizeUnder (v : Vocabulary) (es : Equivalences) (line : SourceLine) :
    TokenLine × List LexicalProblem :=
  let first := v.tokenize line
  match first.1.equivalenceEdits es with
  | [] => first
  | edits => v.tokenizeText (line.text.splice 0 edits) line

/-- Tokenizes the lines of a file from one with the equivalences `es` on. -/
def Vocabulary.tokenizeLines (v : Vocabulary) (es : Equivalences) (log : Log) :
    List SourceLine → List TokenLine × Log
  | [] => ([], log)
  | line :: lines =>
    let (tokens, problems) := v.tokenizeUnder es line
    let log := log.addAll (lexicalMessages [] problems)
    match tokens.definition es with
    | .ok defined =>
      let (rest, log) := v.tokenizeLines (es ++ defined.toList) log lines
      (tokens :: rest, log)
    | .error (t, error) =>
      let (rest, log) := v.tokenizeLines es (log.add (.ofToken t error.message false [])) lines
      (tokens :: rest, log)

/-- Tokenizes a file: one tokenized line for each of its lines. -/
def Vocabulary.tokenizeFile (v : Vocabulary) (log : Log) (lines : List SourceLine) :
    List TokenLine × Log :=
  v.tokenizeLines [] log lines

end Rv32Assembler
