import Rv32Assembler.Token.Basic
/-!
# Diagnostics

Messages are kept in the order in which they are recorded. A log holds a limited number of errors:
the first error beyond the limit is replaced by a notice, itself an error, and nothing is recorded
after it. So the log is full exactly when it has one error more than its limit.
-/

namespace Rv32Assembler

structure Message where
  file : Text := []
  /-- Not shown unless positive. -/
  line : Int := 0
  /-- Not shown unless it and the line are positive. -/
  column : Int := 0
  text : Text
  warning : Bool := false
  /-- Names the expansion that the message arose in. -/
  note : Text := []
  deriving DecidableEq, Repr

namespace Message

/-- Where the message belongs, as far as it is known. -/
def place (m : Message) : Text :=
  let column := Text.shownIf (0 < m.column) (" column " ++ Text.decimal m.column)
  Text.shownIf (!m.file.isEmpty) (" in " ++ m.file)
    ++ Text.shownIf (0 < m.line) (" line " ++ Text.decimal m.line ++ column)
    ++ Text.shownIf (!m.note.isEmpty) (" (" ++ m.note ++ ")")

def severity (m : Message) : Text := if m.warning then "Warning" else "Error"

def render (m : Message) : Text := m.severity ++ m.place ++ ": " ++ m.text

def ofToken (t : Token) (text : Text) (warning : Bool) (note : Text) : Message :=
  { file := t.file, line := t.line, column := t.column, text := text, warning := warning,
    note := note }

end Message

/-- The messages of one run, with the number of errors it may hold. -/
structure Log where
  limit : Nat
  messages : List Message := []
  deriving DecidableEq, Repr

namespace Log

def defaultLimit : Nat := 200

/-- An empty log. A limit that is not positive stands for the default. -/
def ofLimit (limit : Int) : Log := { limit := if limit ≤ 0 then defaultLimit else limit.toNat }

def errorCount (l : Log) : Nat := l.messages.countP fun m => !m.warning

def warningCount (l : Log) : Nat := l.messages.countP fun m => m.warning

def hasErrors (l : Log) : Bool := 0 < l.errorCount

def hasWarnings (l : Log) : Bool := 0 < l.warningCount

/-- The notice that ends the log has been recorded. -/
def exceeded (l : Log) : Bool := l.limit < l.errorCount

/-- Stands for the first error beyond the limit. -/
def notice (l : Log) : Message :=
  { text := "Error Limit of " ++ Text.decimal l.limit ++ " exceeded." }

def add (l : Log) (m : Message) : Log :=
  if l.exceeded then l
  else if !m.warning && l.limit ≤ l.errorCount then
    { l with messages := l.messages ++ [l.notice] }
  else { l with messages := l.messages ++ [m] }

@[simp]
theorem limit_add (l : Log) (m : Message) : (l.add m).limit = l.limit := by
  unfold add
  split
  · rfl
  · split <;> rfl

theorem add_of_exceeded {l : Log} (h : l.exceeded = true) (m : Message) : l.add m = l := by
  simp [add, h]

theorem messages_prefix_add (l : Log) (m : Message) : l.messages <+: (l.add m).messages := by
  unfold add
  split
  · exact List.prefix_refl _
  · split <;> exact List.prefix_append _ _

theorem errorCount_add_le {l : Log} (h : l.errorCount ≤ l.limit + 1) (m : Message) :
    (l.add m).errorCount ≤ l.limit + 1 := by
  unfold add
  split
  · exact h
  · rename_i hfull
    have hroom : l.errorCount ≤ l.limit := by simpa [exceeded] using hfull
    split <;> simp only [errorCount, List.countP_append, List.countP_singleton] at hroom ⊢ <;>
      split <;> omega

def addAll (l : Log) (ms : List Message) : Log := ms.foldl add l

/-- Records the messages of another log. -/
def merge (l other : Log) : Log := l.addAll other.messages

def lines (l : Log) (warning : Bool) : Text :=
  (l.messages.filter fun m => m.warning == warning).flatMap fun m => m.render ++ [0x0a]

def errorReport (l : Log) : Text := l.lines false

def warningReport (l : Log) : Text := l.lines true

/-- Warnings, then errors, then their numbers. -/
def report (l : Log) : Text :=
  l.warningReport ++ l.errorReport ++ Text.decimal l.errorCount ++ " error(s), "
    ++ Text.decimal l.warningCount ++ " warning(s)\n"

end Log

end Rv32Assembler
