import Rv32Assembler.Text.Basic
/-!
# Call stacks

The source lines of the macro calls under expansion, innermost first. A line is never on the stack
twice, so a call that leads back to itself is refused.
-/

namespace Rv32Assembler

structure CallStack where
  lines : List Int := []
  deriving DecidableEq, Repr

namespace CallStack

/-- The call of a line that is being expanded already. -/
def loopMessage : Text := "detected a macro expansion loop (recursive reference)"

/-- Records the call of a line, `none` when that line is on the stack. -/
def push? (s : CallStack) (line : Int) : Option CallStack :=
  if s.lines.contains line then none else some ⟨line :: s.lines⟩

theorem push?_eq_none_iff {s : CallStack} {line : Int} : s.push? line = none ↔ line ∈ s.lines := by
  simp [push?]

theorem lines_of_push? {s inner : CallStack} {line : Int} (h : s.push? line = some inner) :
    inner.lines = line :: s.lines := by
  unfold push? at h
  split at h
  · cases h
  · cases h
    rfl

def pop (s : CallStack) : CallStack := ⟨s.lines.tail⟩

theorem pop_of_push? {s inner : CallStack} {line : Int} (h : s.push? line = some inner) :
    inner.pop = s := by
  simp [pop, lines_of_push? h]

def depth (s : CallStack) : Nat := s.lines.length

end CallStack

end Rv32Assembler
