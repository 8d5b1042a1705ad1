/-!
# Outcomes

A change of a state that may be refused comes with the state that it leaves, refused or not, and with
the reason if it was refused.
-/

namespace Rv32Assembler

variable {σ ε : Type}

/-- The state that a change leaves, or why it was refused. -/
def settled (outcome : σ × Option ε) : Except ε σ :=
  match outcome with
  | (s, none) => .ok s
  | (_, some e) => .error e

theorem settled_eq_ok_iff {outcome : σ × Option ε} {s : σ} :
    settled outcome = .ok s ↔ outcome = (s, none) := by
  obtain ⟨_, _ | _⟩ := outcome <;> simp [settled]

end Rv32Assembler
