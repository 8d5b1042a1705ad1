import Rv32Assembler.Assembly.State
/-!
# Logs without errors

A log that is free of errors in the end was free of errors all along, and only warnings were offered
to it. That holds although a log drops messages beyond its limit: what it drops then is preceded by
an error that it keeps. So a run that succeeds took no step that reports an error.
-/

namespace Rv32Assembler

namespace Log

theorem hasErrors_of_exceeded {l : Log} (h : l.exceeded = true) : l.hasErrors = true := by
  simp only [exceeded, hasErrors, decide_eq_true_eq] at h ⊢
  omega

theorem exceeded_of_hasErrors_eq_false {l : Log} (h : l.hasErrors = false) :
    l.exceeded = false := by
  cases hfull : l.exceeded with
  | false => rfl
  | true =>
    rw [hasErrors_of_exceeded hfull] at h
    cases h

theorem hasErrors_add_eq_false_iff {l : Log} {m : Message} :
    (l.add m).hasErrors = false ↔ l.hasErrors = false ∧ m.warning = true := by
  unfold add
  split
  · rename_i hfull
    simp [hasErrors_of_exceeded hfull]
  · split
    · rename_i hlast
      have herror : m.warning = false := by
        cases hw : m.warning <;> simp [hw] at hlast ⊢
      simp [hasErrors, errorCount, notice, herror]
    · cases hw : m.warning <;> simp [hasErrors, errorCount, hw]

theorem hasErrors_addAll_eq_false_iff {l : Log} {ms : List Message} :
    (l.addAll ms).hasErrors = false ↔ l.hasErrors = false ∧ ∀ m ∈ ms, m.warning = true := by
  induction ms generalizing l with
  | nil => simp [addAll]
  | cons m ms ih =>
    have hstep : l.addAll (m :: ms) = (l.add m).addAll ms := rfl
    rw [hstep, ih, hasErrors_add_eq_false_iff, List.forall_mem_cons, and_assoc]

end Log

end Rv32Assembler
