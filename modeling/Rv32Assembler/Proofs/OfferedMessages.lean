import Rv32Assembler.Proofs.Truncation
/-!
# Offered messages

What a log holds after any calls depends on the messages that they offer to it, one after the other, and
on the limit (`log_of_calls`): all of them where they have no more errors than the limit, and otherwise
those before the first error beyond it and one notice. It does not matter which calls they come from,
nor that a log which is merged into another may hold a notice of its own.

The numbers of a log are read off its messages. Keeping them beside the messages and bringing them up to
date with each message comes to the same (`Tally`).
-/

namespace Rv32Assembler

theorem errorsIn_append (ms more : List Message) :
    errorsIn (ms ++ more) = errorsIn ms + errorsIn more := List.countP_append

theorem exists_eq_beforeError_append {k : Nat} {ms : List Message} (h : k < errorsIn ms) :
    ∃ m after, ms = beforeError k ms ++ m :: after ∧ m.warning = false := by
  induction ms generalizing k with
  | nil => simp [errorsIn] at h
  | cons m ms ih =>
    rw [errorsIn_cons] at h
    cases hwarning : m.warning with
    | true =>
      simp only [hwarning, if_true] at h
      obtain ⟨x, after, hms, hx⟩ := ih h
      exact ⟨x, after, by simp [beforeError, hwarning, ← hms], hx⟩
    | false =>
      simp only [hwarning, Bool.false_eq_true, if_false] at h
      cases k with
      | zero => exact ⟨m, ms, by simp [beforeError, hwarning], hwarning⟩
      | succ k =>
        obtain ⟨x, after, hms, hx⟩ := ih (by omega : k < errorsIn ms)
        exact ⟨x, after, by simp [beforeError, hwarning, ← hms], hx⟩

namespace Log

/-! ### Messages one after the other -/

theorem add_of_le {l : Log} {m : Message} (h : l.errorCount + errorsIn [m] ≤ l.limit) :
    l.add m = { l with messages := l.messages ++ [m] } := by
  rw [errorsIn_cons] at h
  cases hwarning : m.warning with
  | true =>
    refine add_of_warning ?_ hwarning
    simp only [exceeded, decide_eq_false_iff_not]
    omega
  | false =>
    rw [hwarning] at h
    change l.errorCount + 1 ≤ l.limit at h
    exact add_of_lt h m

theorem addAll_of_le {l : Log} {ms : List Message} (h : l.errorCount + errorsIn ms ≤ l.limit) :
    l.addAll ms = { l with messages := l.messages ++ ms } := by
  induction ms generalizing l with
  | nil => simp [addAll]
  | cons m ms ih =>
    have hsplit : errorsIn (m :: ms) = errorsIn [m] + errorsIn ms := errorsIn_append [m] ms
    have hcount : errorCount { l with messages := l.messages ++ [m] } = l.errorCount + errorsIn [m] :=
      errorsIn_append l.messages [m]
    have hrest : errorCount { l with messages := l.messages ++ [m] } + errorsIn ms ≤ l.limit := by
      omega
    have hstep : l.addAll (m :: ms) = (l.add m).addAll ms := rfl
    rw [hstep, add_of_le (by omega), ih hrest]
    simp

theorem addAll_empty (k : Nat) (ms : List Message) :
    (⟨k, []⟩ : Log).addAll ms = cut k ⟨k, ms⟩ := by
  -- A log with room for all of them, cut where the limit is.
  have hroom : (⟨k + errorsIn ms, []⟩ : Log).addAll ms = ⟨k + errorsIn ms, ms⟩ :=
    addAll_of_le (by simp [errorCount])
  have hcut := cut_addAll (l := ⟨k + errorsIn ms, []⟩) (Nat.le_add_right ..) ms
  rw [hroom, cut_of_le (l := ⟨k + errorsIn ms, []⟩) (Nat.zero_le _)] at hcut
  exact hcut.symm

theorem exceeded_cut_iff (k : Nat) (l : Log) :
    (l.cut k).exceeded = true ↔ (l.cut k).errorCount = k + 1 := by
  rw [exceeded_cut, decide_eq_true_eq]
  by_cases h : k < l.errorCount
  · simp [h, errorCount_cut_of_lt h]
  · have hsame : (l.cut k).errorCount = l.errorCount := by
      rw [cut_of_le (by omega)]
      rfl
    omega

/-! ### Counting along -/

structure Tally where
  limit : Nat
  messages : List Message := []
  errors : Nat := 0
  warnings : Nat := 0
  exceeded : Bool := false
  deriving DecidableEq, Repr

def Tally.add (t : Tally) (m : Message) : Tally :=
  if t.exceeded then t
  else if !m.warning && t.limit ≤ t.errors then
    { t with
      exceeded := true, messages := t.messages ++ [notice ⟨t.limit, []⟩], errors := t.errors + 1 }
  else if m.warning then { t with messages := t.messages ++ [m], warnings := t.warnings + 1 }
  else { t with messages := t.messages ++ [m], errors := t.errors + 1 }

def tally (l : Log) : Tally := ⟨l.limit, l.messages, l.errorCount, l.warningCount, l.exceeded⟩

theorem tally_append (l : Log) (m : Message) :
    tally { l with messages := l.messages ++ [m] }
      = ⟨l.limit, l.messages ++ [m], l.errorCount + if m.warning then 0 else 1,
          l.warningCount + if m.warning then 1 else 0,
          decide (l.limit < l.errorCount + if m.warning then 0 else 1)⟩ := by
  cases hwarning : m.warning <;> simp [tally, exceeded, errorCount, warningCount, hwarning]

theorem tally_add (l : Log) (m : Message) : (l.add m).tally = l.tally.add m := by
  have hfull : l.tally.exceeded = l.exceeded := rfl
  have hnumber : l.tally.errors = l.errorCount := rfl
  have hlimit : l.tally.limit = l.limit := rfl
  rw [add, Tally.add, hfull, hnumber, hlimit]
  cases hroom : l.exceeded with
  | true => rfl
  | false =>
    simp only [Bool.false_eq_true, if_false]
    have hle : l.errorCount ≤ l.limit := by simpa [exceeded] using hroom
    split
    · rename_i hlast
      simp only [Bool.and_eq_true, decide_eq_true_eq] at hlast
      have hover : decide (l.limit < l.errorCount + 1) = true := decide_eq_true (by omega)
      have hnotice : l.notice.warning = false := rfl
      rw [tally_append]
      simp only [hnotice, Bool.false_eq_true, if_false, Nat.add_zero, hover]
      rfl
    · rename_i hlast
      rw [tally_append]
      cases hwarning : m.warning with
      | true =>
        have hkept : decide (l.limit < l.errorCount) = false := decide_eq_false (by omega)
        simp only [if_true, Nat.add_zero, hkept]
        rw [tally, hroom]
      | false =>
        have hlt : l.errorCount < l.limit := by
          simp only [hwarning, Bool.not_false, Bool.true_and, decide_eq_true_eq] at hlast
          omega
        have hkept : decide (l.limit < l.errorCount + 1) = false := decide_eq_false (by omega)
        simp only [Bool.false_eq_true, if_false, Nat.add_zero, hkept]
        rw [tally, hroom]

theorem tally_addAll (l : Log) (ms : List Message) :
    (l.addAll ms).tally = ms.foldl Tally.add l.tally := by
  induction ms generalizing l with
  | nil => rfl
  | cons m ms ih =>
    rw [List.foldl_cons, ← tally_add]
    exact ih (l.add m)

theorem warningReport_append_errorReport (l : Log) :
    l.warningReport ++ l.errorReport
      = ((l.messages.filter fun m => m.warning) ++ l.messages.filter fun m => !m.warning).flatMap
          fun m => m.render ++ [0x0a] := by
  simp only [warningReport, errorReport, lines, beq_true, beq_false, List.flatMap_append]

/-! ### Calls -/

inductive Call where
  | add (m : Message)
  | error (file : Text) (line column : Int) (text : Text)
  | warn (file : Text) (line column : Int) (text : Text)
  | merge (other : Log)

/-- The messages that a call offers. -/
def Call.offered : Call → List Message
  | .add m => [m]
  | .error file line column text =>
    [{ file := file, line := line, column := column, text := text }]
  | .warn file line column text =>
    [{ file := file, line := line, column := column, text := text, warning := true }]
  | .merge other => other.messages

def call (l : Log) : Call → Log
  | .add m => l.add m
  | .error file line column text =>
    l.add { file := file, line := line, column := column, text := text }
  | .warn file line column text =>
    l.add { file := file, line := line, column := column, text := text, warning := true }
  | .merge other => l.merge other

theorem call_eq (l : Log) (c : Call) : l.call c = l.addAll c.offered := by
  cases c <;> rfl

theorem foldl_call (l : Log) (calls : List Call) :
    calls.foldl call l = l.addAll (calls.flatMap Call.offered) := by
  induction calls generalizing l with
  | nil => rfl
  | cons c calls ih =>
    rw [List.foldl_cons, ih, call_eq, addAll_addAll, List.flatMap_cons]

/-- After any calls, a log holds the messages that were offered to it if they have no more errors than
its limit, and otherwise those before the first error beyond it and a notice. Its numbers are those of
its messages, also when they are kept along with them, it is full if it has one error more than its
limit, and its report lists its warnings and then its errors, each in their order. -/
theorem log_of_calls {k : Nat} (hk : 0 < k) (calls : List Call) :
    let l := calls.foldl call (ofLimit k)
    let ms := calls.flatMap Call.offered
    let warnings := l.messages.filter fun m => m.warning
    let errors := l.messages.filter fun m => !m.warning
    (l.messages = if errorsIn ms ≤ k then ms
      else beforeError k ms ++ [{ text := "Error Limit of " ++ Text.decimal k ++ " exceeded." }]) ∧
    (k < errorsIn ms → ∃ m after, ms = beforeError k ms ++ m :: after ∧ m.warning = false ∧
      errorsIn (beforeError k ms) = k) ∧
    l.errorCount = errors.length ∧ l.warningCount = warnings.length ∧
    (l.exceeded = true ↔ l.errorCount = k + 1) ∧
    ms.foldl Tally.add { limit := k }
      = ⟨k, l.messages, l.errorCount, l.warningCount, l.exceeded⟩ ∧
    l.report = ((warnings ++ errors).flatMap fun m => m.render ++ [0x0a] : Text)
      ++ Text.decimal errors.length ++ (" error(s), " : Text) ++ Text.decimal warnings.length
      ++ (" warning(s)\n" : Text) := by
  intro l ms warnings errors
  have hstart : ofLimit k = ⟨k, []⟩ := by
    simp only [ofLimit, if_neg (by omega : ¬ (k : Int) ≤ 0), Int.toNat_natCast]
  have hl : l = (⟨k, []⟩ : Log).addAll ms := by
    change calls.foldl call (ofLimit k) = _
    rw [foldl_call, hstart]
  have hcut : l = cut k ⟨k, ms⟩ := hl.trans (addAll_empty k ms)
  have herrors : l.errorCount = errors.length := List.countP_eq_length_filter
  have hwarnings : l.warningCount = warnings.length := List.countP_eq_length_filter
  refine ⟨congrArg messages hcut, fun h => ?_, herrors, hwarnings, ?_, ?_, ?_⟩
  · obtain ⟨m, after, hms, hm⟩ := exists_eq_beforeError_append h
    exact ⟨m, after, hms, hm, errorsIn_beforeError h⟩
  · rw [hcut]
    exact exceeded_cut_iff k _
  · have hempty : (⟨k, []⟩ : Log).tally = { limit := k } := by
      simp [tally, exceeded, errorCount, warningCount]
    have htally := tally_addAll ⟨k, []⟩ ms
    rw [← hl, hempty] at htally
    rw [← htally, tally, hcut]
    rfl
  · rw [report, herrors, hwarnings, warningReport_append_errorReport]

/-- A warning, an error, the merge of a log that has an error and a notice of its own, and a warning
that comes too late. -/
def mergingCalls : List Call :=
  [.warn "a.s" 1 0 "odd", .error "a.s" 2 3 "bad",
    .merge ⟨1, [{ file := "b.s", line := 4, text := "worse" }, notice ⟨1, []⟩]⟩,
    .warn "a.s" 9 0 "late"]

theorem log_of_mergingCalls :
    0 < 1 ∧
      let l := mergingCalls.foldl call (ofLimit (1 : Nat))
      l.messages.map Message.text = ["odd", "bad", "Error Limit of 1 exceeded."] ∧
      l.exceeded = true ∧
      l.report = ("Warning in a.s line 1: odd\nError in a.s line 2 column 3: bad\n"
        ++ "Error: Error Limit of 1 exceeded.\n2 error(s), 1 warning(s)\n" : Text) := by
  obtain ⟨hmessages, -, -, -, hexceeded, -, hreport⟩ := log_of_calls Nat.one_pos mergingCalls
  refine ⟨Nat.one_pos, ?_, hexceeded.2 (by decide +kernel), hreport.trans (by decide +kernel)⟩
  rw [hmessages]
  decide +kernel

end Log

end Rv32Assembler
