import Mathlib.Data.List.Forall2
import Rv32Assembler.Assembly.Program
import Rv32Assembler.Proofs.Log
/-!
# Resolving statements

What the second pass makes of a statement when it makes anything: a basic statement for each word
that the first pass reserved, at consecutive addresses. A statement of which it makes nothing leaves
an error in the log, so a pass that ends without errors has resolved every statement of every file
(`resolveUnits_of_clean`).
-/

namespace Rv32Assembler

theorem exists_of_bind_eq_ok {α β ε : Type} {x : Except ε α} {f : α → Except ε β} {y : β}
    (h : x >>= f = .ok y) : ∃ a, x = .ok a ∧ f a = .ok y := by
  cases x with
  | error e => cases h
  | ok a => exact ⟨a, rfl, h⟩

theorem mapM_eq_ok_iff {α β ε : Type} {f : α → Except ε β} {xs : List α} {ys : List β} :
    xs.mapM f = .ok ys ↔ List.Forall₂ (fun x y => f x = .ok y) xs ys := by
  induction xs generalizing ys with
  | nil => simp [pure, Except.pure, eq_comm]
  | cons x xs ih =>
    rw [List.mapM_cons]
    cases ys with
    | nil => cases f x <;> cases xs.mapM f <;> simp [bind, Except.bind, pure, Except.pure]
    | cons y ys =>
      rw [List.forall₂_cons, ← ih]
      cases f x <;> cases xs.mapM f <;> simp [bind, Except.bind, pure, Except.pure]

theorem exists_of_mapM_eq_error {α β ε : Type} {f : α → Except ε β} {xs : List α} {e : ε}
    (h : xs.mapM f = .error e) : ∃ x ∈ xs, f x = .error e := by
  induction xs with
  | nil => cases h
  | cons x xs ih =>
    rw [List.mapM_cons] at h
    cases hx : f x with
    | error e' =>
      rw [hx] at h
      cases h
      exact ⟨x, List.mem_cons_self .., hx⟩
    | ok y =>
      rw [hx] at h
      cases hxs : xs.mapM f with
      | error e' =>
        simp only [hxs, bind, Except.bind] at h
        cases h
        obtain ⟨x', hmem, hx'⟩ := ih hxs
        exact ⟨x', List.mem_cons_of_mem _ hmem, hx'⟩
      | ok ys =>
        simp only [hxs, bind, Except.bind] at h
        cases h

theorem exists_of_forall₂ {α β : Type} {R : α → β → Prop} {xs : List α} {ys : List β}
    (h : List.Forall₂ R xs ys) {x : α} (hx : x ∈ xs) : ∃ y ∈ ys, R x y := by
  induction h with
  | nil => cases hx
  | cons hxy _ ih =>
    rcases List.mem_cons.1 hx with rfl | hx
    · exact ⟨_, List.mem_cons_self .., hxy⟩
    · obtain ⟨y, hy, hr⟩ := ih hx
      exact ⟨y, List.mem_cons_of_mem _ hy, hr⟩

theorem Instruction.mem_of_select {forms : List Instruction} {operands : List Token} {i : Instruction}
    (h : select forms operands = some i) : i ∈ forms := by
  unfold select at h
  rcases Option.or_eq_some_iff.1 h with h | ⟨-, h⟩
  · exact List.mem_of_find?_eq_some h
  · exact List.mem_of_mem_head? h

namespace Statement

/-- The machine statements are the statement's words: basic ones at consecutive addresses, each with
the file, the line and the note of the statement. -/
structure ExpandsTo (s : Statement) (machine : List MachineStatement) : Prop where
  addresses :
    machine.map (fun m => m.address)
      = (List.range s.instruction.wordCount).map fun i => s.address + BitVec.ofNat 32 (4 * i)
  basic : ∀ m ∈ machine, m.instruction.isExtended = false
  origin : ∀ m ∈ machine, m.unit = s.unit ∧ m.tokenLine = s.tokenLine ∧ m.note = s.note

theorem encode_eq_ok {s : Statement} {registers : RegisterFile} {names : Names} {relative : Bool}
    {encoding : Encoding} {m : MachineStatement}
    (h : s.encode registers names relative encoding = .ok m) :
    ∃ o, s.operands.foldlM (s.readOperand registers names relative) {} = .ok o ∧
      encoding.encode o.values = .ok m.code ∧ m.toStatement = s := by
  unfold encode at h
  cases ho : s.operands.foldlM (s.readOperand registers names relative) {} with
  | error e =>
    rw [ho] at h
    cases h
  | ok o =>
    simp only [ho, bind, Except.bind] at h
    split at h
    · cases h
    · cases h
    · rename_i code hcode
      cases h
      exact ⟨o, rfl, hcode, rfl⟩

theorem expandTemplate_eq_ok {s : Statement} {isa : Registry} {names : Names} {template : Text}
    {i : Nat} {m : MachineStatement} (h : s.expandTemplate isa names template i = .ok m) :
    ∃ text operator operands line form relative encoding,
      Template.fill template s.tokens s.address
          (fun name => (names.address? name).map fun a => a.toNat) isa.registers = .ok text ∧
      (isa.vocabulary true).tokenize ⟨text, s.line.file, s.line.line⟩
        = (⟨operator :: operands, text, line⟩, []) ∧
      operator.kind = .operator ∧
      Instruction.select (isa.lookup operator.text) operands = some form ∧
      form.meaning = .basic relative encoding ∧ form.check operator operands = none ∧
      ({ s with
          source := if i = 0 then s.source else none
          line := line, operator := operator, operands := operands
          address := s.address + BitVec.ofNat 32 (4 * i), instruction := form } : Statement).encode
        isa.registers names relative encoding = .ok m := by
  unfold expandTemplate at h
  cases hfill : Template.fill template s.tokens s.address
      (fun name => (names.address? name).map fun a => a.toNat) isa.registers with
  | error e => cases e <;> simp only [hfill, bind, Except.bind] at h <;> cases h
  | ok text =>
    simp only [hfill, bind, Except.bind] at h
    split at h
    · rename_i operator operands text' line htokens
      split at h
      · cases h
      · rename_i hkind
        split at h
        · rename_i form hselect
          split at h
          · rename_i relative encoding hmeaning
            split at h
            · cases h
            · rename_i hcheck
              have htext : text' = text :=
                (congrArg (fun result => result.1.text) htokens).symm
              subst htext
              exact ⟨_, operator, operands, line, form, relative, encoding, rfl, htokens,
                by simpa using hkind, hselect, hmeaning, hcheck, h⟩
          · cases h
        · cases h
    · cases h

theorem of_expandTemplate {s : Statement} {isa : Registry} {names : Names} {template : Text}
    {i : Nat} {m : MachineStatement} (h : s.expandTemplate isa names template i = .ok m) :
    m.address = s.address + BitVec.ofNat 32 (4 * i) ∧ m.instruction.isExtended = false ∧
      m.unit = s.unit ∧ m.tokenLine = s.tokenLine ∧ m.note = s.note := by
  obtain ⟨_, _, _, _, _, _, _, -, -, -, -, hmeaning, -, hencode⟩ := expandTemplate_eq_ok h
  obtain ⟨-, -, -, hstatement⟩ := encode_eq_ok hencode
  rw [hstatement]
  exact ⟨rfl, by simp only [Instruction.isExtended, hmeaning], rfl, rfl, rfl⟩

theorem expandsTo_of_resolve {s : Statement} {isa : Registry} {names : Names}
    {machine : List MachineStatement} (h : s.resolve isa names = .ok machine) :
    s.ExpandsTo machine := by
  unfold resolve at h
  split at h
  · rename_i relative encoding hmeaning
    cases hencode : s.encode isa.registers names relative encoding with
    | error e =>
      rw [hencode] at h
      cases h
    | ok m =>
      rw [hencode] at h
      cases h
      obtain ⟨-, -, -, rfl⟩ := encode_eq_ok hencode
      refine ⟨?_, ?_, ?_⟩ <;> simp [Instruction.wordCount, Instruction.isExtended, hmeaning]
  · rename_i templates hmeaning
    have hall := mapM_eq_ok_iff.1 h
    have hmember {m : MachineStatement} (hm : m ∈ machine) :
        ∃ template i, s.expandTemplate isa names template i = .ok m := by
      obtain ⟨⟨template, i⟩, -, hexpand⟩ := exists_of_forall₂ hall.flip hm
      exact ⟨template, i, hexpand⟩
    refine ⟨?_, ?_, ?_⟩
    · have hplaces : List.Forall₂ Eq
          (templates.zipIdx.map fun p => s.address + BitVec.ofNat 32 (4 * p.2))
          (machine.map fun m => m.address) := by
        rw [List.forall₂_map_left_iff, List.forall₂_map_right_iff]
        exact hall.imp fun p m hexpand => (of_expandTemplate hexpand).1.symm
      rw [List.forall₂_eq_eq_eq] at hplaces
      rw [← hplaces, Instruction.wordCount, hmeaning, List.range_eq_range',
        ← List.zipIdx_map_snd 0 templates, List.map_map]
      rfl
    · intro m hm
      obtain ⟨template, i, hexpand⟩ := hmember hm
      exact (of_expandTemplate hexpand).2.1
    · intro m hm
      obtain ⟨template, i, hexpand⟩ := hmember hm
      exact (of_expandTemplate hexpand).2.2

end Statement

/-! ### Refusals -/

def Refusal.IsError : Refusal → Prop
  | fault _ => True
  | problem _ p => p.isWarning = false

namespace Statement

theorem isError_of_encode {s : Statement} {registers : RegisterFile} {names : Names}
    {relative : Bool} {encoding : Encoding} {e : Refusal}
    (h : s.encode registers names relative encoding = .error e) : e.IsError := by
  have hoperand {o : OperandValues} {t : Token}
      (ht : s.readOperand registers names relative o t = .error e) : e.IsError := by
    unfold readOperand at ht
    repeat' split at ht
    all_goals cases ht
    all_goals rfl
  have hoperands {ts : List Token} {o : OperandValues}
      (hts : ts.foldlM (s.readOperand registers names relative) o = .error e) : e.IsError := by
    induction ts generalizing o with
    | nil => cases hts
    | cons t ts ih =>
      rw [List.foldlM_cons] at hts
      cases ht : s.readOperand registers names relative o t with
      | error e' =>
        rw [ht] at hts
        cases hts
        exact hoperand ht
      | ok o' =>
        rw [ht] at hts
        exact ih hts
  unfold encode at h
  cases ho : s.operands.foldlM (s.readOperand registers names relative) {} with
  | error e' =>
    rw [ho] at h
    cases h
    exact hoperands ho
  | ok o =>
    simp only [ho, bind, Except.bind] at h
    split at h
    · cases h
      trivial
    · cases h
      rfl
    · cases h

theorem isError_of_expandTemplate {s : Statement} {isa : Registry} {names : Names}
    {template : Text} {i : Nat} {e : Refusal}
    (h : s.expandTemplate isa names template i = .error e) : e.IsError := by
  unfold expandTemplate at h
  cases hfill : Template.fill template s.tokens s.address
      (fun name => (names.address? name).map fun a => a.toNat) isa.registers with
  | error e' => cases e' <;> simp only [hfill, bind, Except.bind] at h <;> cases h <;> rfl
  | ok text =>
    simp only [hfill, bind, Except.bind] at h
    split at h
    · split at h
      · cases h
        rfl
      · split at h
        · split at h
          · split at h
            · cases h
              rfl
            · exact isError_of_encode h
          · cases h
            rfl
        · cases h
          rfl
    · cases h
      rfl

/-- A statement that is not resolved leaves an error. -/
theorem isError_of_resolve {s : Statement} {isa : Registry} {names : Names} {e : Refusal}
    (h : s.resolve isa names = .error e) : e.IsError := by
  unfold resolve at h
  split at h
  · rename_i relative encoding _
    cases hencode : s.encode isa.registers names relative encoding with
    | error e' =>
      rw [hencode] at h
      cases h
      exact isError_of_encode hencode
    | ok m =>
      rw [hencode] at h
      cases h
  · obtain ⟨⟨template, i⟩, -, hexpand⟩ := exists_of_mapM_eq_error h
    exact isError_of_expandTemplate hexpand

end Statement

/-! ### Files -/

namespace SourceUnit

variable {u : SourceUnit} {isa : Registry} {global : SymbolTable}

/-- What the resolution of a file does with one statement. -/
def resolveStep (u : SourceUnit) (isa : Registry) (global : SymbolTable) :
    Log × List MachineStatement → Statement → Except Fault (Log × List MachineStatement) :=
  fun (log, machine) s =>
    if log.exceeded then .ok (log, machine)
    else
      match s.resolve isa ⟨u.labels, global⟩ with
      | .ok statements => .ok (log, machine ++ statements)
      | .error (.fault f) => .error f
      | .error (.problem t p) => .ok (log.add (p.about t s.note), machine)

theorem resolve_eq (log : Log) :
    u.resolve isa global log = u.parsed.foldlM (u.resolveStep isa global) (log, []) := rfl

/-- A step without an error leaves the log as it was, and resolves its statement. -/
theorem resolveStep_of_clean {s : Statement} {log log' : Log}
    {before machine : List MachineStatement}
    (h : u.resolveStep isa global (log, before) s = .ok (log', machine))
    (hclean : log'.hasErrors = false) :
    log' = log ∧ ∃ ms, s.resolve isa ⟨u.labels, global⟩ = .ok ms ∧ machine = before ++ ms := by
  unfold resolveStep at h
  by_cases hfull : log.exceeded = true
  · simp only [hfull, if_true] at h
    cases h
    rw [Log.exceeded_of_hasErrors_eq_false hclean] at hfull
    cases hfull
  · simp only [hfull, if_false, Bool.false_eq_true] at h
    cases hs : s.resolve isa ⟨u.labels, global⟩ with
    | ok ms =>
      simp only [hs] at h
      cases h
      exact ⟨rfl, ms, rfl, rfl⟩
    | error e =>
      cases e with
      | fault f =>
        simp only [hs] at h
        cases h
      | problem t p =>
        simp only [hs] at h
        cases h
        have hwarning : p.isWarning = true := (Log.hasErrors_add_eq_false_iff.1 hclean).2
        rw [show p.isWarning = false from Statement.isError_of_resolve hs] at hwarning
        cases hwarning

theorem resolveSteps_of_clean {parsed : List Statement} {log log' : Log}
    {before machine : List MachineStatement}
    (h : parsed.foldlM (u.resolveStep isa global) (log, before) = .ok (log', machine))
    (hclean : log'.hasErrors = false) :
    log' = log ∧ ∃ expansions,
      List.Forall₂ (fun s ms => s.resolve isa ⟨u.labels, global⟩ = .ok ms) parsed expansions ∧
      machine = before ++ expansions.flatten := by
  induction parsed generalizing log before with
  | nil =>
    cases h
    exact ⟨rfl, [], .nil, by simp⟩
  | cons s parsed ih =>
    rw [List.foldlM_cons] at h
    obtain ⟨⟨log₁, machine₁⟩, hstep, hrest⟩ := exists_of_bind_eq_ok h
    obtain ⟨rfl, expansions, hall, rfl⟩ := ih hrest
    obtain ⟨rfl, ms, hs, rfl⟩ := resolveStep_of_clean hstep hclean
    exact ⟨rfl, ms :: expansions, .cons hs hall, by simp⟩

/-- A log without errors after the statements of a file is the log before them, and all of them are
resolved. -/
theorem resolve_of_clean {log log' : Log} {machine : List MachineStatement}
    (h : u.resolve isa global log = .ok (log', machine)) (hclean : log'.hasErrors = false) :
    log' = log ∧ ∃ expansions,
      List.Forall₂ (fun s ms => s.resolve isa ⟨u.labels, global⟩ = .ok ms) u.parsed expansions ∧
      machine = expansions.flatten := by
  rw [resolve_eq] at h
  simpa using resolveSteps_of_clean h hclean

end SourceUnit

/-- What the resolution of all files does with one of them. -/
def resolveUnitStep (isa : Registry) (global : SymbolTable) :
    Log × List MachineStatement → SourceUnit → Except Fault (Log × List MachineStatement) :=
  fun (log, machine) u => do
    let (log, statements) ← u.resolve isa global log
    return (log, machine ++ statements)

theorem resolveUnits_eq (isa : Registry) (global : SymbolTable) (log : Log)
    (units : List SourceUnit) :
    resolveUnits isa global log units = units.foldlM (resolveUnitStep isa global) (log, []) := rfl

theorem resolveUnitSteps_of_clean {isa : Registry} {global : SymbolTable} {log log' : Log}
    {units : List SourceUnit} {before machine : List MachineStatement}
    (h : units.foldlM (resolveUnitStep isa global) (log, before) = .ok (log', machine))
    (hclean : log'.hasErrors = false) :
    log' = log ∧ ∃ expansions,
      List.Forall₂ (fun (p : SourceUnit × Statement) ms =>
        p.2.resolve isa ⟨p.1.labels, global⟩ = .ok ms)
        (units.flatMap fun u => u.parsed.map fun s => (u, s)) expansions ∧
      machine = before ++ expansions.flatten := by
  induction units generalizing log before with
  | nil =>
    cases h
    exact ⟨rfl, [], .nil, by simp⟩
  | cons u units ih =>
    rw [List.foldlM_cons] at h
    obtain ⟨⟨log₁, machine₁⟩, hstep, hrest⟩ := exists_of_bind_eq_ok h
    obtain ⟨⟨log₂, statements⟩, hu, hsame⟩ := exists_of_bind_eq_ok hstep
    cases hsame
    obtain ⟨rfl, expansions, hall, rfl⟩ := ih hrest
    obtain ⟨rfl, first, hfirst, rfl⟩ := SourceUnit.resolve_of_clean hu hclean
    refine ⟨rfl, first ++ expansions, ?_, by simp⟩
    rw [List.flatMap_cons]
    exact List.rel_append (List.forall₂_map_left_iff.2 hfirst) hall

/-- When no error is left, every statement of every file is resolved, in order. -/
theorem resolveUnits_of_clean {isa : Registry} {global : SymbolTable} {log log' : Log}
    {units : List SourceUnit} {machine : List MachineStatement}
    (h : resolveUnits isa global log units = .ok (log', machine))
    (hclean : log'.hasErrors = false) :
    log' = log ∧ ∃ expansions,
      List.Forall₂ (fun (p : SourceUnit × Statement) ms =>
        p.2.resolve isa ⟨p.1.labels, global⟩ = .ok ms)
        (units.flatMap fun u => u.parsed.map fun s => (u, s)) expansions ∧
      machine = expansions.flatten := by
  rw [resolveUnits_eq] at h
  simpa using resolveUnitSteps_of_clean h hclean

end Rv32Assembler
