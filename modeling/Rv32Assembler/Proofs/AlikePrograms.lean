import Rv32Assembler.Proofs.AlikeFiles
import Rv32Assembler.Proofs.Run
/-!
# Programs in step

The second pass over alike files. Statements that differ in nothing but where their tokens come from
become the same machine words at the same addresses (`Statement.Alike.resolve`), so runs whose first
passes end alike make programs that agree (`exists_assemble_of_firstPass`).
-/

namespace Rv32Assembler

/-! ### Statements -/

/-- What is seen of a machine statement apart from its source. -/
def MachineStatement.gist (m : MachineStatement) : Address × Word × Text :=
  (m.address, m.code, m.basicText)

def MachineStatement.Alike (m m' : MachineStatement) : Prop := m'.gist = m.gist

theorem Except.Alike.exists_ok {ε α : Type} {R : α → α → Prop} {x x' : Except ε α}
    (h : Except.Alike R x x') {a : α} (ha : x = .ok a) : ∃ a', x' = .ok a' ∧ R a a' := by
  cases h with
  | ok hR =>
    cases ha
    exact ⟨_, rfl, hR⟩
  | error => cases ha

theorem Except.Alike.map {ε α β : Type} {R : α → α → Prop} {S : β → β → Prop} {x x' : Except ε α}
    (h : Except.Alike R x x') {f f' : α → β} (hf : ∀ {a a'}, R a a' → S (f a) (f' a')) :
    Except.Alike S (x.map f) (x'.map f') := by
  cases h with
  | ok hR => exact .ok (hf hR)
  | error => exact .error _ _

section

variable (registers : RegisterFile)

theorem Template.operandValue_alike (lookup : Text → Option Int) {t t' : Token} (ht : t.Alike t') :
    Except.Alike Eq (operandValue registers lookup t) (operandValue registers lookup t') := by
  unfold operandValue
  rw [ht.kind, ht.value, ht.text]
  split
  · exact .ok rfl
  · split
    · cases lookup t.text with
      | none => exact .error _ _
      | some v => exact .ok rfl
    · split
      · exact .ok rfl
      · exact .error _ _

theorem Template.drawn_alike (pc : Word) (lookup : Text → Option Int) (code : Code) {t t' : Token}
    (ht : t.Alike t') :
    Except.Alike Eq (drawn registers pc lookup code t) (drawn registers pc lookup code t') := by
  have hnumber (f : Int → Int) :
      Except.Alike Eq ((operandValue registers lookup t).map fun v => Text.decimal (f v))
        ((operandValue registers lookup t').map fun v => Text.decimal (f v)) := by
    apply (operandValue_alike registers lookup ht).map
    intro a a' heq
    rw [heq]
  unfold drawn
  cases code with
  | label =>
    rw [ht.text]
    exact .ok rfl
  | register =>
    simp only [ht.text]
    cases registers.ofText? t.text with
    | none => exact .error _ _
    | some n => exact .ok rfl
  | value | upper | lower | relativeUpper | relativeLower => exact hnumber _

end

/-- A template is filled in the same way from alike tokens. -/
theorem Template.fill_alike {template : Text} {pc : Word} {lookup : Text → Option Int}
    {registers : RegisterFile} {ts ts' : List Token} (hts : List.Forall₂ Token.Alike ts ts')
    {text : Text} (h : fill template ts pc lookup registers = .ok text) :
    fill template ts' pc lookup registers = .ok text := by
  unfold fill at h ⊢
  obtain ⟨texts, htexts, h⟩ := exists_of_bind_eq_ok h
  rw [mapM_eq_ok_iff.2 ((mapM_eq_ok_iff.1 htexts).imp ?_)]
  · exact h
  · intro piece drawnText hpiece
    cases piece with
    | byte b => exact hpiece
    | operand code index =>
      simp only at hpiece ⊢
      by_cases hindex : index < ts.length
      · have hindex' : index < ts'.length := hts.length_eq ▸ hindex
        rw [List.getElem?_eq_getElem hindex] at hpiece
        rw [List.getElem?_eq_getElem hindex']
        obtain ⟨_, hdrawn, rfl⟩ :=
          (drawn_alike registers pc lookup code (hts.get hindex hindex')).exists_ok hpiece
        exact hdrawn
      · rw [List.getElem?_eq_none (Nat.le_of_not_lt hindex)] at hpiece
        cases hpiece

namespace Statement.Alike

variable {s s' : Statement} {registers : RegisterFile} {names : Names}

theorem readOperand (h : s.Alike s') (relative : Bool) (o : OperandValues) {t t' : Token}
    (ht : t.Alike t') :
    Except.Alike Eq (s.readOperand registers names relative o t)
      (s'.readOperand registers names relative o t') := by
  unfold Statement.readOperand
  rw [ht.kind, ht.text, ht.value, h.address]
  split
  · exact .ok rfl
  · split
    · exact .ok rfl
    · split
      · exact .ok rfl
      · split
        · exact .ok rfl
        · split
          · cases names.address? t.text with
            | none => exact .error _ _
            | some a => exact .ok rfl
          · exact .error _ _

theorem readOperands (h : s.Alike s') (relative : Bool) {ts ts' : List Token}
    (hts : List.Forall₂ Token.Alike ts ts') {o o₁ : OperandValues}
    (hread : ts.foldlM (s.readOperand registers names relative) o = .ok o₁) :
    ts'.foldlM (s'.readOperand registers names relative) o = .ok o₁ := by
  induction hts generalizing o with
  | nil =>
    rw [List.foldlM_nil] at hread ⊢
    exact hread
  | cons ht _ ih =>
    rw [List.foldlM_cons] at hread ⊢
    obtain ⟨o₂, hfirst, hrest⟩ := exists_of_bind_eq_ok hread
    obtain ⟨_, hfirst', rfl⟩ := (h.readOperand relative o ht).exists_ok hfirst
    rw [hfirst']
    exact ih hrest

theorem encode (h : s.Alike s') {relative : Bool} {encoding : Encoding} {m : MachineStatement}
    (hencode : s.encode registers names relative encoding = .ok m) :
    ∃ m', s'.encode registers names relative encoding = .ok m' ∧ m.Alike m' := by
  unfold Statement.encode at hencode ⊢
  obtain ⟨o, hoperands, hcode⟩ := exists_of_bind_eq_ok hencode
  rw [h.readOperands relative h.operands hoperands]
  simp only [bind, Except.bind]
  cases hword : encoding.encode o.values with
  | error e =>
    rw [hword] at hcode
    cases e <;> cases hcode
  | ok code =>
    rw [hword] at hcode
    cases hcode
    refine ⟨_, rfl, ?_⟩
    simp only [MachineStatement.Alike, MachineStatement.gist, h.address, h.instruction]

theorem expandTemplate (h : s.Alike s') {isa : Registry} {template : Text} {i : Nat}
    {m : MachineStatement} (hexpand : s.expandTemplate isa names template i = .ok m) :
    ∃ m', s'.expandTemplate isa names template i = .ok m' ∧ m.Alike m' := by
  obtain ⟨text, operator, operands, line, form, relative, encoding, hfill, htokens, hkind, hselect,
    hmeaning, hcheck, hencode⟩ := expandTemplate_eq_ok hexpand
  have hfill' : Template.fill template s'.tokens s'.address
      (fun name => (names.address? name).map fun a => a.toNat) isa.registers = .ok text := by
    rw [h.address]
    exact Template.fill_alike (.cons h.operator h.operands) hfill
  have hline : SourceLine.text ⟨text, s'.line.file, s'.line.line⟩
      = SourceLine.text ⟨text, s.line.file, s.line.line⟩ := rfl
  have halike := (isa.vocabulary true).tokenize_alike hline
  have hproblems := (isa.vocabulary true).eq_nil_alike hline (by rw [htokens])
  rw [htokens] at halike
  generalize hmade : (isa.vocabulary true).tokenize ⟨text, s'.line.file, s'.line.line⟩ = made
    at halike hproblems
  obtain ⟨⟨tokens', text', line'⟩, problems'⟩ := made
  obtain rfl : problems' = [] := hproblems
  obtain ⟨operator', operands', hoperator, hoperands, rfl⟩ := List.forall₂_cons_left_iff.1 halike.tokens
  have hbasic : Statement.Alike
      { s with
        source := if i = 0 then s.source else none
        line := line, operator := operator, operands := operands
        address := s.address + BitVec.ofNat 32 (4 * i), instruction := form }
      { s' with
        source := if i = 0 then s'.source else none
        line := line', operator := operator', operands := operands'
        address := s'.address + BitVec.ofNat 32 (4 * i), instruction := form } :=
    ⟨h.unit, hoperator, hoperands, by rw [h.address], rfl⟩
  have hcheck' : form.check operator' operands' = none := by
    have hsame := form.check_alike operator operator' hoperands
    rw [hcheck] at hsame
    exact Option.map_eq_none_iff.1 hsame
  obtain ⟨m', hencode', hm⟩ := hbasic.encode hencode
  refine ⟨m', ?_, hm⟩
  unfold Statement.expandTemplate
  simp only [hfill', hmade, bind, Except.bind, hoperator.kind, hkind, hoperator.text,
    Instruction.select_alike _ hoperands, hselect, hmeaning, hcheck', bne_self_eq_false,
    Bool.false_eq_true, if_false]
  exact hencode'

/-- Alike statements become the same machine words. -/
theorem resolve (h : s.Alike s') {isa : Registry} {ms : List MachineStatement}
    (hresolve : s.resolve isa names = .ok ms) :
    ∃ ms', s'.resolve isa names = .ok ms' ∧ List.Forall₂ MachineStatement.Alike ms ms' := by
  unfold Statement.resolve at hresolve ⊢
  rw [h.instruction]
  cases hmeaning : s.instruction.meaning with
  | basic relative encoding =>
    simp only [hmeaning] at hresolve ⊢
    cases hencode : s.encode isa.registers names relative encoding with
    | error e =>
      rw [hencode] at hresolve
      cases hresolve
    | ok m =>
      rw [hencode] at hresolve
      cases hresolve
      obtain ⟨m', hencode', hm⟩ := h.encode hencode
      rw [hencode']
      exact ⟨[m'], rfl, .cons hm .nil⟩
  | extended templates =>
    simp only [hmeaning] at hresolve ⊢
    have hall := mapM_eq_ok_iff.1 hresolve
    clear hresolve hmeaning
    generalize templates.zipIdx = pairs at hall ⊢
    induction hall with
    | nil => exact ⟨[], rfl, .nil⟩
    | cons hfirst _ ih =>
      obtain ⟨m', hm', hm⟩ := h.expandTemplate hfirst
      obtain ⟨ms', hms', hms⟩ := ih
      refine ⟨m' :: ms', ?_, .cons hm hms⟩
      exact mapM_eq_ok_iff.2 (.cons hm' (mapM_eq_ok_iff.1 hms'))

end Statement.Alike

/-! ### Files -/

namespace SourceUnit.Alike

variable {u u' : SourceUnit} {isa : Registry} {global : SymbolTable}

theorem resolveSteps (h : u.Alike u') {parsed parsed' : List Statement}
    (hparsed : List.Forall₂ Statement.Alike parsed parsed') {log log₁ log' : Log}
    {before machine before' : List MachineStatement}
    (hbefore : List.Forall₂ MachineStatement.Alike before before')
    (hread : parsed.foldlM (u.resolveStep isa global) (log, before) = .ok (log₁, machine))
    (hclean : log₁.hasErrors = false) (hlog' : log'.hasErrors = false) :
    ∃ machine', parsed'.foldlM (u'.resolveStep isa global) (log', before') = .ok (log', machine') ∧
      List.Forall₂ MachineStatement.Alike machine machine' := by
  induction hparsed generalizing log before before' with
  | nil =>
    cases hread
    exact ⟨before', rfl, hbefore⟩
  | @cons s s' parsed parsed' hs _ ih =>
    rw [List.foldlM_cons] at hread ⊢
    obtain ⟨⟨log₂, machine₂⟩, hstep, hrest⟩ := exists_of_bind_eq_ok hread
    have hlog₂ : log₂.hasErrors = false := by
      rw [← (resolveSteps_of_clean hrest hclean).1]
      exact hclean
    obtain ⟨rfl, ms, hms, rfl⟩ := resolveStep_of_clean hstep hlog₂
    obtain ⟨ms', hms', halike⟩ := hs.resolve hms
    have hstep' : u'.resolveStep isa global (log', before') s' = .ok (log', before' ++ ms') := by
      unfold resolveStep
      simp only [Log.exceeded_of_hasErrors_eq_false hlog', h.labels, hms', Bool.false_eq_true,
        if_false]
    rw [hstep']
    exact ih (List.rel_append hbefore halike) hrest

theorem resolve (h : u.Alike u') {log log₁ log' : Log} {machine : List MachineStatement}
    (hread : u.resolve isa global log = .ok (log₁, machine)) (hclean : log₁.hasErrors = false)
    (hlog' : log'.hasErrors = false) :
    ∃ machine', u'.resolve isa global log' = .ok (log', machine') ∧
      List.Forall₂ MachineStatement.Alike machine machine' := by
  rw [resolve_eq] at hread ⊢
  exact h.resolveSteps h.parsed .nil hread hclean hlog'

end SourceUnit.Alike

theorem exists_resolveUnitSteps {isa : Registry} {global : SymbolTable}
    {units units' : List SourceUnit} (hunits : List.Forall₂ SourceUnit.Alike units units')
    {log log₁ log' : Log} {before machine before' : List MachineStatement}
    (hbefore : List.Forall₂ MachineStatement.Alike before before')
    (hread : units.foldlM (resolveUnitStep isa global) (log, before) = .ok (log₁, machine))
    (hclean : log₁.hasErrors = false) (hlog' : log'.hasErrors = false) :
    ∃ machine', units'.foldlM (resolveUnitStep isa global) (log', before') = .ok (log', machine') ∧
      List.Forall₂ MachineStatement.Alike machine machine' := by
  induction hunits generalizing log before before' with
  | nil =>
    cases hread
    exact ⟨before', rfl, hbefore⟩
  | @cons u u' units units' hu _ ih =>
    rw [List.foldlM_cons] at hread ⊢
    obtain ⟨⟨log₂, machine₂⟩, hstep, hrest⟩ := exists_of_bind_eq_ok hread
    have hlog₂ : log₂.hasErrors = false := by
      rw [← (resolveUnitSteps_of_clean hrest hclean).1]
      exact hclean
    obtain ⟨⟨log₃, ms⟩, hms, hsame⟩ := exists_of_bind_eq_ok hstep
    cases hsame
    obtain ⟨ms', hms', halike⟩ := hu.resolve hms hlog₂ hlog'
    have hstep' : resolveUnitStep isa global (log', before') u' = .ok (log', before' ++ ms') := by
      unfold resolveUnitStep
      simp only [hms', bind, Except.bind, pure, Except.pure]
    rw [hstep']
    exact ih (List.rel_append hbefore halike) hrest

/-! ### Memory -/

/-- The images have the same bytes, with statements from other sources. -/
structure Image.SameBytes {σ : Type} (m m' : Image σ) : Prop where
  layout : m'.layout = m.layout
  bytes : m'.bytes = m.bytes

namespace Image.SameBytes

variable {σ : Type} {m m' : Image σ}

theorem write (h : m.SameBytes m') (a : Address) (bytes : List UInt8) :
    (m.write a bytes).SameBytes (m'.write a bytes) := by
  induction bytes generalizing m m' a with
  | nil => exact h
  | cons b bytes ih =>
    rw [Image.write, Image.write]
    apply ih
    exact ⟨h.layout, congrArg (·.insert a b) h.bytes⟩

theorem setStatement (h : m.SameBytes m') (a : Address) (code : Word) (s s' : σ) :
    Except.Alike Image.SameBytes (m.setStatement a code s) (m'.setStatement a code s') := by
  have hcheck : m'.check a 4 = m.check a 4 := by
    rw [Image.check, Image.check, h.layout]
  unfold Image.setStatement Image.storeStatement Image.store
  rw [h.layout, hcheck]
  split
  · cases m.check a 4 with
    | error e => exact .error e e
    | ok n => exact .ok ⟨(h.write a _).layout, (h.write a _).bytes⟩
  · exact .error _ _

end Image.SameBytes

/-- The sessions have the same bytes, symbols and warnings. -/
structure Session.Agrees (s s' : Session) : Prop where
  image : s.image.SameBytes s'.image
  global : s'.global = s.global
  log : s.log.Alike s'.log

theorem MachineStatement.Alike.place {m m' : MachineStatement} (h : m.Alike m') {s s' : Session}
    (hs : s.Agrees s') : (m.place s).Agrees (m'.place s') := by
  have haddress : m'.address = m.address := congrArg Prod.fst h
  have hcode : m'.code = m.code := congrArg (fun g => g.2.1) h
  have hset := hs.image.setStatement m.address m.code m m'
  unfold MachineStatement.place Session.stored
  rw [haddress, hcode, Image.storeStatement_eq, Image.storeStatement_eq]
  generalize s.image.setStatement m.address m.code m = q,
    s'.image.setStatement m.address m.code m' = q' at hset
  cases hset with
  | ok himage => exact { hs with image := himage }
  | error => exact { hs with log := hs.log.add rfl }

theorem Session.Agrees.placeAll {s s' : Session} (h : s.Agrees s')
    {machine machine' : List MachineStatement}
    (hmachine : List.Forall₂ MachineStatement.Alike machine machine') :
    (machine.foldl (fun s m => m.place s) s).Agrees (machine'.foldl (fun s m => m.place s) s') := by
  induction hmachine generalizing s s' with
  | nil => exact h
  | cons hm _ ih => exact ih (hm.place h)

theorem map_gist {machine machine' : List MachineStatement}
    (h : List.Forall₂ MachineStatement.Alike machine machine') :
    machine'.map MachineStatement.gist = machine.map MachineStatement.gist := by
  induction h with
  | nil => rfl
  | cons hm _ ih => rw [List.map_cons, List.map_cons, hm, ih]

theorem map_gist_mergeSort (machine : List MachineStatement) :
    (machine.mergeSort MachineStatement.precedes).map MachineStatement.gist
      = (machine.map MachineStatement.gist).mergeSort fun g g' => g.1.ule g'.1 :=
  List.map_mergeSort fun _ _ _ _ => rfl

/-- The programs differ in nothing but the sources of their statements and the words of warnings. -/
structure Program.Agrees (p p' : Program) : Prop where
  image : p.image.SameBytes p'.image
  entry : p'.entry = p.entry
  global : p'.global = p.global
  locals : p'.locals = p.locals
  statements : p'.statements.map MachineStatement.gist = p.statements.map MachineStatement.gist

theorem Session.Agrees.generate {s s' : Session} (h : s.Agrees s')
    {machine machine' : List MachineStatement}
    (hmachine : List.Forall₂ MachineStatement.Alike machine machine')
    (hclean : (s.generate machine).1.log.hasErrors = false) :
    (s.generate machine).1.Agrees (s'.generate machine').1 ∧
      (s'.generate machine').2.map MachineStatement.gist
        = (s.generate machine).2.map MachineStatement.gist := by
  have hplaced := h.placeAll hmachine
  have hsorted : (machine'.mergeSort MachineStatement.precedes).map MachineStatement.gist
      = (machine.mergeSort MachineStatement.precedes).map MachineStatement.gist := by
    rw [map_gist_mergeSort, map_gist_mergeSort, map_gist hmachine]
  obtain ⟨-, -, -, hordered, -⟩ := generate_of_clean hclean
  have hordered' : (machine'.mergeSort MachineStatement.precedes).Pairwise
      fun a b => a.address < b.address := by
    have hgists : ((machine.mergeSort MachineStatement.precedes).map MachineStatement.gist).Pairwise
        fun g g' => g.1 < g'.1 := List.pairwise_map.2 hordered
    rw [← hsorted, List.pairwise_map] at hgists
    exact hgists
  refine ⟨⟨hplaced.image, hplaced.global, ?_⟩, hsorted⟩
  have hclashes : MachineStatement.clashes (machine.mergeSort MachineStatement.precedes) = [] :=
    MachineStatement.clashes_eq_nil hordered
  simp only [Session.generate, hclashes, MachineStatement.clashes_eq_nil hordered']
  exact hplaced.log

theorem map_locals {units units' : List SourceUnit}
    (h : List.Forall₂ SourceUnit.Alike units units') :
    units'.map (fun u => (u.name, u.labels)) = units.map fun u => (u.name, u.labels) := by
  induction h with
  | nil => rfl
  | cons hu _ ih => rw [List.map_cons, List.map_cons, hu.name, hu.labels, ih]

theorem firstPass_eq_ok {config : Config} {isa : Registry} {files : List SourceFile} {log : Log}
    {tokenized : List (Text × Array TokenLine)} {last : Session} {units : List SourceUnit}
    (htokens : tokenizeFiles (isa.vocabulary true) (Session.ofConfig config).log files
      = (log, tokenized))
    (hread : { Session.ofConfig config with log := log }.readFiles config isa 0 tokenized
      = .ok (last, units)) : firstPass config isa files = .ok (last.patchUnits units, units) := by
  simp only at hread
  simp only [firstPass, htokens, hread]
  rfl

/-- Runs whose first passes end alike make programs that agree. -/
theorem exists_assemble_of_firstPass {config : Config} {isa : Registry}
    {files files' : List SourceFile} {program : Program}
    (h : assemble config isa files = .ok (.ok program)) {session session' : Session}
    {units units' : List SourceUnit} (hpass : firstPass config isa files = .ok (session, units))
    (hpass' : firstPass config isa files' = .ok (session', units'))
    (hsession : session.Alike session') (hunits : List.Forall₂ SourceUnit.Alike units units') :
    ∃ program', assemble config isa files' = .ok (.ok program') ∧ program.Agrees program' := by
  obtain ⟨_, _, log, machine, hsame, hclean, hresolve, hgenerated, hprogram⟩ := exists_of_assemble h
  cases hpass.symm.trans hsame
  have hclean' : session'.log.hasErrors = false := by rw [hsession.log.hasErrors, hclean]
  have hlog : log.hasErrors = false := by
    obtain ⟨image, hgenerate, -⟩ := generate_of_clean hgenerated
    rw [hgenerate] at hgenerated
    exact hgenerated
  obtain ⟨hsame, -⟩ := resolveUnits_of_clean hresolve hlog
  subst hsame
  obtain ⟨machine', hresolve', hmachine⟩ :=
    exists_resolveUnitSteps hunits .nil hresolve hlog hclean'
  rw [← hsession.global, ← resolveUnits_eq] at hresolve'
  have hstart : session.Agrees session' :=
    ⟨⟨by rw [hsession.image], by rw [hsession.image]⟩, hsession.global, hsession.log⟩
  obtain ⟨hend, hstatements⟩ := hstart.generate hmachine hgenerated
  have hfaults : ¬((session.generate machine).1.log.hasErrors ||
      (config.warningsAreErrors && (session.generate machine).1.log.hasWarnings)) = true := by
    intro hfaults
    simp only [assemble, secondPass, hpass, hclean, hresolve, hfaults, bind, Except.bind, pure,
      Except.pure, if_true, Bool.false_eq_true, if_false] at h
    cases h
  refine ⟨(session'.generate machine').1.program config units' (session'.generate machine').2,
    ?_, ?_⟩
  · rw [← hend.log.hasErrors, ← hend.log.hasWarnings] at hfaults
    simp only [assemble, secondPass, hpass', hclean', hresolve', bind, Except.bind, pure,
      Except.pure, Bool.false_eq_true, if_false]
    rw [if_neg hfaults]
  · rw [hprogram]
    refine ⟨hend.image, ?_, hend.global, map_locals hunits, hstatements⟩
    show Option.getD _ _ = Option.getD _ _
    rw [hend.global]

end Rv32Assembler
