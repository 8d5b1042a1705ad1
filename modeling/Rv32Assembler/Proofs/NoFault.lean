import Rv32Assembler.Proofs.Acceptance
import Rv32Assembler.Proofs.Pasting
import Rv32Assembler.Proofs.Spans
/-!
# Assembling without faults

A fault is an outcome that a part of the assembler can have and that no source leads to: a macro
without a line or an argument, a call from nowhere, an encoding without an operand. What keeps a part
from it is decided elsewhere. Definitions end within the file that they start in, a call has an
argument for every parameter, and a form asks for as many operands as its encoding takes
(`Instruction.Supplies`), which the check of the operands enforces. So every run has an outcome
(`exists_assemble`), and whatever a run takes by place, out of a text or out of a list, is there.
-/

namespace Rv32Assembler

open Encoding Text

/-! ### Operands of an encoding -/

/-- A format of RV32 with a value for each of its fields misses none. -/
theorem Encoding.encode_ne_missingOperand {encoding : Encoding} {name : Text}
    (hname : encoding.mnemonic? = some name) {values : List Int}
    (h : encoding.fields.length ≤ values.length) :
    encoding.encode values ≠ .error .missingOperand := by
  have hword {condition : Prop} [Decidable condition] {w : Word} {e : Error}
      (he : e ≠ .missingOperand) :
      (if condition then .ok w else .error e : Except Error Word) ≠ .error .missingOperand := by
    split
    · exact nofun
    · exact fun herror => he (Except.error.inj herror)
  match encoding, values with
  | .register .., _ :: _ :: _ :: _ => exact nofun
  | .immediate .., _ :: _ :: _ :: _ | .load _, _ :: _ :: _ :: _ => exact hword nofun
  | .shift .., _ :: _ :: _ :: _ | .store _, _ :: _ :: _ :: _ | .branch _, _ :: _ :: _ :: _ =>
    exact hword nofun
  | .upper _, _ :: _ :: _ | .jump, _ :: _ :: _ => exact hword nofun
  | .fixed _, _ => exact nofun
  | .refused _, _ | .custom _, _ => cases hname

/-- The encoding misses no operand if every place of the form for one has a value. -/
def Instruction.Supplies (i : Instruction) : Prop :=
  ∀ relative encoding, i.meaning = .basic relative encoding → ∀ values : List Int,
    values.length = (i.format.filter fun kind => !kind.isParen).length →
      encoding.encode values ≠ .error .missingOperand

/-- The form stands for basic ones, or for one word whatever its operands are. -/
def Instruction.IsFree (i : Instruction) : Prop :=
  (∃ templates, i.meaning = .extended templates) ∨
    ∃ relative word, i.meaning = .basic relative (.fixed word)

theorem Instruction.IsFree.supplies {i : Instruction} (h : i.IsFree) : i.Supplies := by
  intro relative encoding hmeaning
  rcases h with ⟨templates, hextended⟩ | ⟨relative', word, hfixed⟩
  · cases hmeaning.symm.trans hextended
  · cases hmeaning.symm.trans hfixed
    exact fun _ _ => nofun

/-- RV32IM with further forms. -/
def Rv32im.extendedBy (extra : List Instruction) : Registry :=
  { registry with forms := registry.forms ++ extra }

theorem Rv32im.supplies_of_mem {extra : List Instruction} (hextra : ∀ i ∈ extra, i.IsFree)
    {i : Instruction} (hi : i ∈ (extendedBy extra).forms) : i.Supplies := by
  rcases List.mem_append.1 hi with hi | hi
  · intro relative encoding hmeaning values hlength
    obtain ⟨hname, hformat⟩ := mnemonic?_of_mem hi hmeaning
    rw [hformat, List.length_map] at hlength
    exact encode_ne_missingOperand hname hlength.ge
  · exact (hextra i hi).supplies

/-! ### Statements -/

def Refusal.IsProblem : Refusal → Prop
  | fault _ => False
  | problem _ _ => True

namespace Statement

variable {s : Statement} {isa : Registry} {registers : RegisterFile} {names : Names}
  {relative : Bool} {e : Refusal}

theorem isProblem_of_readOperand {o : OperandValues} {t : Token}
    (h : s.readOperand registers names relative o t = .error e) : e.IsProblem := by
  unfold readOperand at h
  repeat' split at h
  all_goals cases h
  all_goals trivial

theorem isProblem_of_foldlM {ts : List Token} {o : OperandValues}
    (h : ts.foldlM (s.readOperand registers names relative) o = .error e) : e.IsProblem := by
  induction ts generalizing o with
  | nil => cases h
  | cons t ts ih =>
    rw [List.foldlM_cons] at h
    cases ht : s.readOperand registers names relative o t with
    | error e' =>
      rw [ht] at h
      cases h
      exact isProblem_of_readOperand ht
    | ok o' =>
      rw [ht] at h
      exact ih h

theorem length_values (hcheck : s.instruction.check s.operator s.operands = none) {o : OperandValues}
    (ho : s.operands.foldlM (s.readOperand registers names relative) {} = .ok o) :
    o.values.length = (s.instruction.format.filter fun kind => !kind.isParen).length := by
  have hplaces := List.rel_filter (p := fun kind => !kind.isParen)
    (q := fun t : Token => !t.kind.isParen)
    (fun required t hfit => by simp [Kind.isParen_of_fit hfit])
    (Instruction.forall₂_of_check hcheck)
  obtain ⟨values, hvalues, hall⟩ := values_of_foldlM ho
  rw [List.nil_append] at hvalues
  rw [List.filter_map, List.forall₂_map_left_iff] at hall
  rw [hvalues, hplaces.length_eq]
  exact hall.length_eq.symm

theorem isProblem_of_encode (hsupplies : s.instruction.Supplies)
    (hcheck : s.instruction.check s.operator s.operands = none) {encoding : Encoding}
    (hmeaning : s.instruction.meaning = .basic relative encoding)
    (h : s.encode registers names relative encoding = .error e) : e.IsProblem := by
  unfold encode at h
  cases ho : s.operands.foldlM (s.readOperand registers names relative) {} with
  | error e' =>
    rw [ho] at h
    cases h
    exact isProblem_of_foldlM ho
  | ok o =>
    simp only [ho, bind, Except.bind] at h
    split at h
    · rename_i hmissing
      exact absurd hmissing (hsupplies relative encoding hmeaning _ (length_values hcheck ho))
    · cases h
      trivial
    · cases h

theorem isProblem_of_expandTemplate (hisa : ∀ i ∈ isa.forms, i.Supplies) {template : Text}
    {i : Nat} (h : s.expandTemplate isa names template i = .error e) : e.IsProblem := by
  unfold expandTemplate at h
  cases hfill : Template.fill template s.tokens s.address
      (fun name => (names.address? name).map fun a => a.toNat) isa.registers with
  | error e' => cases e' <;> simp only [hfill, bind, Except.bind] at h <;> cases h <;> trivial
  | ok text =>
    simp only [hfill, bind, Except.bind] at h
    split at h
    · split at h
      · cases h
        trivial
      · split at h
        · rename_i form hselect
          split at h
          · rename_i hmeaning
            split at h
            · cases h
              trivial
            · rename_i hcheck
              have hform : form ∈ isa.forms :=
                List.mem_of_mem_filter (Instruction.mem_of_select hselect)
              exact isProblem_of_encode (hisa form hform) hcheck hmeaning h
          · cases h
            trivial
        · cases h
          trivial
    · cases h
      trivial

/-- A statement that was recorded is resolved, or there is a message to the user. -/
theorem isProblem_of_resolve (hisa : ∀ i ∈ isa.forms, i.Supplies) (hs : s.Parsed isa)
    (h : s.resolve isa names = .error e) : e.IsProblem := by
  unfold resolve at h
  split at h
  · rename_i relative encoding hmeaning
    cases hencode : s.encode isa.registers names relative encoding with
    | error e' =>
      rw [hencode] at h
      cases h
      exact isProblem_of_encode (hisa _ hs.mem_forms) hs.check hmeaning hencode
    | ok m =>
      rw [hencode] at h
      cases h
  · obtain ⟨⟨template, i⟩, -, hexpand⟩ := exists_of_mapM_eq_error h
    exact isProblem_of_expandTemplate hisa hexpand

end Statement

/-! ### Passes -/

theorem exists_foldlM_eq_ok {α σ ε : Type} {step : σ → α → Except ε σ} {xs : List α}
    (h : ∀ x ∈ xs, ∀ s, ∃ s', step s x = .ok s') (s : σ) : ∃ s', xs.foldlM step s = .ok s' := by
  induction xs generalizing s with
  | nil => exact ⟨s, rfl⟩
  | cons x xs ih =>
    obtain ⟨s₁, hfirst⟩ := h x (List.mem_cons_self ..) s
    obtain ⟨s₂, hrest⟩ := ih (fun y hy => h y (List.mem_cons_of_mem _ hy)) s₁
    exact ⟨s₂, by rw [List.foldlM_cons, hfirst]; exact hrest⟩

section

variable {config : Config} {isa : Registry}

theorem SourceUnit.exists_resolve (hisa : ∀ i ∈ isa.forms, i.Supplies) {u : SourceUnit}
    (hu : ∀ s ∈ u.parsed, s.Parsed isa) (global : SymbolTable) (log : Log) :
    ∃ result, u.resolve isa global log = .ok result := by
  rw [resolve_eq]
  apply exists_foldlM_eq_ok
  rintro s hs ⟨log, machine⟩
  by_cases hfull : log.exceeded = true
  · exact ⟨(log, machine), by simp only [resolveStep, hfull, if_true]⟩
  · simp only [resolveStep, hfull, if_false, Bool.false_eq_true]
    cases hresolve : s.resolve isa ⟨u.labels, global⟩ with
    | ok statements => exact ⟨_, rfl⟩
    | error e =>
      have hproblem := Statement.isProblem_of_resolve hisa (hu s hs) hresolve
      cases e with
      | fault f => cases hproblem
      | problem t p => exact ⟨_, rfl⟩

theorem exists_resolveUnits (hisa : ∀ i ∈ isa.forms, i.Supplies) {units : List SourceUnit}
    (hunits : ∀ u ∈ units, ∀ s ∈ u.parsed, s.Parsed isa) (global : SymbolTable) (log : Log) :
    ∃ result, resolveUnits isa global log units = .ok result := by
  rw [resolveUnits_eq]
  apply exists_foldlM_eq_ok
  rintro u hu ⟨log, machine⟩
  obtain ⟨result, hresult⟩ := u.exists_resolve hisa (hunits u hu) global log
  exact ⟨_, by rw [resolveUnitStep, hresult]; rfl⟩

theorem Session.exists_readFiles (session : Session) (config : Config) (isa : Registry) (unit : Nat)
    (files : List (Text × Array TokenLine)) :
    ∃ result, session.readFiles config isa unit files = .ok result := by
  induction files generalizing session unit with
  | nil => exact ⟨_, rfl⟩
  | cons file files ih =>
    obtain ⟨name, lines⟩ := file
    rw [readFiles]
    split
    · exact ⟨_, rfl⟩
    · obtain ⟨r, hr, -⟩ := Scope.exists_readLines ⟨config, isa, unit, lines⟩ session name
      obtain ⟨result, hresult⟩ := ih (r.finish name).1 (unit + 1)
      refine ⟨(result.1, (r.finish name).2 :: result.2), ?_⟩
      rw [readFile, hr]
      simp only [Except.map, bind, Except.bind, hresult]
      rfl

theorem exists_firstPass (config : Config) (isa : Registry) (files : List SourceFile) :
    ∃ session units, firstPass config isa files = .ok (session, units) := by
  obtain ⟨⟨last, units⟩, hread⟩ := Session.exists_readFiles
    { Session.ofConfig config with
      log := (tokenizeFiles (isa.vocabulary true) (Session.ofConfig config).log files).1 }
    config isa 0 (tokenizeFiles (isa.vocabulary true) (Session.ofConfig config).log files).2
  refine ⟨last.patchUnits units, units, ?_⟩
  simp only [firstPass, hread, bind, Except.bind]
  rfl

/-- The statements that a first pass without errors leaves were found fit for their forms. -/
theorem parsed_of_firstPass {files : List SourceFile} {session : Session} {units : List SourceUnit}
    (h : firstPass config isa files = .ok (session, units)) (hclean : session.log.hasErrors = false) :
    ∀ u ∈ units, ∀ s ∈ u.parsed, s.Parsed isa := by
  intro u hu
  obtain ⟨log, tokenized, last, htokens, hread, -, rfl⟩ := exists_of_firstPass h
  have hreads := (Session.reads_of_readFiles hread (Session.patchUnits_of_clean hclean).1).1
  exact hreads.parsed (fun f hf l hl => lexed_of_tokenizeFiles htokens hf hl) hu

/-- Every run has an outcome. -/
theorem exists_assemble (hisa : ∀ i ∈ isa.forms, i.Supplies) (config : Config)
    (files : List SourceFile) : ∃ outcome, assemble config isa files = .ok outcome := by
  obtain ⟨session, units, hfirst⟩ := exists_firstPass config isa files
  unfold assemble
  simp only [hfirst, bind, Except.bind]
  by_cases herrors : session.log.hasErrors = true
  · rw [if_pos herrors]
    exact ⟨_, rfl⟩
  · rw [if_neg herrors]
    obtain ⟨⟨log, machine⟩, hresolve⟩ := exists_resolveUnits hisa
      (parsed_of_firstPass hfirst (by simpa using herrors)) session.global session.log
    simp only [secondPass, hresolve, bind, Except.bind]
    split <;> exact ⟨_, rfl⟩

end

/-! ### Places -/

/-- Whatever a vocabulary takes of a text by place is there: the characters of a lexeme and of an
escape, the bytes of a token, what equivalences leave of a line, and the value of one. -/
structure Vocabulary.InBounds (v : Vocabulary) : Prop where
  lexeme : ∀ after g rest l, Lexeme.read v after g rest = some l → l.extra ≤ rest.length
  literal : ∀ mark rest n, Lexeme.closing? mark rest = some n → 0 < n ∧ n ≤ rest.length
  escape : ∀ b rest, (Literal.escape b rest).extra ≤ rest.length
  tokens : ∀ text line, (v.tokenizeText text line).1.Spanned
  replaced : ∀ es (line : SourceLine),
    line.text.splice? 0 ((v.tokenize line).1.equivalenceEdits es)
      = some (line.text.splice 0 ((v.tokenize line).1.equivalenceEdits es))
  value : ∀ es line place directive symbol first rest,
    let l := (v.tokenizeUnder es line).1.withoutComment
    l.tokens.drop place = directive :: symbol :: first :: rest →
      l.slice? first (rest.getLastD first) = some (l.slice first (rest.getLastD first))

theorem Vocabulary.inBounds (v : Vocabulary) : v.InBounds where
  lexeme _ _ _ _ h := Lexeme.extra_le_of_read h
  literal _ _ _ h := Lexeme.of_closing? h
  escape := Literal.extra_escape_le
  tokens := v.spanned_tokenizeText
  replaced es line := TokenLine.splice?_equivalenceEdits (v.spanned_tokenizeText line.text line) es
  value es line _ _ _ _ _ h :=
    TokenLine.slice?_value (v.spanned_tokenizeUnder es line).withoutComment h

/-- An alignment is refused, turns automatic alignment off, or shifts by its operand, which is the
place of a bit in a word. -/
def Reading.AlignsInBounds (r : Reading) : Prop :=
  ∀ note directive operands,
    (∃ t p, r.executeAlign note directive operands = r.report note t p) ∨
    r.executeAlign note directive operands
      = { r with cursors := { r.cursors with autoAlign := false } } ∨
    ∃ (t : Token) (r₁ : Reading) (segment : Segment) (n : Nat), operands = [t] ∧
      (r₁ = r ∨ r₁ = r.report note t (.alignRounded t.value)) ∧ n ≤ 31 ∧
      (n : Int) = (if segment.isData then t.value else max t.value 2) ∧
      r.executeAlign note directive operands = r₁.align segment (1 <<< n)

theorem Reading.alignsInBounds (r : Reading) : r.AlignsInBounds := by
  intro note directive operands
  unfold executeAlign
  split
  · rename_i t
    simp only
    split
    · exact .inl ⟨_, _, rfl⟩
    · rename_i hvalid
      simp only [Bool.or_eq_true, Bool.not_eq_true', decide_eq_true_eq, not_or, not_lt] at hvalid
      split
      · exact .inl ⟨_, _, rfl⟩
      · rename_i hmax
        unfold maxAlign at hmax
        split
        · have hexponent : ((max t.value 2).toNat : Int) = max t.value 2 := by omega
          by_cases hround : t.value < 2
          · rw [if_pos hround]
            exact .inr (.inr ⟨t, _, r.cursors.textSegment, _, rfl, .inr rfl, by omega, hexponent, rfl⟩)
          · rw [if_neg hround]
            exact .inr (.inr ⟨t, r, r.cursors.textSegment, _, rfl, .inl rfl, by omega, hexponent, rfl⟩)
        · split
          · exact .inr (.inl rfl)
          · have hexponent : (t.value.toNat : Int) = t.value := by omega
            exact .inr (.inr ⟨t, r, r.cursors.dataSegment, _, rfl, .inl rfl, by omega, hexponent, rfl⟩)
  · exact .inl ⟨_, _, rfl⟩

namespace LineReading

/-- Whatever the reading takes by place is there: its tokens in its line, and, if it is a macro call,
the argument for each parameter, the lines of the body, and what the call leaves of them. -/
structure InBounds (w : LineReading) : Prop where
  spanned : w.line.Spanned
  argument : ∀ c, w.call? = some c → ∀ i < c.callee.parameters.length,
    ∃ t, c.tokens[i + 1]? = some t
  body : ∀ c, w.call? = some c → ∀ i ∈ Reading.bodyIndices c.callee,
    ∃ line, Macro.lineAt? w.scope.lines i = some line ∧ line.Spanned ∧
      ∀ edits, c.callee.edits c.tokens c.counter line.tokens = .ok edits →
        line.text.splice? 0 edits = some (line.text.splice 0 edits)

theorem spanned_of_bodyLine? {v w : LineReading} {c : MacroCall} {r : Reading} {i : Int}
    (h : v.bodyLine? c r i = some w) : w.line.Spanned := by
  unfold bodyLine? at h
  split at h
  · cases h
  · split at h
    · cases h
      exact Vocabulary.spanned_tokenizeText _ _ _
    · cases h

theorem Proper.inBounds {w : LineReading} (h : w.Proper) (hline : w.line.Spanned)
    (hlines : ∀ l ∈ w.scope.lines.toList, l.Spanned) : w.InBounds where
  spanned := hline
  argument c hc i hi := by
    have harity := (of_call? hc).2.2.2
    exact ⟨_, List.getElem?_eq_getElem (by omega)⟩
  body c hc i hi := by
    obtain ⟨line, hbody⟩ := h.lineAt? hc hi
    have hspanned := hlines line (Macro.mem_of_lineAt? hbody).1
    exact ⟨line, hbody, hspanned, fun edits hedits => Macro.splice?_edits hspanned hedits⟩

end LineReading

theorem Scope.inBounds_of_mem_readings {s : Scope} (hlines : ∀ l ∈ s.lines.toList, l.Spanned)
    {session : Session} {name : Text} {w : LineReading}
    (hw : w ∈ s.readings (.start session name)) : w.InBounds := by
  obtain ⟨hproper, rfl⟩ := proper_of_mem_readings hw
  refine hproper.inBounds ?_ hlines
  obtain ⟨_, ⟨line, i⟩, _, r, hsplit, -, hw⟩ := LineReading.exists_append_of_mem_inTurn hw
  unfold nextReadings at hw
  split at hw
  · cases hw
  · rcases LineReading.exists_bodyLine?_of_mem_readings hw with heq | ⟨u, c, r, i, hbody⟩
    · rw [heq]
      refine hlines line (List.fst_mem_of_mem_zipIdx (x := (line, i)) (k := 0) ?_)
      rw [hsplit]
      exact List.mem_append_right _ (List.mem_cons_self ..)
    · exact LineReading.spanned_of_bodyLine? hbody

theorem Session.inBounds_of_mem_readings {config : Config} {isa : Registry} {session : Session}
    {unit : Nat} {files : List (Text × Array TokenLine)}
    (hfiles : ∀ f ∈ files, ∀ l ∈ f.2.toList, l.Spanned) {w : LineReading}
    (hw : w ∈ session.readings config isa unit files) : w.InBounds := by
  induction files generalizing session unit with
  | nil => cases hw
  | cons file files ih =>
    obtain ⟨name, lines⟩ := file
    rw [readings] at hw
    split at hw
    · cases hw
    · rcases List.mem_append.1 hw with hw | hw
      · exact Scope.inBounds_of_mem_readings (hfiles _ (List.mem_cons_self ..)) hw
      · split at hw
        · exact ih (fun f hf => hfiles f (List.mem_cons_of_mem _ hf)) hw
        · cases hw

theorem inBounds_of_mem_lineReadings {config : Config} {isa : Registry} {files : List SourceFile}
    {w : LineReading} (hw : w ∈ lineReadings config isa files) : w.InBounds := by
  unfold lineReadings at hw
  apply Session.inBounds_of_mem_readings _ hw
  intro f hf l hl
  exact spanned_of_mem_tokenizeFiles hf hl

/-- Assembling never fails for want of a place. Whatever the options and the layout, whatever bytes
the files hold, and whatever pseudo-instructions and constant words are added to RV32IM: a run has an
outcome, a program or a log, and neither the lexer nor the equivalences, the macros or the
alignments reach outside of a text, a list or a word. -/
theorem assemble_in_bounds {extra : List Instruction} (hextra : ∀ i ∈ extra, i.IsFree)
    (config : Config) (files : List SourceFile) :
    (∃ outcome, assemble config (Rv32im.extendedBy extra) files = .ok outcome) ∧
      ((Rv32im.extendedBy extra).vocabulary true).InBounds ∧
      (∀ w ∈ lineReadings config (Rv32im.extendedBy extra) files, w.InBounds) ∧
      ∀ r : Reading, r.AlignsInBounds :=
  ⟨exists_assemble (fun _ hi => Rv32im.supplies_of_mem hextra hi) config files,
    Vocabulary.inBounds _, fun _ hw => inBounds_of_mem_lineReadings hw, Reading.alignsInBounds⟩

/-- A constant word with an operand, and a pseudo-instruction that refers to an operand it lacks. -/
def halting : List Instruction :=
  [⟨"halt", "halt t1", "Stop", [.registerName], .basic false (.fixed 0x00100073)⟩,
   ⟨"twice", "twice t1", "Double", [.registerName], .extended ["add RG1, RG1, RG2"]⟩]

/-- A macro whose body holds a byte that is no text, a call of it, and a value without an end. -/
def brokenLines : List Text :=
  [".eqv reg t0", ".macro step(%a)", ("addi reg, %a, 1 " : Text) ++ [0xff], "halt reg", ".end_macro",
   "step(t1)", "twice reg", ".eqv", ".data", "x: .align 31", ".ascii \"\\u1"]

theorem assemble_in_bounds_broken :
    (∀ i ∈ halting, i.IsFree) ∧
      (∃ outcome, assemble {} (Rv32im.extendedBy halting) [.ofLines "a.s" brokenLines]
        = .ok outcome) ∧
      ∃ w ∈ lineReadings {} (Rv32im.extendedBy halting) [.ofLines "a.s" brokenLines],
        w.call?.isSome = true ∧ w.InBounds := by
  have hfree : ∀ i ∈ halting, i.IsFree := by
    intro i hi
    simp only [halting, List.mem_cons, List.not_mem_nil, or_false] at hi
    rcases hi with rfl | rfl
    · exact .inr ⟨_, _, rfl⟩
    · exact .inl ⟨_, rfl⟩
  have hcall : ∃ w ∈ lineReadings {} (Rv32im.extendedBy halting) [.ofLines "a.s" brokenLines],
      w.call?.isSome = true := by
    decide +kernel
  obtain ⟨houtcome, -, hreadings, -⟩ :=
    assemble_in_bounds hfree {} [.ofLines "a.s" brokenLines]
  obtain ⟨w, hw, hcalls⟩ := hcall
  exact ⟨hfree, houtcome, w, hw, hcalls, hreadings w hw⟩

end Rv32Assembler
