import Rv32Assembler.Proofs.Acceptance
/-!
# Expanded statements

A template that is filled in from the operands of a recorded statement is read back as a basic
statement whose operands fit its form, whatever the registers, the values and the spelling of the
labels. So expansion brings no errors of its own: what the second pass may object to in a recorded
statement, basic or extended, is a label (`resolve_of_readInstruction`).
-/

namespace Rv32Assembler

open Template

namespace Template

/-- The code can be drawn from an operand in a place of the kind. -/
def Code.draws : Code → Kind → Bool
  | .label, required | .relativeUpper, required | .relativeLower, required =>
    required == .identifier
  | .register, required => required == .registerName
  | .value, required | .upper, required | .lower, required => required.isInteger

def Slot.isSeparator : Slot → Bool
  | .mark b => b == 0x20 || b == 0x2c
  | _ => false

/-- What the slot is read back as fits a place of the kind; `format` has the places of the operands
that the slot is filled in from. A label may stand in the first template only, since its distance
counts from the first instruction. -/
def Slot.suits (format : List Kind) (first : Bool) (required : Kind) : Slot → Bool
  | .mark b => b == 0x28 && required == .leftParen || b == 0x29 && required == .rightParen
  | .word w =>
    if w.isWord then (Register.ofText? w).isSome && required == .registerName
    else (numeral? w).any fun n => (required.fit (.classify n)).isOk
  | .operand .label index => first && 0 < index && required == .identifier
  | .operand .register _ => required == .registerName
  | .operand .value index => 0 < index && format[index - 1]? == some required && required.isInteger
  | .operand .upper _ | .operand .relativeUpper _ => required == .integer20
  | .operand .lower _ | .operand .relativeLower _ => required == .integer12

end Template

namespace Rv32im

/-- Template `n` of a form, filled in with any operands of the form, is a statement of a basic
form. -/
def isInstance (i : Instruction) (template : Text) (n : Nat) : Bool :=
  ((pieces template).all fun
    | .byte _ => true
    | .operand code index => 0 < index && (i.format[index - 1]?).any code.draws) &&
  match slots (pieces template) with
  | .word mnemonic :: row =>
    let places := row.filter fun slot => !slot.isSeparator
    mnemonic.isWord && (registry.vocabulary true).classify mnemonic == .operator &&
      readable false (.word mnemonic :: row) &&
      (registry.lookup mnemonic).head?.any fun form =>
        !form.isExtended && form.format.length == places.length &&
          (form.format.zip places).all fun (required, slot) => slot.suits i.format (n == 0) required
  | _ => false

/-- Every template of the form is a statement of a basic form. -/
def hasInstances (i : Instruction) : Bool :=
  match i.meaning with
  | .basic .. => true
  | .extended templates => templates.zipIdx.all fun pair => isInstance i pair.1 pair.2

theorem isInstance_of_mem {i : Instruction} (h : i ∈ registry.forms) {templates : List Text}
    (hmeaning : i.meaning = .extended templates) {template : Text} {n : Nat}
    (hmem : (template, n) ∈ templates.zipIdx) : isInstance i template n = true := by
  have hall : ∀ i ∈ registry.forms, hasInstances i = true := by decide +kernel
  have hform := hall i h
  simp only [hasInstances, hmeaning] at hform
  exact List.all_eq_true.1 hform _ hmem

/-- The basic form that a template is an instance of, with the slots of its operands. -/
structure Instance (i : Instruction) (template : Text) (n : Nat) (mnemonic : Text)
    (row : List Slot) (form : Instruction) : Prop where
  draws : ∀ code index, .operand code index ∈ pieces template →
    0 < index ∧ ∃ required, i.format[index - 1]? = some required ∧ code.draws required = true
  slots_eq : slots (pieces template) = .word mnemonic :: row
  isWord : mnemonic.isWord = true
  operator : (registry.vocabulary true).classify mnemonic = .operator
  readable : readable false (.word mnemonic :: row) = true
  head : (registry.lookup mnemonic).head? = some form
  basic : form.isExtended = false
  suits : List.Forall₂ (fun required (slot : Slot) => slot.suits i.format (n == 0) required = true)
    form.format (row.filter fun slot => !slot.isSeparator)

theorem exists_instance {i : Instruction} {template : Text} {n : Nat}
    (h : isInstance i template n = true) :
    ∃ mnemonic row form, Instance i template n mnemonic row form := by
  unfold isInstance at h
  obtain ⟨hdraws, h⟩ := Bool.and_eq_true_iff.1 h
  split at h
  · rename_i mnemonic row hslots
    simp only [Bool.and_eq_true, beq_iff_eq, Option.any_eq_true, Bool.not_eq_true'] at h
    obtain ⟨⟨⟨hword, hoperator⟩, hreadable⟩, form, hhead, ⟨hbasic, hlength⟩, hsuits⟩ := h
    refine ⟨mnemonic, row, form, ?_, hslots, hword, hoperator, hreadable, hhead, hbasic, ?_⟩
    · intro code index hmem
      simpa [Option.any_eq_true] using List.all_eq_true.1 hdraws _ hmem
    · exact List.forall₂_iff_zip.2 ⟨hlength, fun {_ _} hmem => List.all_eq_true.1 hsuits _ hmem⟩
  · cases h

end Rv32im

/-! ### Filling in -/

theorem Registry.exists_number_of_classify {isa : Registry} {directives : Bool} {w : Text}
    (h : ((isa.vocabulary directives).classify w).isRegister = true) :
    ∃ n, isa.registers.ofText? w = some n := by
  unfold Vocabulary.classify at h
  split at h
  · cases h
  · split at h
    · rename_i hname
      obtain ⟨n, hn⟩ := Option.isSome_iff_exists.1 hname
      exact ⟨n, by rw [RegisterFile.ofText?, hn, Option.some_or]⟩
    · rename_i hname
      split at h
      · rename_i hspelling
        obtain ⟨n, hn⟩ := Option.isSome_iff_exists.1 hspelling
        have hnone : isa.registers.ofName? w = none := by simpa [Registry.vocabulary] using hname
        exact ⟨n, by rw [RegisterFile.ofText?, hnone, hn, Option.none_or]⟩
      · split at h <;> cases h

namespace Statement

variable {s : Statement} {names : Names}

theorem exists_token_of_place (h : s.Parsed Rv32im.registry) {index : Nat} (hindex : 0 < index)
    {required : Kind} (hrequired : s.instruction.format[index - 1]? = some required) :
    ∃ t ∈ s.operands, s.tokens[index]? = some t ∧ (required.fit t.kind).isOk = true := by
  obtain ⟨place, rfl⟩ : ∃ place, index = place + 1 := ⟨index - 1, by omega⟩
  have hlength := h.fits.length_eq
  obtain ⟨hlt, -⟩ := List.getElem?_eq_some_iff.1 hrequired
  obtain ⟨t, ht⟩ : ∃ t, s.operands[place]? = some t :=
    ⟨_, List.getElem?_eq_getElem (by omega)⟩
  have htoken : s.tokens[place + 1]? = some t := by rw [tokens, List.getElem?_cons_succ, ht]
  exact ⟨t, List.mem_of_getElem? ht, htoken, exists_fit_of_place h hindex htoken hrequired⟩

theorem operandValue_cases {lookup : Text → Option Int} {t : Token}
    (h : t.kind.isInteger = true ∨ t.kind.isLabel = true) :
    (∃ x, operandValue .rv32 lookup t = .ok x) ∨
      t.kind.isLabel = true ∧ lookup t.text = none ∧
        operandValue .rv32 lookup t = .error (.operand t (.undefinedSymbol t.text)) := by
  unfold operandValue
  split
  · exact .inl ⟨_, rfl⟩
  · rename_i hinteger
    have hlabel := h.resolve_left hinteger
    rw [if_pos hlabel]
    split
    · exact .inl ⟨_, rfl⟩
    · exact .inr ⟨hlabel, ‹_›, rfl⟩

theorem drawn_cases (h : s.Parsed Rv32im.registry) {code : Code} {required : Kind}
    (hcode : code.draws required = true) {t : Token} (ht : t ∈ s.operands)
    (hfit : (required.fit t.kind).isOk = true) (pc : Word) (lookup : Text → Option Int) :
    (∃ text, drawn .rv32 pc lookup code t = .ok text) ∨
      t.kind.isLabel = true ∧ lookup t.text = none ∧
        drawn .rv32 pc lookup code t = .error (.operand t (.undefinedSymbol t.text)) := by
  have hnumber {f : Int → Int} (hcode : code.number? pc = some f)
      (hkind : t.kind.isInteger = true ∨ t.kind.isLabel = true) :
      (∃ text, drawn .rv32 pc lookup code t = .ok text) ∨
      t.kind.isLabel = true ∧ lookup t.text = none ∧
        drawn .rv32 pc lookup code t = .error (.operand t (.undefinedSymbol t.text)) := by
    rw [drawn_eq_map hcode]
    rcases operandValue_cases hkind with ⟨x, hx⟩ | ⟨hlabel, hnone, herror⟩
    · exact .inl ⟨_, by rw [hx]; rfl⟩
    · exact .inr ⟨hlabel, hnone, by rw [herror]; rfl⟩
  cases code with
  | label => exact .inl ⟨t.text, rfl⟩
  | register =>
    obtain rfl : required = .registerName := by simpa [Code.draws] using hcode
    have hkind := Kind.isRegister_of_fit hfit
    rw [((h.lexed t (List.mem_cons_of_mem _ ht)).word (.inr hkind)).2] at hkind
    obtain ⟨n, hn⟩ := Registry.exists_number_of_classify hkind
    have hnumber : RegisterFile.rv32.ofText? t.text = some n := hn
    exact .inl ⟨RegisterFile.spelling n, by simp only [drawn, hnumber]⟩
  | value | upper | lower =>
    exact hnumber rfl (.inl (Kind.isInteger_of_fit_isInteger hfit hcode))
  | relativeUpper | relativeLower =>
    obtain rfl : required = .identifier := by simpa [Code.draws] using hcode
    exact hnumber rfl (.inr (Kind.isLabel_of_fit hfit))

/-- A template is filled in, unless it needs a label without an address. -/
theorem fill_cases (h : s.Parsed Rv32im.registry) {template : Text}
    (hdraws : ∀ code index, .operand code index ∈ pieces template →
      0 < index ∧ ∃ required, s.instruction.format[index - 1]? = some required ∧
        code.draws required = true) (pc : Word) (lookup : Text → Option Int) :
    (∃ text, fill template s.tokens pc lookup = .ok text) ∨
      ∃ t ∈ s.operands, t.kind.isLabel = true ∧ lookup t.text = none ∧
        fill template s.tokens pc lookup = .error (.operand t (.undefinedSymbol t.text)) := by
  cases hfill : fill template s.tokens pc lookup with
  | ok text => exact .inl ⟨text, rfl⟩
  | error e =>
    simp only [fill, bind, Except.bind] at hfill
    split at hfill
    · rename_i htexts
      cases hfill
      obtain ⟨piece, hpiece, herror⟩ := exists_of_mapM_eq_error htexts
      cases piece with
      | byte b => cases herror
      | operand code index =>
        obtain ⟨hindex, required, hrequired, hcode⟩ := hdraws code index hpiece
        obtain ⟨t, ht, htoken, hfit⟩ := exists_token_of_place h hindex hrequired
        simp only [htoken] at herror
        rcases drawn_cases h hcode ht hfit pc lookup with
          ⟨text, htext⟩ | ⟨hlabel, hnone, hundefined⟩
        · cases htext.symm.trans herror
        · cases hundefined.symm.trans herror
          exact .inr ⟨t, ht, hlabel, hnone, rfl⟩
    · cases hfill

/-! ### Reading back -/

end Statement

theorem Kind.fit_identifier_of_isLabel {k : Kind} (h : k.isLabel = true) :
    (identifier.fit k).isOk = true := by
  revert h
  cases k <;> decide

theorem Kind.fit_registerName_of_isRegister {k : Kind} (h : k.isRegister = true) :
    (registerName.fit k).isOk = true := by
  revert h
  cases k <;> decide

theorem Kind.fit_classify_upper20 (v : Int) : (integer20.fit (classify (upper20 v))).isOk = true := by
  have hlow : 0 ≤ upper20 v := by
    unfold upper20
    omega
  have hhigh : upper20 v ≤ 0xfffff := by
    unfold upper20
    omega
  unfold classify
  simp only [Bool.and_eq_true, decide_eq_true_eq]
  split_ifs
  · rfl
  · rfl
  · rfl
  · rfl
  all_goals omega

theorem Kind.fit_classify_lower12 (v : Int) : (integer12.fit (classify (lower12 v))).isOk = true := by
  obtain ⟨hlow, hhigh⟩ := Encoding.fitsSigned_eleven.1 (fitsSigned_lower12 v)
  unfold classify
  simp only [Bool.and_eq_true, decide_eq_true_eq]
  split_ifs
  · rfl
  · rfl
  · rfl
  all_goals omega

namespace Statement

variable {s : Statement}

/-- A token that a template of the statement is read back as, in a place of the kind: it fits, and
it is a label only if the statement has the label. -/
def Refills (s : Statement) (first : Bool) (required : Kind) (c : Kind × Text × Int) : Prop :=
  (required.fit c.1).isOk = true ∧
    (c.1.isLabel = true → first = true ∧ ∃ t ∈ s.operands, t.kind.isLabel = true ∧ t.text = c.2.1)

theorem refills_of_isInteger {first : Bool} {required k : Kind} {text : Text} {v : Int}
    (hfit : (required.fit k).isOk = true) (hkind : k.isInteger = true) :
    s.Refills first required (k, text, v) := by
  refine ⟨hfit, fun hlabel => ?_⟩
  rw [(Kind.not_isWord_of_isInteger hkind).1] at hlabel
  cases hlabel

theorem refills_of_isRegister {first : Bool} {k : Kind} {text : Text} {v : Int}
    (hkind : k.isRegister = true) : s.Refills first .registerName (k, text, v) := by
  refine ⟨Kind.fit_registerName_of_isRegister hkind, fun hlabel => ?_⟩
  rw [Kind.not_isRegister_of_isLabel hlabel] at hkind
  cases hkind

theorem refills_of_reads (h : s.Parsed Rv32im.registry) {pc : Word} {lookup : Text → Option Int}
    {row : List Slot} (hlegible : Legible (Rv32im.registry.vocabulary true) s.tokens lookup row)
    {slot : Slot} (hslot : slot ∈ row) {ts : List (Kind × Text × Int)}
    (hreads : slot.Reads s.tokens pc lookup (Rv32im.registry.vocabulary true) ts) {first : Bool}
    {required : Kind} (hsuits : slot.suits s.instruction.format first required = true) :
    ∃ c, ts = [c] ∧ s.Refills first required c := by
  cases hreads with
  | blank | comma => simp [Slot.suits] at hsuits
  | left =>
    obtain rfl : required = .leftParen := by simpa [Slot.suits] using hsuits
    exact ⟨_, rfl, rfl, fun hlabel => by cases hlabel⟩
  | right =>
    obtain rfl : required = .rightParen := by simpa [Slot.suits] using hsuits
    exact ⟨_, rfl, rfl, fun hlabel => by cases hlabel⟩
  | word hword =>
    simp only [Slot.suits, if_pos hword, Bool.and_eq_true, beq_iff_eq] at hsuits
    obtain ⟨hregister, rfl⟩ := hsuits
    obtain ⟨r, hr⟩ := Option.isSome_iff_exists.1 hregister
    exact ⟨_, rfl, refills_of_isRegister (Registry.isRegister_classify rfl hr)⟩
  | numeral hword hn =>
    simp only [Slot.suits, hword, hn, Bool.false_eq_true, if_false, Option.any_some] at hsuits
    exact ⟨_, rfl, refills_of_isInteger hsuits (Kind.isInteger_classify _)⟩
  | @operand code index _ hmeans =>
    refine ⟨_, rfl, ?_⟩
    cases hmeans with
    | @label _ t ht =>
      simp only [Slot.suits, Bool.and_eq_true, beq_iff_eq, decide_eq_true_eq] at hsuits
      obtain ⟨⟨hfirst, hindex⟩, rfl⟩ := hsuits
      obtain ⟨hlexed, hkind⟩ := hlegible.label index t hslot ht
      have hmem : t ∈ s.operands := by
        obtain ⟨place, rfl⟩ : ∃ place, index = place + 1 := ⟨index - 1, by omega⟩
        exact List.mem_of_getElem? ht
      have hfit := Kind.fit_identifier_of_isLabel hkind
      rw [(hlexed.word (.inl hkind)).2] at hfit
      exact ⟨hfit, fun _ => ⟨hfirst, t, hmem, hkind, rfl⟩⟩
    | @register _ t r ht hr =>
      obtain rfl : required = .registerName := by simpa [Slot.suits] using hsuits
      exact refills_of_isRegister (Registry.isRegister_classify rfl (Register.ofText?_spelling r))
    | @number _ _ t f x hcode ht hx =>
      refine refills_of_isInteger ?_ (Kind.isInteger_classify _)
      cases code with
      | label | register => cases hcode
      | value =>
        simp only [Slot.suits, Bool.and_eq_true, beq_iff_eq, decide_eq_true_eq] at hsuits
        obtain ⟨⟨hindex, hrequired⟩, hinteger⟩ := hsuits
        cases hcode
        have hfit := exists_fit_of_place h hindex ht hrequired
        have hkind := Kind.isInteger_of_fit_isInteger hfit hinteger
        have hlexed := h.lexed t (List.mem_of_getElem? ht)
        rw [operandValue_of_isInteger hkind hx]
        rwa [hlexed.integer hkind] at hfit
      | upper | relativeUpper =>
        obtain rfl : required = .integer20 := by simpa [Slot.suits] using hsuits
        cases hcode
        exact Kind.fit_classify_upper20 _
      | lower | relativeLower =>
        obtain rfl : required = .integer12 := by simpa [Slot.suits] using hsuits
        cases hcode
        exact Kind.fit_classify_lower12 _

theorem forall₂_refills (h : s.Parsed Rv32im.registry) {pc : Word} {lookup : Text → Option Int}
    {row : List Slot} (hlegible : Legible (Rv32im.registry.vocabulary true) s.tokens lookup row)
    {tss : List (List (Kind × Text × Int))}
    (hreads : List.Forall₂ (Slot.Reads s.tokens pc lookup (Rv32im.registry.vocabulary true)) row
      tss) {first : Bool} {format : List Kind}
    (hsuits : List.Forall₂
      (fun required (slot : Slot) => slot.suits s.instruction.format first required = true)
      format (row.filter fun slot => !slot.isSeparator)) :
    List.Forall₂ (s.Refills first) format tss.flatten := by
  induction hreads generalizing format with
  | nil =>
    cases hsuits
    exact .nil
  | @cons slot ts row tss hslot _ ih =>
    rw [List.flatten_cons]
    cases hseparator : slot.isSeparator with
    | true =>
      obtain rfl : ts = [] := by
        cases hslot with
        | blank | comma => rfl
        | left | right | word | numeral | operand => cases hseparator
      rw [List.filter_cons_of_neg (by simp [hseparator])] at hsuits
      exact ih hlegible.tail hsuits
    | false =>
      rw [List.filter_cons_of_pos (by simp [hseparator])] at hsuits
      cases hsuits with
      | cons hfirst hrest =>
        obtain ⟨c, rfl, hc⟩ := refills_of_reads h hlegible (List.mem_cons_self ..) hslot hfirst
        exact .cons hc (ih hlegible.tail hrest)

/-- A filled-in template is read back as an instruction of its basic form. -/
theorem exists_tokens_of_fill (h : s.Parsed Rv32im.registry) {template : Text} {n : Nat}
    {mnemonic : Text} {row : List Slot} {form : Instruction}
    (hinstance : Rv32im.Instance s.instruction template n mnemonic row form) {pc : Word}
    {lookup : Text → Option Int}
    (hlegible : Legible (Rv32im.registry.vocabulary true) s.tokens lookup (slots (pieces template)))
    {text : Text} (hfill : fill template s.tokens pc lookup = .ok text) (file : Text) (line : Int) :
    ∃ operator operands,
      (Rv32im.registry.vocabulary true).tokenize ⟨text, file, line⟩
        = (⟨operator :: operands, text, ⟨text, file, line⟩⟩, []) ∧
      operator.kind = .operator ∧ operator.text = mnemonic ∧
      (∀ t ∈ operator :: operands, t.Lexed (Rv32im.registry.vocabulary true)) ∧
      List.Forall₂ (s.Refills (n == 0)) form.format (operands.map Token.content) := by
  obtain ⟨texts, hdraws, hflatten⟩ := exists_of_fill hfill
  obtain ⟨texts', hdraws', hflatten'⟩ := exists_slots hdraws
  rw [hinstance.slots_eq] at hdraws' hlegible
  obtain ⟨tss, hspells, hreads⟩ := spells_of_readable hinstance.readable hlegible hdraws'
  rw [hflatten', hflatten] at hspells
  have hline : Spells (Rv32im.registry.vocabulary true) false
      (⟨text, file, line⟩ : SourceLine).text tss.flatten := hspells
  obtain ⟨tokens, htokens, htokenize⟩ := Vocabulary.tokenize_of_spells hline
  -- The first slot is the mnemonic, and the others become the operands.
  cases hreads with
  | cons hfirst hrest =>
    cases hfirst with
    | numeral hword =>
      rw [hinstance.isWord] at hword
      cases hword
    | word =>
      obtain ⟨operator, operands, rfl, hoperator, hoperands⟩ := List.map_eq_cons_iff.1 htokens
      simp only [Token.content, Prod.mk.injEq, hinstance.operator] at hoperator
      have hlexed : ∀ t ∈ ((Rv32im.registry.vocabulary true).tokenize ⟨text, file, line⟩).1.tokens,
          t.Lexed (Rv32im.registry.vocabulary true) := fun t ht =>
        Vocabulary.lexed_of_mem_tokenizeText ht
      rw [htokenize] at hlexed
      refine ⟨operator, operands, htokenize, hoperator.1, hoperator.2.1, hlexed, ?_⟩
      rw [hoperands]
      exact forall₂_refills h hlegible.tail hrest hinstance.suits

end Statement

/-! ### Choosing the form -/

theorem Instruction.check_of_forall₂ {i : Instruction} {operands : List Token}
    (h : List.Forall₂ (fun required (t : Token) => (required.fit t.kind).isOk = true) i.format
      operands) (operator : Token) : i.check operator operands = none := by
  have hlength := h.length_eq
  unfold check
  rw [if_neg (by omega), List.getElem?_eq_none (by omega)]
  apply List.findSome?_eq_none_iff.2
  rintro ⟨required, t⟩ hmem
  have hfit := List.forall₂_zip h hmem
  rw [Option.map_eq_none_iff, operandError?]
  split
  · rfl
  · rfl
  · rename_i hnarrow
    rw [hnarrow] at hfit
    cases hfit
  · rename_i hmismatch
    rw [hmismatch] at hfit
    cases hfit

theorem Instruction.exists_of_not_isExtended {i : Instruction} (h : i.isExtended = false) :
    ∃ relative encoding, i.meaning = .basic relative encoding := by
  unfold isExtended at h
  split at h
  · exact ⟨_, _, ‹_›⟩
  · cases h

theorem Instruction.select_of_head? {forms : List Instruction} {form : Instruction}
    (hhead : forms.head? = some form) {operands : List Token}
    (h : List.Forall₂ (fun required (t : Token) => (required.fit t.kind).isOk = true) form.format
      operands) : select forms operands = some form := by
  obtain ⟨rest, rfl⟩ := List.head?_eq_some_iff.1 hhead
  have haccepts : form.accepts operands = true := by
    simp only [accepts, Bool.and_eq_true, beq_iff_eq, List.all_eq_true]
    exact ⟨h.length_eq, fun pair hpair => List.forall₂_zip h hpair⟩
  simp [select, haccepts]

namespace Statement

variable {s : Statement} {names : Names}

theorem LabelError.of_labels {b : Statement} {p : Problem} (h : b.LabelError names p)
    (hlabels : ∀ t ∈ b.operands, t.kind.isLabel = true →
      b.address = s.address ∧ ∃ t' ∈ s.operands, t'.kind.isLabel = true ∧ t'.text = t.text) :
    s.LabelError names p := by
  cases h with
  | undefined ht hkind hnone =>
    obtain ⟨-, t', ht', hkind', htext⟩ := hlabels _ ht hkind
    rw [← htext] at hnone ⊢
    exact .undefined ht' hkind' hnone
  | undefinedOperand ht hkind hnone =>
    obtain ⟨-, t', ht', hkind', htext⟩ := hlabels _ ht hkind
    rw [← htext] at hnone ⊢
    exact .undefinedOperand ht' hkind' hnone
  | branch ht hkind ha hnot =>
    obtain ⟨haddress, t', ht', hkind', htext⟩ := hlabels _ ht hkind
    rw [← htext] at ha
    rw [haddress] at hnot ⊢
    exact .branch ht' hkind' ha hnot
  | jump ht hkind ha hnot =>
    obtain ⟨haddress, t', ht', hkind', htext⟩ := hlabels _ ht hkind
    rw [← htext] at ha
    rw [haddress] at hnot ⊢
    exact .jump ht' hkind' ha hnot

/-- The basic statement that template `n` of a statement is read back as. -/
def instantiate (s : Statement) (n : Nat) (line : SourceLine) (operator : Token)
    (operands : List Token) (form : Instruction) : Statement :=
  { s with
    source := if n = 0 then s.source else none
    line := line, operator := operator, operands := operands
    address := s.address + BitVec.ofNat 32 (4 * n), instruction := form }

theorem expandTemplate_eq_encode {isa : Registry} {template text : Text} {n : Nat}
    {operator : Token} {operands : List Token} {form : Instruction} {relative : Bool}
    {encoding : Encoding}
    (hfill : fill template s.tokens s.address
      (fun name => (names.address? name).map fun a => a.toNat) isa.registers = .ok text)
    (htokenize : (isa.vocabulary true).tokenize ⟨text, s.line.file, s.line.line⟩
      = (⟨operator :: operands, text, ⟨text, s.line.file, s.line.line⟩⟩, []))
    (hoperator : operator.kind = .operator)
    (hselect : Instruction.select (isa.lookup operator.text) operands = some form)
    (hmeaning : form.meaning = .basic relative encoding)
    (hcheck : form.check operator operands = none) :
    s.expandTemplate isa names template n
      = (s.instantiate n ⟨text, s.line.file, s.line.line⟩ operator operands form).encode
          isa.registers names relative encoding := by
  simp only [expandTemplate, hfill, bind, Except.bind, htokenize, hoperator, hselect, hmeaning,
    hcheck, bne_self_eq_false, Bool.false_eq_true, if_false]
  rfl

/-- A template of a recorded statement gives a machine statement, or a label is at fault. -/
theorem expandTemplate_of_parsed (h : s.Parsed Rv32im.registry) {templates : List Text}
    (hmeaning : s.instruction.meaning = .extended templates) {template : Text} {n : Nat}
    (hmem : (template, n) ∈ templates.zipIdx) (names : Names) :
    (∃ m, s.expandTemplate Rv32im.registry names template n = .ok m) ∨
      ∃ t p, s.expandTemplate Rv32im.registry names template n = .error (.problem t p) ∧
        s.LabelError names p := by
  obtain ⟨mnemonic, row, form, hinstance⟩ :=
    Rv32im.exists_instance (Rv32im.isInstance_of_mem h.mem_forms hmeaning hmem)
  have hlegible := legible h hmeaning (List.fst_mem_of_mem_zipIdx hmem)
    fun name => (names.address? name).map fun a => a.toNat
  rcases fill_cases h hinstance.draws s.address
      fun name => (names.address? name).map fun a => a.toNat with
    ⟨text, hfill⟩ | ⟨t, ht, hkind, hnone, hfill⟩
  · obtain ⟨operator, operands, htokenize, hoperator, hmnemonic, hlexed, hrefills⟩ :=
      exists_tokens_of_fill h hinstance hlegible hfill s.line.file s.line.line
    obtain ⟨relative, encoding, hbasic⟩ := Instruction.exists_of_not_isExtended hinstance.basic
    rw [List.forall₂_map_right_iff] at hrefills
    have hfits : List.Forall₂ (fun required (t : Token) => (required.fit t.kind).isOk = true)
        form.format operands := hrefills.imp fun _ _ hrefill => hrefill.1
    have hselect : Instruction.select (Rv32im.registry.lookup operator.text) operands
        = some form := by
      rw [hmnemonic]
      exact Instruction.select_of_head? hinstance.head hfits
    have hcheck := Instruction.check_of_forall₂ hfits operator
    rw [expandTemplate_eq_encode hfill htokenize hoperator hselect hbasic hcheck]
    have hparsed : (s.instantiate n ⟨text, s.line.file, s.line.line⟩ operator operands
        form).Parsed Rv32im.registry := ⟨hselect, hcheck, hlexed⟩
    rcases encode_of_parsed hparsed hbasic names with hok | ⟨t, p, herror, hlabel⟩
    · exact .inl hok
    · refine .inr ⟨t, p, herror, hlabel.of_labels fun t ht hkind => ?_⟩
      obtain ⟨required, -, hrefill⟩ := exists_of_forall₂ hrefills.flip ht
      obtain ⟨hfirst, hlabels⟩ := hrefill.2 hkind
      -- Only a first template takes a label over, and its word stands where the statement does.
      refine ⟨?_, hlabels⟩
      rw [eq_of_beq hfirst]
      exact BitVec.add_zero _
  · refine .inr ⟨t, .operand (.undefinedSymbol t.text), ?_, .undefinedOperand ht hkind ?_⟩
    · simp only [expandTemplate, Rv32im.registers_registry, hfill, bind, Except.bind]
    · simpa using hnone

/-- A recorded statement is resolved, or a label is at fault. -/
theorem resolve_of_parsed (h : s.Parsed Rv32im.registry) (names : Names) :
    (∃ ms, s.resolve Rv32im.registry names = .ok ms) ∨
      ∃ t p, s.resolve Rv32im.registry names = .error (.problem t p) ∧ s.LabelError names p := by
  cases hmeaning : s.instruction.meaning with
  | basic relative encoding =>
    simp only [resolve, hmeaning, Rv32im.registers_registry]
    rcases encode_of_parsed h hmeaning names with ⟨m, hm⟩ | ⟨t, p, herror, hlabel⟩
    · exact .inl ⟨[m], by rw [hm]; rfl⟩
    · exact .inr ⟨t, p, by rw [herror]; rfl, hlabel⟩
  | extended templates =>
    cases hresolve : s.resolve Rv32im.registry names with
    | ok ms => exact .inl ⟨ms, rfl⟩
    | error e =>
      simp only [resolve, hmeaning] at hresolve
      obtain ⟨⟨template, n⟩, hmem, herror⟩ := exists_of_mapM_eq_error hresolve
      rcases expandTemplate_of_parsed h hmeaning hmem names with ⟨m, hm⟩ | ⟨t, p, hproblem, hlabel⟩
      · cases hm.symm.trans herror
      · cases hproblem.symm.trans herror
        exact .inr ⟨t, p, rfl, hlabel⟩

end Statement

/-! ### Both passes -/

/-- An instruction whose form was found, with operands that fit, becomes its words in the second
pass, wherever it stands and whatever the labels are. Otherwise one error is left, about one of its
labels: the label is not defined, or its distance is odd or out of range for a branch or a jump. -/
theorem resolve_of_readInstruction {scope : Scope} (hisa : scope.isa = Rv32im.registry)
    {r : Reading} {note : Text} {tokenLine : TokenLine} {operator : Token} {operands : List Token}
    (htokens : ∀ t ∈ operator :: operands, ∃ text line,
      t ∈ (scope.vocabulary.tokenizeText text line).1.tokens)
    {s : Statement}
    (hs : (r.readInstruction scope note tokenLine operator operands).parsed = r.parsed ++ [s])
    (address : Address) (names : Names) :
    (∃ ms, { s with address := address }.resolve Rv32im.registry names = .ok ms ∧
      4 * ms.length = s.instruction.size ∧ ∀ m ∈ ms, m.instruction.isExtended = false) ∨
    ∃ t p, { s with address := address }.resolve Rv32im.registry names = .error (.problem t p) ∧
      { s with address := address }.LabelError names p := by
  have hparsed : { s with address := address }.Parsed Rv32im.registry := by
    rcases r.readInstruction_cases scope note tokenLine operator operands with
      hquiet | ⟨form, cursors, -, hselect, hcheck, hread⟩
    · rw [hquiet.parsed] at hs
      exact absurd hs (by simp)
    · rw [hread] at hs
      obtain rfl := List.singleton_inj.1 (List.append_cancel_left hs)
      rw [hisa] at hselect
      refine ⟨hselect, hcheck, fun t ht => ?_⟩
      obtain ⟨text, line, hmem⟩ := htokens t ht
      rw [Scope.vocabulary, hisa] at hmem
      exact Vocabulary.lexed_of_mem_tokenizeText hmem
  rcases Statement.resolve_of_parsed hparsed names with ⟨ms, hms⟩ | herror
  · have hexpands := Statement.expandsTo_of_resolve hms
    refine .inl ⟨ms, hms, ?_, hexpands.basic⟩
    have hlength := congrArg List.length hexpands.addresses
    rw [List.length_map, List.length_map, List.length_range] at hlength
    rw [hlength, Instruction.size]
  · exact .inr herror

/-- The line `sw a0, add, t1`, a store to a label with the name of a mnemonic. -/
def addStoreLine : TokenLine :=
  ((Rv32im.registry.vocabulary true).tokenize ⟨"sw a0, add, t1", "a.s", 1⟩).1

def addStoreOperator : Token := ⟨.operator, "sw", "a.s", 1, 1, 0, 0, 0⟩

def addStoreOperands : List Token :=
  [⟨.registerName, "a0", "a.s", 1, 4, 3, 0, 0⟩, ⟨.operator, "add", "a.s", 1, 8, 7, 0, 0⟩,
   ⟨.registerName, "t1", "a.s", 1, 13, 12, 0, 0⟩]

theorem resolve_of_addStoreLine :
    addStoreOperator :: addStoreOperands = addStoreLine.tokens ∧
    ∃ s, ((Reading.start (.ofConfig {}) "a.s").readInstruction ⟨{}, Rv32im.registry, 0, #[]⟩ []
        addStoreLine addStoreOperator addStoreOperands).parsed = [s] ∧
      ((∃ ms, { s with address := 0x00400ffe }.resolve Rv32im.registry
          ⟨⟨[⟨"add", 0x10010000, true⟩], by decide⟩, .empty⟩ = .ok ms ∧
        4 * ms.length = s.instruction.size ∧ ∀ m ∈ ms, m.instruction.isExtended = false) ∨
      ∃ t p, { s with address := 0x00400ffe }.resolve Rv32im.registry
          ⟨⟨[⟨"add", 0x10010000, true⟩], by decide⟩, .empty⟩ = .error (.problem t p) ∧
        { s with address := 0x00400ffe }.LabelError
          ⟨⟨[⟨"add", 0x10010000, true⟩], by decide⟩, .empty⟩ p) := by
  have htokens : addStoreOperator :: addStoreOperands = addStoreLine.tokens := by decide +kernel
  obtain ⟨s, hs⟩ : ∃ s, ((Reading.start (.ofConfig {}) "a.s").readInstruction
      ⟨{}, Rv32im.registry, 0, #[]⟩ [] addStoreLine addStoreOperator addStoreOperands).parsed
        = [s] := by
    apply List.length_eq_one_iff.1
    decide +kernel
  refine ⟨htokens, s, hs, resolve_of_readInstruction rfl ?_ hs 0x00400ffe _⟩
  intro t ht
  rw [htokens] at ht
  exact ⟨"sw a0, add, t1", ⟨"sw a0, add, t1", "a.s", 1⟩, ht⟩

end Rv32Assembler
