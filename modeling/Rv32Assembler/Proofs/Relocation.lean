import Rv32Assembler.Isa.Rv32im
import Rv32Assembler.Proofs.Filling
import Rv32Assembler.Proofs.Parsing
/-!
# Labels and constants in machine words

Where the words of a program lead. A near reference is one word with an offset from its own address; a
far reference is two words, the first of which adds an upper part to its address and the second a
signed lower part; a constant is split the same way. Decoding the words in memory and adding up gives
the address that the label has at the end, or the constant (`targets_of_assemble`).

Each kind of reference is a property of a form's templates that can be evaluated, so it is settled for
the whole instruction set at once; what follows from it is proved for any form that has it.
-/

namespace Rv32Assembler

open Template Encoding

namespace Rv32im

def basicMeaning? (name : Text) : Option Meaning :=
  (basic.find? fun i => i.name == name).map Instruction.meaning

theorem find?_name_of_pairwise {forms : List Instruction}
    (hforms : forms.Pairwise fun i j => i.name ≠ j.name) {i : Instruction} (hi : i ∈ forms) :
    forms.find? (fun j => j.name == i.name) = some i := by
  induction hforms with
  | nil => cases hi
  | cons hfirst _ ih =>
    rcases List.mem_cons.1 hi with rfl | hi
    · exact List.find?_cons_of_pos (by simp)
    · rw [List.find?_cons_of_neg (by simpa using hfirst i hi)]
      exact ih hi

theorem basicMeaning?_of_mem {i : Instruction} (h : i ∈ basic) :
    basicMeaning? i.name = some i.meaning := by
  have hnames : basic.Pairwise fun i j => i.name ≠ j.name := by decide
  rw [basicMeaning?, find?_name_of_pairwise hnames h]
  rfl

theorem basicMeaning?_of_mem_lookup {mnemonic : Text} {form : Instruction}
    (h : form ∈ registry.lookup mnemonic) (hbasic : form.isExtended = false) :
    basicMeaning? mnemonic.lower = some form.meaning := by
  have hextended : ∀ i ∈ extended, i.isExtended = true := by decide
  obtain ⟨hmem, hname⟩ := List.mem_filter.1 h
  rcases List.mem_append.1 hmem with hmem | hmem
  · rw [← eq_of_beq hname, basicMeaning?_of_mem hmem]
  · rw [hextended form hmem] at hbasic
    cases hbasic

/-- The basic operation of a template with the slots of its operands, if it will be read back as it
stands. -/
def operation? (template : Text) : Option (Bool × Encoding × List Slot) :=
  match slots (pieces template) with
  | .word mnemonic :: row =>
    match basicMeaning? mnemonic.lower with
    | some (.basic relative encoding) =>
      if separated false (.word mnemonic :: row) && wordsAreRegisters row then
        some (relative, encoding, row.filter Slot.isOperand)
      else none
    | _ => none
  | _ => none

theorem exists_values {s : Statement} {names : Names} {template : Text} {i : Nat}
    {m : MachineStatement} (h : s.expandTemplate registry names template i = .ok m)
    {relative : Bool} {encoding : Encoding} {row : List Slot}
    (hoperation : operation? template = some (relative, encoding, row))
    (hlegible : Legible (registry.vocabulary true) s.tokens
      (fun name => (names.address? name).map fun a => a.toNat) (slots (pieces template))) :
    ∃ values, encoding.encode values = .ok m.code ∧
      List.Forall₂
        (Slot.Value s.tokens s.address names relative (s.address + BitVec.ofNat 32 (4 * i)))
        row values := by
  unfold operation? at hoperation
  split at hoperation
  · rename_i mnemonic operands hslots
    split at hoperation
    · rename_i relative' encoding' hbasic
      split at hoperation
      · rename_i hchecks
        cases hoperation
        obtain ⟨hseparated, hwords⟩ := Bool.and_eq_true_iff.1 hchecks
        obtain ⟨form, relative', encoding', values, hform, hmeaning, hcode, hvalues⟩ :=
          s.expandTemplate_values rfl h hslots hseparated hwords hlegible
        have hextended : form.isExtended = false := by simp only [Instruction.isExtended, hmeaning]
        have hsame := basicMeaning?_of_mem_lookup hform hextended
        rw [hbasic, hmeaning] at hsame
        cases hsame
        exact ⟨values, hcode, hvalues⟩
      · cases hoperation
    · cases hoperation
  · cases hoperation

/-! ### Legible templates -/

/-- A place for an integer of at most 32 bits. -/
def isNarrow : Kind → Bool
  | .integer5 | .integer6 | .integer12 | .integer20 | .integer32 => true
  | _ => false

/-- The labels and values of the form's templates come from operands for labels and integers. -/
def drawsInKind (i : Instruction) : Bool :=
  match i.meaning with
  | .basic .. => true
  | .extended templates =>
    templates.all fun template =>
      (slots (pieces template)).all fun
        | .operand .label index => 0 < index && i.format[index - 1]? == some .identifier
        | .operand .value index => 0 < index && (i.format[index - 1]?).any isNarrow
        | _ => true

theorem drawsInKind_of_mem {i : Instruction} (h : i ∈ registry.forms) : drawsInKind i = true := by
  have hall : ∀ i ∈ registry.forms, drawsInKind i = true := by decide +kernel
  exact hall i h

end Rv32im

theorem Kind.isLabel_of_fit {provided : Kind} (h : (identifier.fit provided).isOk = true) :
    provided.isLabel = true := by
  revert h
  cases provided <;> decide

theorem Kind.isInteger_of_fit {required provided : Kind} (h : (required.fit provided).isOk = true)
    (hrequired : Rv32im.isNarrow required = true) :
    provided.isInteger = true ∧ provided ≠ .integer64 := by
  revert h hrequired
  cases required <;> cases provided <;> decide

theorem Token.Lexed.value_bounds {v : Vocabulary} {t : Token} (h : t.Lexed v)
    (hinteger : t.kind.isInteger = true) (hkind : t.kind ≠ .integer64) :
    -2 ^ 31 ≤ t.value ∧ t.value < 2 ^ 32 := by
  rw [h.integer hinteger] at hkind
  unfold Kind.classify at hkind
  simp only [Bool.and_eq_true, decide_eq_true_eq] at hkind
  by_contra hout
  apply hkind
  rw [if_neg (by omega), if_neg (by omega), if_neg (by omega), if_neg (by omega),
    if_neg (by omega)]

namespace Statement

theorem exists_fit_of_place {isa : Registry} {s : Statement} (h : s.Parsed isa) {index : Nat}
    (hindex : 0 < index) {t : Token} (ht : s.tokens[index]? = some t) {required : Kind}
    (hrequired : s.instruction.format[index - 1]? = some required) :
    (required.fit t.kind).isOk = true := by
  obtain ⟨place, rfl⟩ : ∃ place, index = place + 1 := ⟨index - 1, by omega⟩
  rw [tokens, List.getElem?_cons_succ] at ht
  obtain ⟨hlt, rfl⟩ := List.getElem?_eq_some_iff.1 ht
  obtain ⟨hlt', rfl⟩ := List.getElem?_eq_some_iff.1 hrequired
  exact h.fits.get hlt' hlt

theorem legible {s : Statement} (h : s.Parsed Rv32im.registry) {templates : List Text}
    (hmeaning : s.instruction.meaning = .extended templates) {template : Text}
    (htemplate : template ∈ templates) (lookup : Text → Option Int) :
    Legible (Rv32im.registry.vocabulary true) s.tokens lookup (slots (pieces template)) := by
  have hkinds := Rv32im.drawsInKind_of_mem h.mem_forms
  simp only [Rv32im.drawsInKind, hmeaning, List.all_eq_true] at hkinds
  refine ⟨?_, ?_⟩
  · intro index t hslot ht
    have hplace := hkinds template htemplate _ hslot
    simp only [Bool.and_eq_true, decide_eq_true_eq, beq_iff_eq] at hplace
    have hfit := exists_fit_of_place h hplace.1 ht hplace.2
    exact ⟨h.lexed t (List.mem_of_getElem? ht), Kind.isLabel_of_fit hfit⟩
  · intro index t x hslot ht hx
    have hplace := hkinds template htemplate _ hslot
    simp only [Bool.and_eq_true, decide_eq_true_eq, Option.any_eq_true] at hplace
    obtain ⟨hindex, required, hrequired, hnarrow⟩ := hplace
    obtain ⟨hinteger, hkind⟩ := Kind.isInteger_of_fit (exists_fit_of_place h hindex ht hrequired)
      hnarrow
    have hbounds := (h.lexed t (List.mem_of_getElem? ht)).value_bounds hinteger hkind
    rw [operandValue, if_pos hinteger] at hx
    cases hx
    omega

/-! ### References -/

theorem operandValue_of_isLabel {names : Names} {t : Token} (hkind : t.kind.isLabel = true) {x : Int}
    (h : operandValue .rv32 (fun name => (names.address? name).map fun a => a.toNat) t = .ok x) :
    ∃ a, names.address? t.text = some a ∧ x = a.toNat := by
  have hinteger : t.kind.isInteger = false := by
    rw [Bool.eq_false_iff]
    intro hinteger
    rw [(Kind.not_isWord_of_isInteger hinteger).1] at hkind
    cases hkind
  simp only [operandValue, hinteger, hkind, Bool.false_eq_true, if_false, if_true] at h
  cases ha : names.address? t.text with
  | none =>
    rw [ha] at h
    cases h
  | some a =>
    rw [ha] at h
    exact ⟨a, rfl, (Except.ok.inj h).symm⟩

/-- The word of a template with a label as its target leads to the label. -/
theorem jumpsBy_of_expandTemplate {s : Statement} {names : Names} {template : Text}
    {m : MachineStatement} (h : s.expandTemplate Rv32im.registry names template 0 = .ok m)
    {encoding : Encoding} {row : List Slot} {index : Nat}
    (hoperation : Rv32im.operation? template = some (true, encoding, row))
    (htarget : encoding.target? row = some (.operand .label index))
    (hlegible : Legible (Rv32im.registry.vocabulary true) s.tokens
      (fun name => (names.address? name).map fun a => a.toNat) (slots (pieces template)))
    {t : Token} (ht : s.tokens[index]? = some t) :
    ∃ a, names.address? t.text = some a ∧ JumpsBy m.code (a - s.address) := by
  obtain ⟨values, hcode, hvalues⟩ := Rv32im.exists_values h hoperation hlegible
  obtain ⟨offset, hoffset, hjumps⟩ := jumpsBy_of_encode hcode htarget hvalues
  obtain ⟨t', a, ht', ha, rfl⟩ := hoffset.of_label
  cases ht.symm.trans ht'
  refine ⟨a, ha, ?_⟩
  rwa [if_pos rfl, BitVec.ofInt_toInt, Nat.mul_zero, BitVec.add_zero] at hjumps

/-- The words of two templates that split the distance to a label lead to the label. -/
theorem addsTo_of_expandTemplate {s : Statement} {names : Names} {first second : Text}
    {m m' : MachineStatement} (h : s.expandTemplate Rv32im.registry names first 0 = .ok m)
    (h' : s.expandTemplate Rv32im.registry names second 1 = .ok m') {relative relative' : Bool}
    {encoding : Encoding} {row : List Slot} {base : Slot} {index : Nat}
    (hfirst : Rv32im.operation? first
      = some (relative, .upper Opcode.auipc, [base, .operand .relativeUpper index]))
    (hsecond : Rv32im.operation? second = some (relative', encoding, row))
    (hindexed : encoding.indexed? row = some (base, .operand .relativeLower index))
    (hbase : base.isRegister = true)
    (hlegible : ∀ template, template = first ∨ template = second →
      Legible (Rv32im.registry.vocabulary true) s.tokens
        (fun name => (names.address? name).map fun a => a.toNat) (slots (pieces template)))
    {t : Token} (ht : s.tokens[index]? = some t) (hkind : t.kind.isLabel = true) :
    ∃ a rd upper lower, names.address? t.text = some a ∧
      Decoded.ofWord? m.code = some (.upper Opcode.auipc rd upper) ∧ AddsTo m'.code rd lower ∧
      s.address + (upper ++ 0#12) + lower.signExtend 32 = a := by
  obtain ⟨values, hcode, hvalues⟩ := Rv32im.exists_values h hfirst (hlegible first (.inl rfl))
  obtain ⟨values', hcode', hvalues'⟩ := Rv32im.exists_values h' hsecond (hlegible second (.inr rfl))
  obtain ⟨rs1, lower, hrs1, hlower, hadds⟩ := addsTo_of_encode hcode' hindexed hvalues'
  obtain _ | ⟨hrd, _ | ⟨hupper, _ | _⟩⟩ := hvalues
  obtain ⟨r, hr, rfl⟩ := hrd.of_isRegister hbase
  obtain ⟨r', hr', rfl⟩ := hrs1.of_isRegister hbase
  obtain rfl := hr.unique hr'
  obtain ⟨t₁, x, ht₁, hx, rfl⟩ := hupper.of_number rfl
  obtain ⟨t₂, x', ht₂, hx', rfl⟩ := hlower.of_number rfl
  cases ht.symm.trans ht₁
  cases ht.symm.trans ht₂
  cases hx.symm.trans hx'
  obtain ⟨a, ha, rfl⟩ := operandValue_of_isLabel hkind hx
  refine ⟨a, _, _, _, ha, ofWord?_of_encodeUpper hcode (.inr rfl), hadds, ?_⟩
  rw [BitVec.add_assoc, upper20_add_lower12, add_ofInt_distance]
  simp

theorem jumpsBy_of_encode {s : Statement} {names : Names} {encoding : Encoding}
    {m : MachineStatement} (h : s.encode .rv32 names true encoding = .ok m)
    (hplain : ∀ t ∈ s.operands, t.kind.isParen = false) {t : Token}
    (htarget : encoding.target? s.operands = some t) (hkind : t.kind.isLabel = true) :
    ∃ a, names.address? t.text = some a ∧ JumpsBy m.code (a - s.address) := by
  obtain ⟨o, hfold, hcode, -⟩ := encode_eq_ok h
  obtain ⟨values, hvalues, hall⟩ := values_of_foldlM hfold
  have hfilter : ((s.operands.map Token.content).filter fun c => !c.1.isParen)
      = s.operands.map Token.content := by
    rw [List.filter_eq_self]
    intro c hc
    obtain ⟨t, ht, rfl⟩ := List.mem_map.1 hc
    simp [Token.content, hplain t ht]
  rw [hfilter, List.forall₂_map_left_iff] at hall
  rw [hvalues] at hcode
  obtain ⟨offset, hoffset, hjumps⟩ := Encoding.jumpsBy_of_encode hcode htarget hall
  obtain ⟨a, ha, rfl⟩ := hoffset.of_isLabel hkind
  refine ⟨a, ha, ?_⟩
  rwa [if_pos rfl, BitVec.ofInt_toInt] at hjumps

theorem forall₂_of_resolve {s : Statement} {isa : Registry} {names : Names} {templates : List Text}
    {ms : List MachineStatement} (hmeaning : s.instruction.meaning = .extended templates)
    (h : s.resolve isa names = .ok ms) :
    List.Forall₂ (fun p m => s.expandTemplate isa names p.1 p.2 = .ok m) templates.zipIdx ms := by
  simp only [resolve, hmeaning] at h
  exact mapM_eq_ok_iff.1 h

end Statement

/-! ### The instruction set -/

def Meaning.templates? : Meaning → Option (List Text)
  | basic .. => none
  | extended templates => some templates

theorem Meaning.eq_extended {meaning : Meaning} {templates : List Text}
    (h : meaning.templates? = some templates) : meaning = .extended templates := by
  cases meaning with
  | basic => cases h
  | extended templates' => exact congrArg extended (Option.some.inj h)

namespace Rv32im

def nearMnemonics : List Text :=
  ["beq", "bne", "blt", "bge", "bltu", "bgeu", "jal", "b", "j", "beqz", "bnez", "blez", "bgez", "bltz",
   "bgtz", "bgt", "ble", "bgtu", "bleu"]

/-- The mnemonics whose labels are reached by two words. -/
def farMnemonics : List Text :=
  ["la", "lb", "lh", "lw", "lbu", "lhu", "sb", "sh", "sw", "call", "tail"]

/-- The form leads to the label in a place by an offset in its only word. -/
def isNear (i : Instruction) (place : Nat) : Bool :=
  match i.meaning with
  | .basic true (.branch _) =>
    i.format == [.registerName, .registerName, .identifier] && place == 2
  | .basic true .jump => i.format == [.registerName, .identifier] && place == 1
  | .extended [template] =>
    match operation? template with
    | some (true, encoding, row) => encoding.target? row == some (.operand .label (place + 1))
    | _ => false
  | _ => false

/-- The form leads to the label in a place by the upper and the lower part of the distance, and the
second word adds to the register that the first one sets. -/
def isFar (i : Instruction) (place : Nat) : Bool :=
  match i.meaning with
  | .extended [first, second] =>
    match operation? first, operation? second with
    | some (_, .upper opcode, [base, .operand .relativeUpper index]), some (_, encoding, row) =>
      opcode == Opcode.auipc && index == place + 1 && base.isRegister
        && encoding.indexed? row == some (base, .operand .relativeLower index)
    | _, _ => false
  | _ => false

/-- The form is near or far in every place for a label. -/
def isReached (i : Instruction) : Bool :=
  (List.range i.format.length).all fun place =>
    i.format[place]? != some .identifier || nearMnemonics.contains i.name && isNear i place
      || farMnemonics.contains i.name && isFar i place

/-- Every form with a place for a label is near or far. -/
theorem near_or_far {i : Instruction} (h : i ∈ registry.forms) {place : Nat}
    (hplace : i.format[place]? = some .identifier) :
    (i.name ∈ nearMnemonics ∧ isNear i place = true) ∨
      (i.name ∈ farMnemonics ∧ isFar i place = true) := by
  have hall : ∀ i ∈ registry.forms, isReached i = true := by decide +kernel
  have hreached := List.all_eq_true.1 (hall i h) place
    (List.mem_range.2 (List.getElem?_eq_some_iff.1 hplace).1)
  simpa [hplace] using hreached

theorem not_operator_of_mem {i : Instruction} (h : i ∈ registry.forms) {required : Kind}
    (hrequired : required ∈ i.format) : required ≠ .operator := by
  have hall : ∀ i ∈ registry.forms, ∀ required ∈ i.format, required ≠ .operator := by
    decide
  exact hall i h required hrequired

theorem meaning_of_li {i : Instruction} (h : i ∈ registry.forms) (hname : i.name = "li") :
    (i.format = [.registerName, .integer12] ∧
        i.meaning = .extended ["addi RG1, x0, VL2"]) ∨
      (i.format = [.registerName, .integer32] ∧
        i.meaning = .extended ["lui RG1, LH2", "addi RG1, RG1, LL2"]) := by
  have hall : ∀ i ∈ registry.forms, i.name = "li" →
      (i.format = [.registerName, .integer12] ∧
          i.meaning.templates? = some [("addi RG1, x0, VL2" : Text)]) ∨
        (i.format = [.registerName, .integer32] ∧
          i.meaning.templates? = some [("lui RG1, LH2" : Text), "addi RG1, RG1, LL2"]) := by
    decide
  exact (hall i h hname).imp (And.imp_right Meaning.eq_extended) (And.imp_right Meaning.eq_extended)

theorem operation?_eq_some {template mnemonic : Text} {row : List Slot} {relative : Bool}
    {encoding : Encoding} (hslots : slots (pieces template) = .word mnemonic :: row)
    (hmeaning : basicMeaning? mnemonic.lower = some (.basic relative encoding))
    (hreadable : (separated false (.word mnemonic :: row) && wordsAreRegisters row) = true) :
    operation? template = some (relative, encoding, row.filter Slot.isOperand) := by
  simp only [operation?, hslots, hmeaning, hreadable, if_true]

theorem operations_of_li :
    operation? "addi RG1, x0, VL2"
        = some (false, .immediate Opcode.immediate 0,
            [.operand .register 1, .word "x0", .operand .value 2]) ∧
      operation? "lui RG1, LH2"
        = some (false, .upper Opcode.lui, [.operand .register 1, .operand .upper 2]) ∧
      operation? "addi RG1, RG1, LL2"
        = some (false, .immediate Opcode.immediate 0,
            [.operand .register 1, .operand .register 1, .operand .lower 2]) ∧
      Register.ofText? "x0" = some 0 := by
  have hshort : slots (pieces "addi RG1, x0, VL2")
      = [.word "addi", .mark 0x20, .operand .register 1, .mark 0x2c, .mark 0x20, .word "x0",
          .mark 0x2c, .mark 0x20, .operand .value 2] := by
    decide +kernel
  have hupper : slots (pieces "lui RG1, LH2")
      = [.word "lui", .mark 0x20, .operand .register 1, .mark 0x2c, .mark 0x20,
          .operand .upper 2] := by
    decide +kernel
  have hlow : slots (pieces "addi RG1, RG1, LL2")
      = [.word "addi", .mark 0x20, .operand .register 1, .mark 0x2c, .mark 0x20,
          .operand .register 1, .mark 0x2c, .mark 0x20, .operand .lower 2] := by
    decide +kernel
  have hlower (name : Text) (hname : name ∈ basic.map Instruction.name) : name.lower = name := by
    revert name
    decide +kernel
  have haddi : basicMeaning? ("addi" : Text).lower
      = some (.basic false (.immediate Opcode.immediate 0)) := by
    rw [hlower _ (by decide)]
    exact basicMeaning?_of_mem (List.getElem_mem (show 18 < basic.length by decide))
  have hlui : basicMeaning? ("lui" : Text).lower = some (.basic false (.upper Opcode.lui)) := by
    rw [hlower _ (by decide)]
    exact basicMeaning?_of_mem (List.getElem_mem (show 43 < basic.length by decide))
  exact ⟨operation?_eq_some hshort haddi (by decide +kernel),
    operation?_eq_some hupper hlui (by decide +kernel),
    operation?_eq_some hlow haddi (by decide +kernel), by decide +kernel⟩

end Rv32im

/-! ### Statements -/

theorem Kind.not_isParen_of_fit {required provided : Kind}
    (h : (required.fit provided).isOk = true) (hrequired : required.isParen = false) :
    provided.isParen = false := by
  revert h hrequired
  cases required <;> cases provided <;> decide

namespace Statement

variable {s : Statement} {names : Names} {ms : List MachineStatement}

theorem near_of_resolve (hparsed : s.Parsed Rv32im.registry)
    (h : s.resolve Rv32im.registry names = .ok ms) {place : Nat} {t : Token}
    (ht : s.operands[place]? = some t) (hkind : t.kind.isLabel = true)
    (hnear : Rv32im.isNear s.instruction place = true) :
    ∃ m ∈ ms, m.address = s.address ∧
      ∃ a, names.address? t.text = some a ∧ JumpsBy m.code (a - s.address) := by
  have hplain (hformat : s.instruction.format.all fun k => !k.isParen) :
      ∀ t ∈ s.operands, t.kind.isParen = false := by
    intro t ht
    obtain ⟨place, required, hrequired, -, hfit⟩ := hparsed.exists_place ht
    have hrequired' := List.all_eq_true.1 hformat required (List.mem_of_getElem? hrequired)
    exact Kind.not_isParen_of_fit hfit (by simpa using hrequired')
  have hlength := hparsed.fits.length_eq
  have hbasic {encoding : Encoding} (hmeaning : s.instruction.meaning = .basic true encoding)
      (hformat : s.instruction.format.all fun k => !k.isParen)
      (htarget : encoding.target? s.operands = some t) :
      ∃ m ∈ ms, m.address = s.address ∧
        ∃ a, names.address? t.text = some a ∧ JumpsBy m.code (a - s.address) := by
    simp only [resolve, hmeaning, Rv32im.registers_registry] at h
    cases hencode : s.encode .rv32 names true encoding with
    | error e =>
      rw [hencode] at h
      cases h
    | ok m =>
      rw [hencode] at h
      cases h
      obtain ⟨-, -, -, hstatement⟩ := encode_eq_ok hencode
      refine ⟨m, List.mem_singleton_self m, by rw [hstatement], ?_⟩
      exact jumpsBy_of_encode hencode (hplain hformat) htarget hkind
  unfold Rv32im.isNear at hnear
  split at hnear
  · rename_i funct3 hmeaning
    simp only [Bool.and_eq_true, beq_iff_eq] at hnear
    obtain ⟨hformat, rfl⟩ := hnear
    refine hbasic hmeaning (by rw [hformat]; rfl) ?_
    rw [hformat] at hlength
    obtain ⟨a, b, c, hoperands⟩ := List.length_eq_three.1 hlength.symm
    rw [hoperands] at ht ⊢
    exact ht
  · rename_i hmeaning
    simp only [Bool.and_eq_true, beq_iff_eq] at hnear
    obtain ⟨hformat, rfl⟩ := hnear
    refine hbasic hmeaning (by rw [hformat]; rfl) ?_
    rw [hformat] at hlength
    obtain ⟨a, b, hoperands⟩ := List.length_eq_two.1 hlength.symm
    rw [hoperands] at ht ⊢
    exact ht
  · rename_i template hmeaning
    split at hnear
    · rename_i encoding row hoperation
      obtain _ | ⟨hexpand, _ | _⟩ := forall₂_of_resolve hmeaning h
      rename_i m
      obtain ⟨haddress, -⟩ := of_expandTemplate hexpand
      refine ⟨m, List.mem_singleton_self m, by rw [haddress]; simp, ?_⟩
      exact jumpsBy_of_expandTemplate hexpand hoperation (eq_of_beq hnear)
        (legible hparsed hmeaning (List.mem_singleton_self _) _) ht
    · cases hnear
  · cases hnear

theorem far_of_resolve (hparsed : s.Parsed Rv32im.registry)
    (h : s.resolve Rv32im.registry names = .ok ms) {place : Nat} {t : Token}
    (ht : s.operands[place]? = some t) (hkind : t.kind.isLabel = true)
    (hfar : Rv32im.isFar s.instruction place = true) :
    ∃ m ∈ ms, ∃ m' ∈ ms, m.address = s.address ∧ m'.address = s.address + 4 ∧
      ∃ a rd upper lower, names.address? t.text = some a ∧
        Decoded.ofWord? m.code = some (.upper Opcode.auipc rd upper) ∧ AddsTo m'.code rd lower ∧
        s.address + (upper ++ 0#12) + lower.signExtend 32 = a := by
  unfold Rv32im.isFar at hfar
  split at hfar
  · rename_i first second hmeaning
    split at hfar
    · rename_i relative opcode base index relative' encoding row hfirst hsecond
      simp only [Bool.and_eq_true, beq_iff_eq] at hfar
      obtain ⟨⟨⟨rfl, rfl⟩, hbase⟩, hindexed⟩ := hfar
      obtain _ | ⟨hexpand, _ | ⟨hexpand', _ | _⟩⟩ := forall₂_of_resolve hmeaning h
      rename_i m m'
      obtain ⟨haddress, -⟩ := of_expandTemplate hexpand
      obtain ⟨haddress', -⟩ := of_expandTemplate hexpand'
      refine ⟨m, by simp, m', by simp, by rw [haddress]; simp, haddress', ?_⟩
      refine addsTo_of_expandTemplate hexpand hexpand' hfirst hsecond hindexed hbase ?_ ht hkind
      intro template htemplate
      exact legible hparsed hmeaning (by simpa using htemplate) _
    · cases hfar
  · cases hfar

theorem operandValue_of_isInteger {lookup : Text → Option Int} {t : Token}
    (hkind : t.kind.isInteger = true) {x : Int} (h : operandValue .rv32 lookup t = .ok x) :
    x = t.value := by
  rw [operandValue, if_pos hkind] at h
  exact (Except.ok.inj h).symm

theorem ofText?_of_value {pc : Word} {relative : Bool} {address : Address} {index : Nat} {n : Int}
    (h : (Slot.operand .register index).Value s.tokens pc names relative address n) {t : Token}
    (ht : s.tokens[index]? = some t) :
    ∃ r, Register.ofText? t.text = some r ∧ n = r.val := by
  obtain ⟨r, hr, rfl⟩ := h.of_isRegister rfl
  cases hr with
  | operand ht' hr =>
    cases ht.symm.trans ht'
    exact ⟨r, hr, rfl⟩

theorem registerField_val (r : Register) :
    registerField ((r.val : Nat) : Int) = BitVec.ofNat 5 r.val := BitVec.ofInt_natCast 5 r.val

theorem constant_of_expandTemplate {m : MachineStatement} (hparsed : s.Parsed Rv32im.registry)
    (hmeaning : s.instruction.meaning = .extended ["addi RG1, x0, VL2"])
    (h : s.expandTemplate Rv32im.registry names "addi RG1, x0, VL2" 0 = .ok m) {t v : Token}
    (hoperands : s.operands = [t, v]) (hkind : v.kind.isInteger = true) :
    ∃ r imm, Register.ofText? t.text = some r ∧ imm.toInt = v.value ∧
      Decoded.ofWord? m.code
        = some (.immediate Opcode.immediate (BitVec.ofNat 5 r.val) 0 0 imm) := by
  obtain ⟨hoperation, -, -, hzero⟩ := Rv32im.operations_of_li
  have ht : s.tokens[1]? = some t := by rw [tokens, hoperands]; rfl
  have hv : s.tokens[2]? = some v := by rw [tokens, hoperands]; rfl
  obtain ⟨values, hcode, hvalues⟩ := Rv32im.exists_values h hoperation
    (legible hparsed hmeaning (List.mem_singleton_self _) _)
  obtain _ | ⟨hrd, _ | ⟨hbase, _ | ⟨himm, _ | _⟩⟩⟩ := hvalues
  obtain ⟨r, hr, rfl⟩ := ofText?_of_value hrd ht
  obtain ⟨r', hr', rfl⟩ := hbase.of_isRegister rfl
  obtain rfl := hr'.unique (.word hzero)
  obtain ⟨v', x, hv', hx, rfl⟩ := himm.of_number rfl
  cases hv.symm.trans hv'
  obtain rfl := operandValue_of_isInteger hkind hx
  obtain ⟨hdecoded, hfits⟩ := ofWord?_of_encodeImmediate hcode (by decide)
  refine ⟨r, _, hr, toInt_ofInt_of_fitsSigned hfits, ?_⟩
  rw [hdecoded, registerField_val]
  rfl

theorem constant_of_expandTemplates {m m' : MachineStatement}
    (hparsed : s.Parsed Rv32im.registry)
    (hmeaning : s.instruction.meaning = .extended ["lui RG1, LH2", "addi RG1, RG1, LL2"])
    (h : s.expandTemplate Rv32im.registry names "lui RG1, LH2" 0 = .ok m)
    (h' : s.expandTemplate Rv32im.registry names "addi RG1, RG1, LL2" 1 = .ok m') {t v : Token}
    (hoperands : s.operands = [t, v]) (hkind : v.kind.isInteger = true) :
    ∃ r upper lower, Register.ofText? t.text = some r ∧
      Decoded.ofWord? m.code = some (.upper Opcode.lui (BitVec.ofNat 5 r.val) upper) ∧
      Decoded.ofWord? m'.code
        = some (.immediate Opcode.immediate (BitVec.ofNat 5 r.val) 0 (BitVec.ofNat 5 r.val) lower) ∧
      (upper ++ 0#12 : BitVec 32) + lower.signExtend 32 = BitVec.ofInt 32 v.value := by
  obtain ⟨-, hfirst, hsecond, -⟩ := Rv32im.operations_of_li
  have ht : s.tokens[1]? = some t := by rw [tokens, hoperands]; rfl
  have hv : s.tokens[2]? = some v := by rw [tokens, hoperands]; rfl
  obtain ⟨values, hcode, hvalues⟩ := Rv32im.exists_values h hfirst
    (legible hparsed hmeaning (by simp) _)
  obtain ⟨values', hcode', hvalues'⟩ := Rv32im.exists_values h' hsecond
    (legible hparsed hmeaning (by simp) _)
  obtain _ | ⟨hrd, _ | ⟨hupper, _ | _⟩⟩ := hvalues
  obtain _ | ⟨hrd', _ | ⟨hrs1, _ | ⟨hlower, _ | _⟩⟩⟩ := hvalues'
  obtain ⟨r, hr, rfl⟩ := ofText?_of_value hrd ht
  obtain ⟨r₁, hr₁, rfl⟩ := ofText?_of_value hrd' ht
  obtain ⟨r₂, hr₂, rfl⟩ := ofText?_of_value hrs1 ht
  cases hr.symm.trans hr₁
  cases hr.symm.trans hr₂
  obtain ⟨v₁, x, hv₁, hx, rfl⟩ := hupper.of_number rfl
  obtain ⟨v₂, y, hv₂, hy, rfl⟩ := hlower.of_number rfl
  cases hv.symm.trans hv₁
  cases hv.symm.trans hv₂
  obtain rfl := operandValue_of_isInteger hkind hx
  obtain rfl := operandValue_of_isInteger hkind hy
  refine ⟨r, _, _, hr, ?_, ?_, upper20_add_lower12 v.value⟩
  · rw [ofWord?_of_encodeUpper hcode (.inl rfl), registerField_val]
  · rw [(ofWord?_of_encodeImmediate hcode' (by decide)).1, registerField_val]

end Statement

/-! ### Programs -/

namespace Image

variable (image : Image MachineStatement)

/-- The word at an address is a branch or a jump to the target. -/
def ReachesNear (a target : Address) : Prop :=
  ∃ w offset, image.word a = .ok w ∧ JumpsBy w offset ∧ a + offset = target

/-- The two words at an address add up to the target. -/
def ReachesFar (a target : Address) : Prop :=
  ∃ w w' rd upper lower, image.word a = .ok w ∧ image.word (a + 4) = .ok w' ∧
    Decoded.ofWord? w = some (.upper Opcode.auipc rd upper) ∧ AddsTo w' rd lower ∧
    a + (upper ++ 0#12) + lower.signExtend 32 = target

/-- One or two words at an address load a value into a register. -/
def Loads (a : Address) (r : Register) (value : Int) : Prop :=
  (∃ w imm, image.word a = .ok w ∧
    Decoded.ofWord? w = some (.immediate Opcode.immediate (BitVec.ofNat 5 r.val) 0 0 imm) ∧
    imm.toInt = value) ∨
  ∃ w w' upper lower, image.word a = .ok w ∧ image.word (a + 4) = .ok w' ∧
    Decoded.ofWord? w = some (.upper Opcode.lui (BitVec.ofNat 5 r.val) upper) ∧
    Decoded.ofWord? w'
      = some (.immediate Opcode.immediate (BitVec.ofNat 5 r.val) 0 (BitVec.ofNat 5 r.val) lower) ∧
    (upper ++ 0#12 : BitVec 32) + lower.signExtend 32 = BitVec.ofInt 32 value

end Image

namespace Statement

variable {s : Statement} {names : Names} {ms : List MachineStatement} {image : Image MachineStatement}

/-- A label operand is found, and the words of the statement lead to its address. -/
theorem reaches_of_resolve (hparsed : s.Parsed Rv32im.registry)
    (h : s.resolve Rv32im.registry names = .ok ms)
    (hwords : ∀ m ∈ ms, image.word m.address = .ok m.code) {t : Token} (ht : t ∈ s.operands)
    (hkind : t.kind.isLabel = true) :
    ∃ target, names.address? t.text = some target ∧
      ((s.instruction.name ∈ Rv32im.nearMnemonics ∧ image.ReachesNear s.address target) ∨
        (s.instruction.name ∈ Rv32im.farMnemonics ∧ image.ReachesFar s.address target)) := by
  obtain ⟨place, required, hrequired, hplace, hfit⟩ := hparsed.exists_place ht
  have hoperator := Rv32im.not_operator_of_mem hparsed.mem_forms (List.mem_of_getElem? hrequired)
  obtain rfl := Kind.eq_identifier_of_fit hfit hkind hoperator
  rcases Rv32im.near_or_far hparsed.mem_forms hrequired with ⟨hname, hnear⟩ | ⟨hname, hfar⟩
  · obtain ⟨m, hm, haddress, target, htarget, hjumps⟩ :=
      near_of_resolve hparsed h hplace hkind hnear
    refine ⟨target, htarget, .inl ⟨hname, m.code, _, haddress ▸ hwords m hm, hjumps, ?_⟩⟩
    rw [BitVec.add_comm, BitVec.sub_add_cancel]
  · obtain ⟨m, hm, m', hm', haddress, haddress', target, rd, upper, lower, htarget, hdecoded, hadds,
      hsum⟩ := far_of_resolve hparsed h hplace hkind hfar
    exact ⟨target, htarget, .inr ⟨hname, m.code, m'.code, rd, upper, lower, haddress ▸ hwords m hm,
      haddress' ▸ hwords m' hm', hdecoded, hadds, hsum⟩⟩

theorem operands_of_format (hparsed : s.Parsed Rv32im.registry) {required : Kind}
    (hformat : s.instruction.format = [.registerName, required])
    (hnarrow : Rv32im.isNarrow required = true) :
    ∃ t v, s.operands = [t, v] ∧ v.kind.isInteger = true := by
  have hfits := hparsed.fits
  rw [hformat] at hfits
  obtain ⟨t, v, hoperands⟩ := List.length_eq_two.1 hfits.length_eq.symm
  rw [hoperands] at hfits
  obtain _ | ⟨-, _ | ⟨hfit, -⟩⟩ := hfits
  exact ⟨t, v, hoperands, (Kind.isInteger_of_fit hfit hnarrow).1⟩

/-- The words of a constant load it into the register that stands first. -/
theorem loads_of_resolve (hparsed : s.Parsed Rv32im.registry)
    (h : s.resolve Rv32im.registry names = .ok ms)
    (hwords : ∀ m ∈ ms, image.word m.address = .ok m.code) (hname : s.instruction.name = "li") :
    ∃ t v r, s.operands = [t, v] ∧ Register.ofText? t.text = some r ∧
      image.Loads s.address r v.value := by
  rcases Rv32im.meaning_of_li hparsed.mem_forms hname with ⟨hformat, hmeaning⟩ | ⟨hformat, hmeaning⟩
  · obtain ⟨t, v, hoperands, hinteger⟩ := operands_of_format hparsed hformat rfl
    obtain _ | ⟨hexpand, _ | _⟩ := forall₂_of_resolve hmeaning h
    rename_i m
    obtain ⟨haddress, -⟩ := of_expandTemplate hexpand
    obtain ⟨r, imm, hr, himm, hdecoded⟩ :=
      constant_of_expandTemplate hparsed hmeaning hexpand hoperands hinteger
    have hword := hwords m (List.mem_singleton_self m)
    rw [haddress, Nat.mul_zero, BitVec.add_zero] at hword
    exact ⟨t, v, r, hoperands, hr, .inl ⟨m.code, imm, hword, hdecoded, himm⟩⟩
  · obtain ⟨t, v, hoperands, hinteger⟩ := operands_of_format hparsed hformat rfl
    obtain _ | ⟨hexpand, _ | ⟨hexpand', _ | _⟩⟩ := forall₂_of_resolve hmeaning h
    rename_i m m'
    obtain ⟨haddress, -⟩ := of_expandTemplate hexpand
    obtain ⟨haddress', -⟩ := of_expandTemplate hexpand'
    obtain ⟨r, upper, lower, hr, hupper, hlower, hsum⟩ :=
      constant_of_expandTemplates hparsed hmeaning hexpand hexpand' hoperands hinteger
    have hword := hwords m (by simp)
    have hword' := hwords m' (by simp)
    rw [haddress, Nat.mul_zero, BitVec.add_zero] at hword
    rw [haddress'] at hword'
    exact ⟨t, v, r, hoperands, hr,
      .inr ⟨m.code, m'.code, upper, lower, hword, hword', hupper, hlower, hsum⟩⟩

end Statement

/-- The words of a program lead to the labels of its source, and load its constants. -/
theorem targets_of_assemble {config : Config} {files : List SourceFile} {program : Program}
    (h : assemble config Rv32im.registry files = .ok (.ok program)) :
    ∃ session units, firstPass config Rv32im.registry files = .ok (session, units) ∧
      program.locals = units.map (fun u => (u.name, u.labels)) ∧
      ∀ u ∈ units, ∀ s ∈ u.parsed,
        (∀ t ∈ s.operands, t.kind.isLabel = true →
          ∃ target, u.labels.lookupOr program.global t.text = some target ∧
            ((s.instruction.name ∈ Rv32im.nearMnemonics ∧
                program.image.ReachesNear s.address target.address) ∨
              (s.instruction.name ∈ Rv32im.farMnemonics ∧
                program.image.ReachesFar s.address target.address))) ∧
        (s.instruction.name = "li" →
          ∃ t v r, s.operands = [t, v] ∧ Register.ofText? t.text = some r ∧
            program.image.Loads s.address r v.value) := by
  obtain ⟨run⟩ := nonempty_run h
  refine ⟨_, run.units, run.firstPass, run.locals, ?_⟩
  intro u hu s hs
  have hparsed := run.parsed hu hs
  obtain ⟨ms, hresolve, hwords⟩ := run.exists_of_parsed hu hs
  refine ⟨?_, Statement.loads_of_resolve hparsed hresolve hwords⟩
  intro t ht hkind
  obtain ⟨a, ha, hreaches⟩ := Statement.reaches_of_resolve hparsed hresolve hwords ht hkind
  obtain ⟨target, htarget, rfl⟩ := Option.map_eq_some_iff.1 ha
  exact ⟨target, htarget, hreaches⟩

/-- A label above the first two kilobytes of its segment, a constant of two words and a branch back. -/
def distantSource : List SourceFile :=
  [{ name := "a.s",
     lines :=
       [⟨".data", "a.s", 1⟩, ⟨".space 2048", "a.s", 2⟩, ⟨"x: .word 7", "a.s", 3⟩,
        ⟨".text", "a.s", 4⟩, ⟨"main: la t0, x", "a.s", 5⟩, ⟨"li t1, 0x12345fff", "a.s", 6⟩,
        ⟨"b main", "a.s", 7⟩] }]

theorem targets_of_distantSource :
    ∃ program, assemble {} Rv32im.registry distantSource = .ok (.ok program) ∧
      program.image.ReachesFar 0x400000 0x10010800 ∧
      program.image.Loads 0x400008 6 0x12345fff ∧
      program.image.ReachesNear 0x400010 0x400000 := by
  have hprogram : (programInOrder? {} Rv32im.registry distantSource).map (fun p =>
      decide (∀ l ∈ p.locals,
        (l.2.lookupOr p.global "x").map Symbol.address = some 0x10010800 ∧
        (l.2.lookupOr p.global "main").map Symbol.address = some 0x400000)) = some true := by
    decide +kernel
  have hparsed : (firstPass {} Rv32im.registry distantSource).toOption.map
      (fun (r : Session × List SourceUnit) =>
        decide (∃ u ∈ r.2,
        (∃ s ∈ u.parsed, s.address = 0x400000 ∧ s.instruction.name = "la" ∧
          ∃ t ∈ s.operands, t.kind.isLabel = true ∧ t.text = "x") ∧
        (∃ s ∈ u.parsed, s.address = 0x400008 ∧ s.instruction.name = "li" ∧
          s.operands.map (fun t => (Register.ofText? t.text, t.value))
            = [(some 6, 0), (none, 0x12345fff)]) ∧
        ∃ s ∈ u.parsed, s.address = 0x400010 ∧ s.instruction.name = "b" ∧
          ∃ t ∈ s.operands, t.kind.isLabel = true ∧ t.text = "main")) = some true := by
    decide +kernel
  obtain ⟨program, hfound, hlabels⟩ := Option.map_eq_some_iff.1 hprogram
  obtain ⟨⟨session, units⟩, hfirst, hstatements⟩ := Option.map_eq_some_iff.1 hparsed
  simp only [decide_eq_true_eq] at hlabels hstatements
  obtain ⟨u, hu, ⟨s, hs, haddress, hname, t, ht, hkind, htext⟩,
    ⟨s', hs', haddress', hname', hoperands'⟩,
    s'', hs'', haddress'', hname'', t'', ht'', hkind'', htext''⟩ := hstatements
  have hassemble := assemble_of_programInOrder? hfound
  obtain ⟨session', units', hfirst', hlocals, htargets⟩ := targets_of_assemble hassemble
  rw [hfirst'] at hfirst
  cases hfirst
  have htables := hlabels (u.name, u.labels) (hlocals ▸ List.mem_map.2 ⟨u, hu, rfl⟩)
  refine ⟨program, hassemble, ?_, ?_, ?_⟩
  · obtain ⟨target, htarget, ⟨hnear, -⟩ | ⟨-, hfar⟩⟩ := (htargets u hu s hs).1 t ht hkind
    · rw [hname] at hnear
      exact absurd hnear (by decide)
    · rw [htext] at htarget
      rw [htarget, Option.map_some, Option.some.injEq] at htables
      rwa [haddress, htables.1] at hfar
  · obtain ⟨t, v, r, hoperands, hr, hloads⟩ := (htargets u hu s' hs').2 hname'
    simp only [hoperands, hr, List.map_cons, List.cons.injEq, Prod.mk.injEq, Option.some.injEq]
      at hoperands'
    obtain ⟨⟨rfl, -⟩, ⟨-, hvalue⟩, -⟩ := hoperands'
    rwa [haddress', hvalue] at hloads
  · obtain ⟨target, htarget, ⟨-, hnear⟩ | ⟨hfar, -⟩⟩ := (htargets u hu s'' hs'').1 t'' ht'' hkind''
    · rw [htext''] at htarget
      rw [htarget, Option.map_some, Option.some.injEq] at htables
      rwa [haddress'', htables.2] at hnear
    · rw [hname''] at hfar
      exact absurd hfar (by decide)

end Rv32Assembler
