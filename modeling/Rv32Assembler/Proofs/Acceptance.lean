import Rv32Assembler.Proofs.Disassembly
import Rv32Assembler.Proofs.Relocation
/-!
# Accepted statements

What the second pass can still find wrong with a statement that the first pass has recorded. The
kind of an operand was checked against a place of the form, and a value of that kind fits the field
that the place stands for, so only labels are left: a label may be missing, or too far away for a
branch or a jump (`encode_of_parsed`).
-/

namespace Rv32Assembler

open Encoding Template

/-! ### Kinds and fields -/

namespace Kind

/-- An operand of the kind belongs to an encoding, as a value or as punctuation. -/
def isEncodable (k : Kind) : Bool := k.isParen || k.isRegister || k.isInteger || k.isLabel

theorem isParen_of_fit {required provided : Kind} (h : (required.fit provided).isOk = true) :
    provided.isParen = required.isParen := by
  revert h
  cases required <;> cases provided <;> decide

theorem isEncodable_of_fit {required provided : Kind} (h : (required.fit provided).isOk = true)
    (hrequired : required.isEncodable = true) : provided.isEncodable = true := by
  revert h hrequired
  cases required <;> cases provided <;> decide

theorem isRegister_of_fit {provided : Kind} (h : (registerName.fit provided).isOk = true) :
    provided.isRegister = true := by
  revert h
  cases provided <;> decide

theorem isInteger_of_fit_isInteger {required provided : Kind}
    (h : (required.fit provided).isOk = true) (hrequired : required.isInteger = true) :
    provided.isInteger = true := by
  revert h hrequired
  cases required <;> cases provided <;> decide

end Kind

namespace Encoding.Field

theorem isEncodable_kind (field : Field) : field.kind.isEncodable = true := by
  cases field <;> rfl

theorem holds_of_fit {field : Field} {v : Int} (h : (field.kind.fit (.classify v)).isOk = true)
    (hinteger : field.kind.isInteger = true) : field.Holds v := by
  unfold Kind.classify at h
  simp only [Bool.and_eq_true, decide_eq_true_eq] at h
  cases field with
  | register | branchOffset | jumpOffset => cases hinteger
  | immediate | amount | upper =>
    simp only [Holds]
    split_ifs at h <;> cases h <;> omega

end Encoding.Field

namespace Rv32im

/-- A basic form with an offset takes its label as a distance. -/
def measuresOffsets (i : Instruction) : Bool :=
  match i.meaning with
  | .basic relative encoding =>
    encoding.fields.all fun field => field.kind != .identifier || relative
  | .extended _ => true

theorem relative_of_mem {i : Instruction} (h : i ∈ registry.forms) {relative : Bool}
    {encoding : Encoding} (hmeaning : i.meaning = .basic relative encoding) {field : Field}
    (hfield : field ∈ encoding.fields) (hkind : field.kind = .identifier) : relative = true := by
  have hall : ∀ i ∈ registry.forms, measuresOffsets i = true := by decide
  have hform := hall i h
  simp only [measuresOffsets, hmeaning] at hform
  simpa [hkind] using List.all_eq_true.1 hform field hfield

end Rv32im

namespace Statement

/-- What the second pass may find wrong with a label among the operands: it is not defined, or it is
out of the reach of a branch or a jump. -/
inductive LabelError (s : Statement) (names : Names) : Problem → Prop
  | undefined {t : Token} (ht : t ∈ s.operands) (hkind : t.kind.isLabel = true)
      (h : names.address? t.text = none) : LabelError s names (.undefinedSymbol t.text)
  | undefinedOperand {t : Token} (ht : t ∈ s.operands) (hkind : t.kind.isLabel = true)
      (h : names.address? t.text = none) :
      LabelError s names (.operand (.undefinedSymbol t.text))
  | branch {t : Token} {a : Address} (ht : t ∈ s.operands) (hkind : t.kind.isLabel = true)
      (ha : names.address? t.text = some a)
      (h : ¬Field.branchOffset.Holds (a - s.address).toInt) :
      LabelError s names (.encoding (.branchRange (a - s.address).toInt))
  | jump {t : Token} {a : Address} (ht : t ∈ s.operands) (hkind : t.kind.isLabel = true)
      (ha : names.address? t.text = some a)
      (h : ¬Field.jumpOffset.Holds (a - s.address).toInt) :
      LabelError s names (.encoding (.jumpRange (a - s.address).toInt))

/-! ### Operands of a basic statement -/

section

variable {s : Statement} {registers : RegisterFile} {names : Names} {relative : Bool}

/-- An operand is taken in unless it is a label without an address. -/
theorem readOperand_cases {t : Token} (h : t.kind.isEncodable = true) (o : OperandValues) :
    (∃ o', s.readOperand registers names relative o t = .ok o') ∨
      t.kind.isLabel = true ∧ names.address? t.text = none ∧
        s.readOperand registers names relative o t = .error (.problem t (.undefinedSymbol t.text)) := by
  unfold readOperand
  split
  · exact .inl ⟨_, rfl⟩
  · rename_i hleft
    split
    · exact .inl ⟨_, rfl⟩
    · rename_i hright
      split
      · exact .inl ⟨_, rfl⟩
      · rename_i hregister
        split
        · exact .inl ⟨_, rfl⟩
        · rename_i hinteger
          have hlabel : t.kind.isLabel = true := by
            simpa [Kind.isEncodable, Kind.isParen, hleft, hright, hregister, hinteger] using h
          rw [if_pos hlabel]
          cases ha : names.address? t.text with
          | some a => exact .inl ⟨_, rfl⟩
          | none => exact .inr ⟨hlabel, rfl, rfl⟩

theorem foldlM_readOperand_cases (s : Statement) (registers : RegisterFile) (names : Names)
    (relative : Bool) {ts : List Token} (h : ∀ t ∈ ts, t.kind.isEncodable = true) (o : OperandValues) :
    (∃ o', ts.foldlM (s.readOperand registers names relative) o = .ok o') ∨
      ∃ t ∈ ts, t.kind.isLabel = true ∧ names.address? t.text = none ∧
        ts.foldlM (s.readOperand registers names relative) o
          = .error (.problem t (.undefinedSymbol t.text)) := by
  induction ts generalizing o with
  | nil => exact .inl ⟨o, rfl⟩
  | cons t ts ih =>
    rw [List.foldlM_cons]
    rcases readOperand_cases (s := s) (h t (List.mem_cons_self ..)) o with
      ⟨o', ho'⟩ | ⟨hlabel, hnone, herror⟩
    · rw [ho']
      rcases ih (fun t' ht' => h t' (List.mem_cons_of_mem _ ht')) o' with
        hok | ⟨t', ht', hrest⟩
      · exact .inl hok
      · exact .inr ⟨t', List.mem_cons_of_mem _ ht', hrest⟩
    · rw [herror]
      exact .inr ⟨t, List.mem_cons_self .., hlabel, hnone, rfl⟩

theorem fits_fields (h : s.Parsed Rv32im.registry) {encoding : Encoding}
    (hmeaning : s.instruction.meaning = .basic relative encoding) :
    List.Forall₂ (fun (field : Field) (t : Token) => (field.kind.fit t.kind).isOk = true)
      encoding.fields (s.operands.filter fun t => !t.kind.isParen) := by
  obtain ⟨-, hformat⟩ := Rv32im.mnemonic?_of_mem h.mem_forms hmeaning
  have hplaces := List.rel_filter (p := fun kind => !kind.isParen)
    (q := fun t : Token => !t.kind.isParen)
    (fun required t hfit => by simp [Kind.isParen_of_fit hfit]) h.fits
  rwa [hformat, List.forall₂_map_left_iff] at hplaces

theorem isEncodable_of_mem_operands (h : s.Parsed Rv32im.registry) {encoding : Encoding}
    (hmeaning : s.instruction.meaning = .basic relative encoding) {t : Token}
    (ht : t ∈ s.operands) : t.kind.isEncodable = true := by
  cases hparen : t.kind.isParen with
  | true => simp [Kind.isEncodable, hparen]
  | false =>
    obtain ⟨field, -, hfit⟩ := exists_of_forall₂ (fits_fields h hmeaning).flip
      (List.mem_filter.2 ⟨ht, by simp [hparen]⟩)
    exact Kind.isEncodable_of_fit hfit field.isEncodable_kind

/-- The value is that of an operand in the place for the field. -/
def Gives (s : Statement) (names : Names) (relative : Bool) (field : Field) (v : Int) : Prop :=
  ∃ t ∈ s.operands, (field.kind.fit t.kind).isOk = true ∧
    Token.ValueOf .rv32 names relative s.address t.content v

theorem gives_of_foldlM (h : s.Parsed Rv32im.registry) {encoding : Encoding}
    (hmeaning : s.instruction.meaning = .basic relative encoding) {o : OperandValues}
    (ho : s.operands.foldlM (s.readOperand .rv32 names relative) {} = .ok o) :
    List.Forall₂ (s.Gives names relative) encoding.fields o.values := by
  obtain ⟨values, hvalues, hall⟩ := values_of_foldlM ho
  rw [List.nil_append] at hvalues
  rw [hvalues]
  rw [List.filter_map, List.forall₂_map_left_iff] at hall
  have hplaces := ((List.forall₂_and_left _ _).2
    ⟨fun t ht => ht, (fits_fields h hmeaning).flip⟩).flip
  refine forall₂_comp hplaces hall ?_
  rintro field - t v ⟨ht, hfit⟩ hv
  exact ⟨t, List.mem_of_mem_filter ht, hfit, hv⟩

/-- Registers and numbers fit their fields; only the offset of a label may not. -/
theorem Gives.holds (h : s.Parsed Rv32im.registry) {field : Field} {v : Int}
    (hgives : s.Gives names relative field v) (hfield : field.kind ≠ .identifier) :
    field.Holds v := by
  obtain ⟨t, ht, hfit, hv⟩ := hgives
  cases field with
  | register =>
    rw [hv.of_isRegister (Kind.isRegister_of_fit hfit), RegisterFile.ofText?_rv32]
    cases Register.ofText? t.text with
    | none => decide
    | some r =>
      simp only [Field.Holds, Option.map_some, Option.getD_some]
      omega
  | branchOffset | jumpOffset => exact absurd rfl hfield
  | immediate | amount | upper =>
    have hkind := Kind.isInteger_of_fit_isInteger hfit rfl
    rw [(h.lexed t (List.mem_cons_of_mem _ ht)).integer hkind] at hfit
    rw [hv.of_isInteger hkind]
    exact Field.holds_of_fit hfit rfl

/-- A basic statement that was recorded is encoded, or a label is at fault. -/
theorem encode_of_parsed (h : s.Parsed Rv32im.registry) {encoding : Encoding}
    (hmeaning : s.instruction.meaning = .basic relative encoding) (names : Names) :
    (∃ m, s.encode .rv32 names relative encoding = .ok m) ∨
      ∃ t p, s.encode .rv32 names relative encoding = .error (.problem t p) ∧
        s.LabelError names p := by
  rcases foldlM_readOperand_cases s .rv32 names relative
      (fun t ht => isEncodable_of_mem_operands h hmeaning ht) {} with
    ⟨o, ho⟩ | ⟨t, ht, hlabel, hnone, herror⟩
  · have hgives := gives_of_foldlM h hmeaning ho
    have hregisters : encoding.TakesRegisters o.values := by
      refine hgives.imp fun field v hv hfield => ?_
      rw [hfield] at hv
      exact hv.holds h (by decide)
    unfold encode
    rw [ho]
    cases Encoding.outcome (Rv32im.mnemonic?_of_mem h.mem_forms hmeaning).1 hregisters with
    | word w _ hw _ =>
      simp only [bind, Except.bind, hw]
      exact .inl ⟨_, rfl⟩
    | refusal field v e hplace hrefuses he =>
      have hv := List.forall₂_zip hgives hplace
      -- A register or a number fits its field by its kind, so the value is that of a label.
      have hkind : field.kind = .identifier := by
        by_contra hne
        exact hrefuses.not_holds (hv.holds h hne)
      obtain ⟨t, ht, hfit, hvalue⟩ := hv
      rw [hkind] at hfit
      have hlabel := Kind.isLabel_of_fit hfit
      obtain ⟨a, ha, hoffset⟩ := hvalue.of_isLabel hlabel
      have hrelative := Rv32im.relative_of_mem h.mem_forms hmeaning (List.of_mem_zip hplace).1 hkind
      rw [if_pos hrelative] at hoffset
      subst hoffset
      simp only [bind, Except.bind, he]
      cases hrefuses with
      | branch hnot => exact .inr ⟨s.operator, _, rfl, .branch ht hlabel ha hnot⟩
      | jump hnot => exact .inr ⟨s.operator, _, rfl, .jump ht hlabel ha hnot⟩
      | immediate | displacement | amount | upper => cases hkind
  · refine .inr ⟨t, _, ?_, .undefined ht hlabel hnone⟩
    rw [encode, herror]
    rfl

end

end Statement

end Rv32Assembler
