import Rv32Assembler.Isa.Rv32im
import Rv32Assembler.Proofs.Filling
/-!
# Machine words read back

The mnemonic and the operands of a machine word, from the tables of RV32IM: the opcode and the
function fields name the operation, and the operands follow in the order they are written in. Every
word that a basic form puts together is read back as that form, with the operands it was given
(`disassemble?_of_encode`), so that no two basic statements share a word. Only an upper immediate is
read back modulo two to the twenty, since it may be given as a signed or as an unsigned number.
-/

namespace Rv32Assembler

open Encoding

/-! ### The tables -/

namespace Decoded

/-- The operations on two registers, by `funct7` and `funct3`. -/
def registerNames : List ((BitVec 7 × BitVec 3) × Text) :=
  [((0x00, 0), "add"), ((0x00, 1), "sll"), ((0x00, 2), "slt"), ((0x00, 3), "sltu"),
   ((0x00, 4), "xor"), ((0x00, 5), "srl"), ((0x00, 6), "or"), ((0x00, 7), "and"),
   ((0x20, 0), "sub"), ((0x20, 5), "sra"),
   ((0x01, 0), "mul"), ((0x01, 1), "mulh"), ((0x01, 2), "mulhsu"), ((0x01, 3), "mulhu"),
   ((0x01, 4), "div"), ((0x01, 5), "divu"), ((0x01, 6), "rem"), ((0x01, 7), "remu")]

/-- The operations on a register and an immediate, by opcode and `funct3`. -/
def immediateNames : List ((BitVec 7 × BitVec 3) × Text) :=
  [((0x13, 0), "addi"), ((0x13, 2), "slti"), ((0x13, 3), "sltiu"), ((0x13, 4), "xori"),
   ((0x13, 6), "ori"), ((0x13, 7), "andi"), ((0x67, 0), "jalr")]

/-- The shifts by a constant, by the seven bits above the amount and `funct3`. -/
def shiftNames : List ((BitVec 7 × BitVec 3) × Text) :=
  [((0x00, 1), "slli"), ((0x00, 5), "srli"), ((0x20, 5), "srai")]

def loadNames : List (BitVec 3 × Text) :=
  [(0, "lb"), (1, "lh"), (2, "lw"), (4, "lbu"), (5, "lhu")]

def storeNames : List (BitVec 3 × Text) := [(0, "sb"), (1, "sh"), (2, "sw")]

def branchNames : List (BitVec 3 × Text) :=
  [(0, "beq"), (1, "bne"), (4, "blt"), (5, "bge"), (6, "bltu"), (7, "bgeu")]

def upperNames : List (BitVec 7 × Text) := [(0x37, "lui"), (0x17, "auipc")]

/-- The operations without operands, by opcode and immediate; their other fields are zero. -/
def plainNames : List ((BitVec 7 × BitVec 12) × Text) :=
  [((0x73, 0), "ecall"), ((0x73, 1), "ebreak"), ((0x0f, 0x0ff), "fence")]

/-- The mnemonic and the operands, in the order in which they are written. -/
def statement? : Decoded → Option (Text × List Int)
  | register _ rd funct3 rs1 rs2 funct7 =>
    (registerNames.lookup (funct7, funct3)).map (·, [rd.toNat, rs1.toNat, rs2.toNat])
  | immediate opcode rd funct3 rs1 imm =>
    if opcode = Opcode.load then
      (loadNames.lookup funct3).map (·, [rd.toNat, imm.toInt, rs1.toNat])
    else if opcode = Opcode.immediate ∧ (funct3 = 1 ∨ funct3 = 5) then
      (shiftNames.lookup (imm.extractLsb' 5 7, funct3)).map
        (·, [rd.toNat, rs1.toNat, (imm.extractLsb' 0 5).toNat])
    else if opcode = Opcode.immediate ∨ opcode = Opcode.jalr then
      (immediateNames.lookup (opcode, funct3)).map (·, [rd.toNat, rs1.toNat, imm.toInt])
    else if rd = 0 ∧ funct3 = 0 ∧ rs1 = 0 then
      (plainNames.lookup (opcode, imm)).map (·, [])
    else none
  | store funct3 rs1 rs2 imm =>
    (storeNames.lookup funct3).map (·, [rs2.toNat, imm.toInt, rs1.toNat])
  | branch funct3 rs1 rs2 offset =>
    (branchNames.lookup funct3).map (·, [rs1.toNat, rs2.toNat, offset.toInt])
  | upper opcode rd imm => (upperNames.lookup opcode).map (·, [rd.toNat, imm.toNat])
  | jump rd offset => some ("jal", [rd.toNat, offset.toInt])

end Decoded

/-- The mnemonic and the operands of a machine word. -/
def disassemble? (w : Word) : Option (Text × List Int) :=
  (Decoded.ofWord? w).bind Decoded.statement?

/-! ### The fields of an encoding -/

namespace Encoding

/-- What an operand becomes in a machine word. -/
inductive Field where
  | register
  | immediate
  | amount
  | branchOffset
  | jumpOffset
  | upper
  deriving DecidableEq, Repr

namespace Field

def Holds : Field → Int → Prop
  | register, v => 0 ≤ v ∧ v ≤ 31
  | immediate, v => -2048 ≤ v ∧ v ≤ 2047
  | amount, v => 0 ≤ v ∧ v ≤ 31
  | branchOffset, v => v % 2 = 0 ∧ -4096 ≤ v ∧ v ≤ 4094
  | jumpOffset, v => v % 2 = 0 ∧ -2 ^ 20 ≤ v ∧ v ≤ 2 ^ 20 - 2
  | upper, v => -2 ^ 19 ≤ v ∧ v ≤ 2 ^ 20 - 1

instance (field : Field) (v : Int) : Decidable (field.Holds v) := by
  cases field <;> unfold Holds <;> infer_instance

/-- What is read back of a value. -/
def reduce : Field → Int → Int
  | upper, v => v % 2 ^ 20
  | _, v => v

/-- The kind of token that a place for the field asks for. -/
def kind : Field → Kind
  | register => .registerName
  | immediate => .integer12
  | amount => .integer5
  | branchOffset | jumpOffset => .identifier
  | upper => .integer20

end Field

def fields : Encoding → List Field
  | register .. => [.register, .register, .register]
  | immediate .. => [.register, .register, .immediate]
  | load _ => [.register, .immediate, .register]
  | shift .. => [.register, .register, .amount]
  | store _ => [.register, .immediate, .register]
  | branch _ => [.register, .register, .branchOffset]
  | upper _ => [.register, .upper]
  | jump => [.register, .jumpOffset]
  | fixed _ | refused _ | custom _ => []

/-- The mnemonic that the tables give the words of an encoding. -/
def mnemonic? : Encoding → Option Text
  | register funct7 funct3 => Decoded.registerNames.lookup (funct7, funct3)
  | immediate opcode funct3 => Decoded.immediateNames.lookup (opcode, funct3)
  | load funct3 => Decoded.loadNames.lookup funct3
  | shift funct7 funct3 => Decoded.shiftNames.lookup (funct7, funct3)
  | store funct3 => Decoded.storeNames.lookup funct3
  | branch funct3 => Decoded.branchNames.lookup funct3
  | upper opcode => Decoded.upperNames.lookup opcode
  | jump => some "jal"
  | fixed word =>
    match disassemble? word with
    | some (name, []) => some name
    | _ => none
  | refused _ | custom _ => none

/-! ### Fields read back -/

theorem toNat_registerField {v : Int} (h : Field.register.Holds v) :
    ((registerField v).toNat : Int) = v := by
  obtain ⟨hlow, hhigh⟩ := h
  rw [registerField, BitVec.toNat_ofInt]
  omega

theorem fitsSigned_eleven {v : Int} : fitsSigned 11 v = true ↔ Field.immediate.Holds v := by
  have hbound : (1 <<< 11 : Nat) = 2048 := rfl
  simp only [fitsSigned, hbound, Field.Holds, Bool.and_eq_true, decide_eq_true_eq]
  omega

theorem even_and_fitsSigned_twelve {v : Int} :
    (v % 2 == 0 && fitsSigned 12 v) = true ↔ Field.branchOffset.Holds v := by
  have hbound : (1 <<< 12 : Nat) = 4096 := rfl
  simp only [fitsSigned, hbound, Field.Holds, Bool.and_eq_true, beq_iff_eq, decide_eq_true_eq]
  omega

theorem even_and_fitsSigned_twenty {v : Int} :
    (v % 2 == 0 && fitsSigned 20 v) = true ↔ Field.jumpOffset.Holds v := by
  have hbound : (1 <<< 20 : Nat) = 2 ^ 20 := rfl
  simp only [fitsSigned, hbound, Field.Holds, Bool.and_eq_true, beq_iff_eq, decide_eq_true_eq]
  omega

theorem amount_bounds {v : Int} : (0 ≤ v && v ≤ 31) = true ↔ Field.amount.Holds v := by
  simp only [Field.Holds, Bool.and_eq_true, decide_eq_true_eq]

theorem upper_bounds {v : Int} :
    (-0x80000 ≤ v && v ≤ 0xfffff) = true ↔ Field.upper.Holds v := by
  simp only [Field.Holds, Bool.and_eq_true, decide_eq_true_eq]
  omega

theorem toInt_immediate {v : Int} (h : Field.immediate.Holds v) : (BitVec.ofInt 12 v).toInt = v :=
  toInt_ofInt_of_fitsSigned (fitsSigned_eleven.mpr h)

theorem toNat_upper (v : Int) : ((BitVec.ofInt 20 v).toNat : Int) = Field.upper.reduce v := by
  rw [BitVec.toNat_ofInt, Field.reduce]
  omega

/-! ### Words read back -/

theorem mem_of_lookup {α β : Type} [BEq α] [LawfulBEq α] {rows : List (α × β)} {a : α} {b : β}
    (h : rows.lookup a = some b) : (a, b) ∈ rows := by
  obtain ⟨before, after, rfl, -⟩ := List.lookup_eq_some_iff.mp h
  exact List.mem_append_right before List.mem_cons_self

variable {name : Text} {funct3 : BitVec 3}

/-- A word that is decoded as a statement is read back as it. -/
theorem disassemble?_of_ofWord? {w : Word} {d : Decoded} {statement : Text × List Int}
    (h : Decoded.ofWord? w = some d) (hstatement : d.statement? = some statement) :
    disassemble? w = some statement := by
  rw [disassemble?, h, Option.bind_some, hstatement]

theorem disassemble?_packRegister {funct7 : BitVec 7}
    (h : (register funct7 funct3).mnemonic? = some name) (rs2 rs1 rd : BitVec 5) :
    disassemble? (packRegister funct7 rs2 rs1 funct3 rd Opcode.register)
      = some (name, [(rd.toNat : Int), rs1.toNat, rs2.toNat]) := by
  exact disassemble?_of_ofWord? (ofWord?_packRegister ..) (congrArg (Option.map _) h)

theorem disassemble?_packImmediate {opcode : BitVec 7}
    (h : (immediate opcode funct3).mnemonic? = some name) (imm : BitVec 12) (rs1 rd : BitVec 5) :
    disassemble? (packImmediate imm rs1 funct3 rd opcode)
      = some (name, [(rd.toNat : Int), rs1.toNat, imm.toInt]) := by
  -- no row has the opcode of loads or the function of a shift
  obtain ⟨hopcode, hload, hshift, harith⟩ :
      opcode ∈ immediateOpcodes ∧ opcode ≠ Opcode.load ∧
      ¬(opcode = Opcode.immediate ∧ (funct3 = 1 ∨ funct3 = 5)) ∧
      (opcode = Opcode.immediate ∨ opcode = Opcode.jalr) := by
    have hrows : ∀ row ∈ Decoded.immediateNames,
        row.1.1 ∈ immediateOpcodes ∧ row.1.1 ≠ Opcode.load ∧
        ¬(row.1.1 = Opcode.immediate ∧ (row.1.2 = 1 ∨ row.1.2 = 5)) ∧
        (row.1.1 = Opcode.immediate ∨ row.1.1 = Opcode.jalr) := by decide
    exact hrows _ (mem_of_lookup h)
  refine disassemble?_of_ofWord? (ofWord?_packImmediate hopcode ..) ?_
  rw [Decoded.statement?, if_neg hload, if_neg hshift, if_pos harith]
  exact congrArg (Option.map _) h

theorem disassemble?_packLoad (h : (load funct3).mnemonic? = some name) (imm : BitVec 12)
    (rs1 rd : BitVec 5) :
    disassemble? (packImmediate imm rs1 funct3 rd Opcode.load)
      = some (name, [(rd.toNat : Int), imm.toInt, rs1.toNat]) := by
  refine disassemble?_of_ofWord? (ofWord?_packImmediate (by decide) ..) ?_
  rw [Decoded.statement?, if_pos rfl]
  exact congrArg (Option.map _) h

/-- A shift by a constant has the form of an operation with an immediate, whose lower part is the
amount. -/
theorem disassemble?_packShift {funct7 : BitVec 7}
    (h : (shift funct7 funct3).mnemonic? = some name) (amount rs1 rd : BitVec 5) :
    disassemble? (packRegister funct7 amount rs1 funct3 rd Opcode.immediate)
      = some (name, [(rd.toNat : Int), rs1.toNat, amount.toNat]) := by
  have hfunct3 : funct3 = 1 ∨ funct3 = 5 := by
    have hrows : ∀ row ∈ Decoded.shiftNames, row.1.2 = 1 ∨ row.1.2 = 5 := by decide
    exact hrows _ (mem_of_lookup h)
  have hhigh : (funct7 ++ amount : BitVec 12).extractLsb' 5 7 = funct7 := by
    rw [BitVec.extractLsb'_append_eq_of_le (by decide), BitVec.extractLsb'_eq_self]
  have hlow : (funct7 ++ amount : BitVec 12).extractLsb' 0 5 = amount := by
    rw [BitVec.extractLsb'_append_eq_of_add_le (by decide), BitVec.extractLsb'_eq_self]
  have hpack : packRegister funct7 amount rs1 funct3 rd Opcode.immediate
      = packImmediate (funct7 ++ amount) rs1 funct3 rd Opcode.immediate := rfl
  rw [hpack]
  refine disassemble?_of_ofWord? (ofWord?_packImmediate (by decide) ..) ?_
  rw [Decoded.statement?, if_neg (by decide), if_pos ⟨rfl, hfunct3⟩, hhigh, hlow]
  exact congrArg (Option.map _) h

theorem disassemble?_packStore (h : (store funct3).mnemonic? = some name) (imm : BitVec 12)
    (rs2 rs1 : BitVec 5) :
    disassemble? (packStore imm rs2 rs1 funct3)
      = some (name, [(rs2.toNat : Int), imm.toInt, rs1.toNat]) := by
  exact disassemble?_of_ofWord? (ofWord?_packStore ..) (congrArg (Option.map _) h)

theorem disassemble?_packBranch (h : (branch funct3).mnemonic? = some name) {offset : BitVec 13}
    (heven : offset.extractLsb' 0 1 = 0#1) (rs2 rs1 : BitVec 5) :
    disassemble? (packBranch offset rs2 rs1 funct3)
      = some (name, [(rs1.toNat : Int), rs2.toNat, offset.toInt]) := by
  exact disassemble?_of_ofWord? (ofWord?_packBranch heven ..) (congrArg (Option.map _) h)

theorem disassemble?_packUpper {opcode : BitVec 7} (h : (upper opcode).mnemonic? = some name)
    (imm : BitVec 20) (rd : BitVec 5) :
    disassemble? (packUpper imm rd opcode) = some (name, [(rd.toNat : Int), imm.toNat]) := by
  have hopcode : opcode = Opcode.lui ∨ opcode = Opcode.auipc := by
    have hrows : ∀ row ∈ Decoded.upperNames, row.1 = Opcode.lui ∨ row.1 = Opcode.auipc := by decide
    exact hrows _ (mem_of_lookup h)
  exact disassemble?_of_ofWord? (ofWord?_packUpper hopcode ..) (congrArg (Option.map _) h)

theorem disassemble?_packJump (h : jump.mnemonic? = some name) {offset : BitVec 21}
    (heven : offset.extractLsb' 0 1 = 0#1) (rd : BitVec 5) :
    disassemble? (packJump offset rd) = some (name, [(rd.toNat : Int), offset.toInt]) := by
  cases h
  exact disassemble?_of_ofWord? (ofWord?_packJump heven ..) rfl

theorem disassemble?_of_mnemonic?_fixed {word : Word} (h : (fixed word).mnemonic? = some name) :
    disassemble? word = some (name, []) := by
  rw [mnemonic?] at h
  split at h
  · rename_i hword
    cases h
    exact hword
  · cases h

/-! ### Encoding and reading back -/

/-- The errors of a value that a field cannot hold. -/
inductive Field.Refuses : Field → Int → Error → Prop
  | immediate {v : Int} : ¬Field.immediate.Holds v → Refuses .immediate v (.immediateRange v)
  | displacement {v : Int} : ¬Field.immediate.Holds v → Refuses .immediate v (.offsetRange v)
  | amount {v : Int} : ¬Field.amount.Holds v → Refuses .amount v (.shiftRange v)
  | branch {v : Int} : ¬Field.branchOffset.Holds v → Refuses .branchOffset v (.branchRange v)
  | jump {v : Int} : ¬Field.jumpOffset.Holds v → Refuses .jumpOffset v (.jumpRange v)
  | upper {v : Int} : ¬Field.upper.Holds v → Refuses .upper v (.upperRange v)

theorem Field.Refuses.not_holds {field : Field} {v : Int} {e : Error} (h : field.Refuses v e) :
    ¬field.Holds v := by
  cases h <;> assumption

/-- The operands have the number that the encoding asks for, and those for registers are numbers of
registers. -/
def TakesRegisters (encoding : Encoding) (values : List Int) : Prop :=
  List.Forall₂ (fun field v => field = .register → Field.register.Holds v) encoding.fields values

/-- What comes of operands: they fit and are read back from the word, or one of them is refused. -/
inductive Outcome (encoding : Encoding) (name : Text) (values : List Int) : Prop
  | word (w : Word) (holds : List.Forall₂ Field.Holds encoding.fields values)
      (encodes : encoding.encode values = .ok w)
      (reads : disassemble? w = some (name, List.zipWith Field.reduce encoding.fields values))
  | refusal (field : Field) (v : Int) (e : Error) (place : (field, v) ∈ encoding.fields.zip values)
      (refuses : field.Refuses v e) (encodes : encoding.encode values = .error e)

theorem Outcome.of_ite {encoding : Encoding} {values : List Int} {fits : Bool} {field : Field}
    {v : Int} {w : Word} {e : Error}
    (h : encoding.encode values = if fits then .ok w else .error e)
    (hfits : fits = true ↔ field.Holds v) (hplace : (field, v) ∈ encoding.fields.zip values)
    (hrefuses : ¬field.Holds v → field.Refuses v e)
    (hholds : field.Holds v → List.Forall₂ Field.Holds encoding.fields values)
    (hreads : field.Holds v →
      disassemble? w = some (name, List.zipWith Field.reduce encoding.fields values)) :
    encoding.Outcome name values := by
  split at h
  · rename_i htest
    exact .word w (hholds (hfits.mp htest)) h (hreads (hfits.mp htest))
  · rename_i htest
    have hnot : ¬field.Holds v := fun hv => htest (hfits.mpr hv)
    exact .refusal field v e hplace (hrefuses hnot) h

theorem Outcome.reads_of_encode {encoding : Encoding} {values : List Int} {w : Word}
    (h : encoding.Outcome name values) (hw : encoding.encode values = .ok w) :
    disassemble? w = some (name, List.zipWith Field.reduce encoding.fields values) := by
  cases h with
  | word w' _ hencodes hreads =>
    cases hw.symm.trans hencodes
    exact hreads
  | refusal _ _ _ _ _ hencodes => cases hw.symm.trans hencodes

theorem Outcome.exists_word_iff {encoding : Encoding} {values : List Int}
    (h : encoding.Outcome name values) :
    (∃ w, encoding.encode values = .ok w) ↔ List.Forall₂ Field.Holds encoding.fields values := by
  cases h with
  | word w hholds hencodes _ => exact ⟨fun _ => hholds, fun _ => ⟨w, hencodes⟩⟩
  | refusal field v e hplace hrefuses hencodes =>
    constructor
    · rintro ⟨w, hw⟩
      cases hw.symm.trans hencodes
    · intro hholds
      exact absurd (List.forall₂_zip hholds hplace) hrefuses.not_holds

theorem exists_pair_of_forall₂ {α β : Type} {R : α → β → Prop} {a b : α} {l : List β}
    (h : List.Forall₂ R [a, b] l) : ∃ x y, l = [x, y] ∧ R a x ∧ R b y := by
  obtain _ | ⟨hx, _ | ⟨hy, _ | _⟩⟩ := h
  exact ⟨_, _, rfl, hx, hy⟩

theorem exists_triple_of_forall₂ {α β : Type} {R : α → β → Prop} {a b c : α} {l : List β}
    (h : List.Forall₂ R [a, b, c] l) : ∃ x y z, l = [x, y, z] ∧ R a x ∧ R b y ∧ R c z := by
  obtain _ | ⟨hx, _ | ⟨hy, _ | ⟨hz, _ | _⟩⟩⟩ := h
  exact ⟨_, _, _, rfl, hx, hy, hz⟩

theorem outcome {encoding : Encoding} {values : List Int} (h : encoding.mnemonic? = some name)
    (hvalues : encoding.TakesRegisters values) : encoding.Outcome name values := by
  cases encoding with
  | register funct7 funct3 =>
    obtain ⟨rd, rs1, rs2, rfl, hrd, hrs1, hrs2⟩ := exists_triple_of_forall₂ hvalues
    refine .word _ (.cons (hrd rfl) (.cons (hrs1 rfl) (.cons (hrs2 rfl) .nil))) rfl ?_
    rw [disassemble?_packRegister h, toNat_registerField (hrd rfl), toNat_registerField (hrs1 rfl),
      toNat_registerField (hrs2 rfl)]
    rfl
  | immediate opcode funct3 =>
    obtain ⟨rd, rs1, imm, rfl, hrd, hrs1, -⟩ := exists_triple_of_forall₂ hvalues
    refine .of_ite rfl (fitsSigned_eleven (v := imm)) (by simp [fields]) .immediate
      (fun himm => .cons (hrd rfl) (.cons (hrs1 rfl) (.cons himm .nil))) fun himm => ?_
    rw [disassemble?_packImmediate h, toNat_registerField (hrd rfl),
      toNat_registerField (hrs1 rfl), toInt_immediate himm]
    rfl
  | load funct3 =>
    obtain ⟨rd, imm, rs1, rfl, hrd, -, hrs1⟩ := exists_triple_of_forall₂ hvalues
    refine .of_ite rfl (fitsSigned_eleven (v := imm)) (by simp [fields]) .immediate
      (fun himm => .cons (hrd rfl) (.cons himm (.cons (hrs1 rfl) .nil))) fun himm => ?_
    rw [disassemble?_packLoad h, toNat_registerField (hrd rfl), toNat_registerField (hrs1 rfl),
      toInt_immediate himm]
    rfl
  | shift funct7 funct3 =>
    obtain ⟨rd, rs1, amount, rfl, hrd, hrs1, -⟩ := exists_triple_of_forall₂ hvalues
    refine .of_ite rfl (amount_bounds (v := amount)) (by simp [fields]) .amount
      (fun hamount => .cons (hrd rfl) (.cons (hrs1 rfl) (.cons hamount .nil))) fun hamount => ?_
    rw [disassemble?_packShift h, toNat_registerField (hrd rfl), toNat_registerField (hrs1 rfl),
      ← registerField, toNat_registerField hamount]
    rfl
  | store funct3 =>
    obtain ⟨rs2, imm, rs1, rfl, hrs2, -, hrs1⟩ := exists_triple_of_forall₂ hvalues
    refine .of_ite rfl (fitsSigned_eleven (v := imm)) (by simp [fields]) .displacement
      (fun himm => .cons (hrs2 rfl) (.cons himm (.cons (hrs1 rfl) .nil))) fun himm => ?_
    rw [disassemble?_packStore h, toNat_registerField (hrs2 rfl), toNat_registerField (hrs1 rfl),
      toInt_immediate himm]
    rfl
  | branch funct3 =>
    obtain ⟨rs1, rs2, offset, rfl, hrs1, hrs2, -⟩ := exists_triple_of_forall₂ hvalues
    refine .of_ite rfl (even_and_fitsSigned_twelve (v := offset)) (by simp [fields]) .branch
      (fun hoffset => .cons (hrs1 rfl) (.cons (hrs2 rfl) (.cons hoffset .nil))) fun hoffset => ?_
    have hfits := Bool.and_elim_right (even_and_fitsSigned_twelve.mpr hoffset)
    rw [disassemble?_packBranch h (extractLsb'_ofInt_of_even (by decide) hoffset.1),
      toNat_registerField (hrs1 rfl), toNat_registerField (hrs2 rfl),
      toInt_ofInt_of_fitsSigned hfits]
    rfl
  | upper opcode =>
    obtain ⟨rd, imm, rfl, hrd, -⟩ := exists_pair_of_forall₂ hvalues
    refine .of_ite rfl (upper_bounds (v := imm)) (by simp [fields]) .upper
      (fun himm => .cons (hrd rfl) (.cons himm .nil)) fun himm => ?_
    rw [disassemble?_packUpper h, toNat_registerField (hrd rfl), toNat_upper]
    rfl
  | jump =>
    obtain ⟨rd, offset, rfl, hrd, -⟩ := exists_pair_of_forall₂ hvalues
    refine .of_ite rfl (even_and_fitsSigned_twenty (v := offset)) (by simp [fields]) .jump
      (fun hoffset => .cons (hrd rfl) (.cons hoffset .nil)) fun hoffset => ?_
    have hfits := Bool.and_elim_right (even_and_fitsSigned_twenty.mpr hoffset)
    rw [disassemble?_packJump h (extractLsb'_ofInt_of_even (by decide) hoffset.1),
      toNat_registerField (hrd rfl), toInt_ofInt_of_fitsSigned hfits]
    rfl
  | fixed word =>
    obtain rfl := List.forall₂_nil_left_iff.mp hvalues
    exact .word word .nil rfl (disassemble?_of_mnemonic?_fixed h)
  | refused reason => cases h
  | custom encode => cases h

end Encoding

/-! ### The basic forms -/

/-- The values are as many as the form has operands, and those of registers are numbers of
registers. -/
def Instruction.Takes (i : Instruction) (values : List Int) : Prop :=
  List.Forall₂ (fun kind v => kind.isRegister = true → 0 ≤ v ∧ v ≤ 31)
    (i.format.filter fun kind => !kind.isParen) values

namespace Rv32im

/-- A basic form has the mnemonic of its encoding in the tables, and a place for each field. -/
def isListed (i : Instruction) : Bool :=
  match i.meaning with
  | .basic _ encoding =>
    encoding.mnemonic? == some i.name &&
      (i.format.filter fun kind => !kind.isParen) == encoding.fields.map Field.kind
  | .extended _ => true

theorem isListed_of_mem {i : Instruction} (h : i ∈ registry.forms) : isListed i = true := by
  have hall : ∀ i ∈ registry.forms, isListed i = true := by decide
  exact hall i h

variable {i : Instruction} {relative : Bool} {encoding : Encoding}

theorem mnemonic?_of_mem (h : i ∈ registry.forms) (hmeaning : i.meaning = .basic relative encoding) :
    encoding.mnemonic? = some i.name ∧
      (i.format.filter fun kind => !kind.isParen) = encoding.fields.map Field.kind := by
  have hlisted := isListed_of_mem h
  simpa only [isListed, hmeaning, Bool.and_eq_true, beq_iff_eq] using hlisted

theorem outcome_of_takes (h : i ∈ registry.forms) (hmeaning : i.meaning = .basic relative encoding)
    {values : List Int} (hvalues : i.Takes values) : encoding.Outcome i.name values := by
  obtain ⟨hmnemonic, hformat⟩ := mnemonic?_of_mem h hmeaning
  apply Encoding.outcome hmnemonic
  rw [Instruction.Takes, hformat, List.forall₂_map_left_iff] at hvalues
  refine hvalues.imp fun field v hv hfield => ?_
  subst hfield
  exact hv rfl

/-- The operands of a basic form have a word exactly when every one is in the range of its field.
The word is read back as the form and its operands, so that it is the word of no others. -/
theorem disassemble?_of_encode (h : i ∈ registry.forms)
    (hmeaning : i.meaning = .basic relative encoding) {values : List Int}
    (hvalues : i.Takes values) :
    ((∃ w, encoding.encode values = .ok w) ↔ List.Forall₂ Field.Holds encoding.fields values) ∧
    ∀ w, encoding.encode values = .ok w →
      disassemble? w = some (i.name, List.zipWith Field.reduce encoding.fields values) ∧
      ∀ j ∈ registry.forms, ∀ relative' encoding', j.meaning = .basic relative' encoding' →
        ∀ values', j.Takes values' → encoding'.encode values' = .ok w →
          j.name = i.name ∧ List.zipWith Field.reduce encoding'.fields values'
            = List.zipWith Field.reduce encoding.fields values := by
  have hi := outcome_of_takes h hmeaning hvalues
  refine ⟨hi.exists_word_iff, fun w hw => ⟨hi.reads_of_encode hw, ?_⟩⟩
  intro j hj relative' encoding' hmeaning' values' hvalues' hw'
  have hsame := (outcome_of_takes hj hmeaning' hvalues').reads_of_encode hw'
  rw [hi.reads_of_encode hw, Option.some_inj, Prod.mk.injEq] at hsame
  exact ⟨hsame.1.symm, hsame.2.symm⟩

theorem disassemble?_of_encode_bgeu :
    (branch "bgeu" "Branch if greater than or equal (unsigned)" 7 ∈ registry.forms ∧
      (branch "bgeu" "Branch if greater than or equal (unsigned)" 7).Takes [31, 0, -4096]) ∧
    (∃ w, (Encoding.branch 7).encode [31, 0, -4096] = .ok w ∧
      disassemble? w = some (("bgeu" : Text), [31, 0, -4096])) := by
  have hmem : branch "bgeu" "Branch if greater than or equal (unsigned)" 7 ∈ registry.forms :=
    List.mem_of_getElem? (i := 40) rfl
  have htakes : (branch "bgeu" "Branch if greater than or equal (unsigned)" 7).Takes
      [31, 0, -4096] :=
    .cons (fun _ => by decide) (.cons (fun _ => by decide) (.cons (fun h => by cases h) .nil))
  obtain ⟨hiff, hreads⟩ := disassemble?_of_encode hmem rfl htakes
  obtain ⟨w, hw⟩ := hiff.mpr (.cons (by decide) (.cons (by decide) (.cons (by decide) .nil)))
  exact ⟨⟨hmem, htakes⟩, w, hw, (hreads w hw).1⟩

end Rv32im

end Rv32Assembler
