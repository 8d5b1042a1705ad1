import Mathlib.Tactic.Ring
import Rv32Assembler.Isa.Template
/-!
# Machine words by format

The decoding of a machine word by the six formats of RV32I, and what it makes of the words that the
encodings put together. The offset of a branch or a jump is scattered over the word; decoding gathers
its bits again. The two parts of a split value add up to the value (`upper20_add_lower12`).
-/

namespace Rv32Assembler

open Encoding

/-- A machine word, taken apart by its format. -/
inductive Decoded where
  | register (opcode : BitVec 7) (rd : BitVec 5) (funct3 : BitVec 3) (rs1 rs2 : BitVec 5)
      (funct7 : BitVec 7)
  | immediate (opcode : BitVec 7) (rd : BitVec 5) (funct3 : BitVec 3) (rs1 : BitVec 5)
      (imm : BitVec 12)
  | store (funct3 : BitVec 3) (rs1 rs2 : BitVec 5) (imm : BitVec 12)
  | branch (funct3 : BitVec 3) (rs1 rs2 : BitVec 5) (offset : BitVec 13)
  | upper (opcode : BitVec 7) (rd : BitVec 5) (imm : BitVec 20)
  | jump (rd : BitVec 5) (offset : BitVec 21)
  deriving DecidableEq, Repr

/-- The opcodes of the words with a twelve-bit immediate in one piece. -/
def immediateOpcodes : List (BitVec 7) :=
  [Opcode.load, Opcode.fence, Opcode.immediate, Opcode.jalr, Opcode.system]

/-- Takes a machine word apart. -/
def Decoded.ofWord? (w : Word) : Option Decoded :=
  let opcode := w.extractLsb' 0 7
  let rd := w.extractLsb' 7 5
  let funct3 := w.extractLsb' 12 3
  let rs1 := w.extractLsb' 15 5
  let rs2 := w.extractLsb' 20 5
  if opcode = Opcode.register then
    some (.register opcode rd funct3 rs1 rs2 (w.extractLsb' 25 7))
  else if opcode ∈ immediateOpcodes then
    some (.immediate opcode rd funct3 rs1 (w.extractLsb' 20 12))
  else if opcode = Opcode.store then
    some (.store funct3 rs1 rs2 (w.extractLsb' 25 7 ++ w.extractLsb' 7 5))
  else if opcode = Opcode.branch then
    some (.branch funct3 rs1 rs2
      (w.extractLsb' 31 1 ++ w.extractLsb' 7 1 ++ w.extractLsb' 25 6 ++ w.extractLsb' 8 4 ++ 0#1))
  else if opcode = Opcode.lui ∨ opcode = Opcode.auipc then
    some (.upper opcode rd (w.extractLsb' 12 20))
  else if opcode = Opcode.jal then
    some (.jump rd
      (w.extractLsb' 31 1 ++ w.extractLsb' 12 8 ++ w.extractLsb' 20 1 ++ w.extractLsb' 21 10
        ++ 0#1))
  else none

/-! ### Decoding what was encoded

A field of a word is found by leaving the fields behind it, then those in front of it. -/

section

open BitVec (extractLsb'_append_eq_of_le extractLsb'_append_eq_of_add_le extractLsb'_eq_self
  extractLsb'_append_extractLsb'_eq_extractLsb')

theorem ofWord?_packRegister (funct7 : BitVec 7) (rs2 rs1 : BitVec 5) (funct3 : BitVec 3)
    (rd : BitVec 5) :
    Decoded.ofWord? (packRegister funct7 rs2 rs1 funct3 rd Opcode.register)
      = some (.register Opcode.register rd funct3 rs1 rs2 funct7) := by
  obtain ⟨hopcode, hrd, hfunct3, hrs1, hrs2, hfunct7⟩ :
      (packRegister funct7 rs2 rs1 funct3 rd Opcode.register).extractLsb' 0 7 = Opcode.register ∧
      (packRegister funct7 rs2 rs1 funct3 rd Opcode.register).extractLsb' 7 5 = rd ∧
      (packRegister funct7 rs2 rs1 funct3 rd Opcode.register).extractLsb' 12 3 = funct3 ∧
      (packRegister funct7 rs2 rs1 funct3 rd Opcode.register).extractLsb' 15 5 = rs1 ∧
      (packRegister funct7 rs2 rs1 funct3 rd Opcode.register).extractLsb' 20 5 = rs2 ∧
      (packRegister funct7 rs2 rs1 funct3 rd Opcode.register).extractLsb' 25 7 = funct7 := by
    unfold packRegister
    refine ⟨?_, ?_, ?_, ?_, ?_, ?_⟩
    all_goals
      repeat rw [extractLsb'_append_eq_of_le (by decide)]
      try rw [extractLsb'_append_eq_of_add_le (by decide)]
      exact extractLsb'_eq_self
  simp only [Decoded.ofWord?, hopcode, hrd, hfunct3, hrs1, hrs2, hfunct7, if_true]

theorem ofWord?_packImmediate {imm : BitVec 12} {rs1 : BitVec 5} {funct3 : BitVec 3}
    {rd : BitVec 5} {opcode : BitVec 7} (h : opcode ∈ immediateOpcodes) :
    Decoded.ofWord? (packImmediate imm rs1 funct3 rd opcode)
      = some (.immediate opcode rd funct3 rs1 imm) := by
  obtain ⟨hopcode, hrd, hfunct3, hrs1, himm⟩ :
      (packImmediate imm rs1 funct3 rd opcode).extractLsb' 0 7 = opcode ∧
      (packImmediate imm rs1 funct3 rd opcode).extractLsb' 7 5 = rd ∧
      (packImmediate imm rs1 funct3 rd opcode).extractLsb' 12 3 = funct3 ∧
      (packImmediate imm rs1 funct3 rd opcode).extractLsb' 15 5 = rs1 ∧
      (packImmediate imm rs1 funct3 rd opcode).extractLsb' 20 12 = imm := by
    unfold packImmediate
    refine ⟨?_, ?_, ?_, ?_, ?_⟩
    all_goals
      repeat rw [extractLsb'_append_eq_of_le (by decide)]
      try rw [extractLsb'_append_eq_of_add_le (by decide)]
      exact extractLsb'_eq_self
  have hregister : opcode ≠ Opcode.register := by
    rintro rfl
    revert h
    decide
  simp only [Decoded.ofWord?, hopcode, hrd, hfunct3, hrs1, himm, if_neg hregister, if_pos h]

theorem ofWord?_packStore (imm : BitVec 12) (rs2 rs1 : BitVec 5) (funct3 : BitVec 3) :
    Decoded.ofWord? (packStore imm rs2 rs1 funct3) = some (.store funct3 rs1 rs2 imm) := by
  obtain ⟨hopcode, hfunct3, hrs1, hrs2, hhigh, hlow⟩ :
      (packStore imm rs2 rs1 funct3).extractLsb' 0 7 = Opcode.store ∧
      (packStore imm rs2 rs1 funct3).extractLsb' 12 3 = funct3 ∧
      (packStore imm rs2 rs1 funct3).extractLsb' 15 5 = rs1 ∧
      (packStore imm rs2 rs1 funct3).extractLsb' 20 5 = rs2 ∧
      (packStore imm rs2 rs1 funct3).extractLsb' 25 7 = imm.extractLsb' 5 7 ∧
      (packStore imm rs2 rs1 funct3).extractLsb' 7 5 = imm.extractLsb' 0 5 := by
    unfold packStore
    refine ⟨?_, ?_, ?_, ?_, ?_, ?_⟩
    all_goals
      repeat rw [extractLsb'_append_eq_of_le (by decide)]
      try rw [extractLsb'_append_eq_of_add_le (by decide)]
      exact extractLsb'_eq_self
  have hgathered : (imm.extractLsb' 5 7 ++ imm.extractLsb' 0 5 : BitVec 12) = imm := by
    rw [extractLsb'_append_extractLsb'_eq_extractLsb' (by decide)]
    exact extractLsb'_eq_self
  simp only [Decoded.ofWord?, hopcode, hfunct3, hrs1, hrs2, hhigh, hlow, hgathered]
  rfl

/-- The offset of a branch is even, so its lowest bit is not in the word. -/
theorem ofWord?_packBranch {offset : BitVec 13} {rs2 rs1 : BitVec 5} {funct3 : BitVec 3}
    (h : offset.extractLsb' 0 1 = 0#1) :
    Decoded.ofWord? (packBranch offset rs2 rs1 funct3) = some (.branch funct3 rs1 rs2 offset) := by
  obtain ⟨hopcode, hfunct3, hrs1, hrs2, hsign, hlead, hhigh, hlow⟩ :
      (packBranch offset rs2 rs1 funct3).extractLsb' 0 7 = Opcode.branch ∧
      (packBranch offset rs2 rs1 funct3).extractLsb' 12 3 = funct3 ∧
      (packBranch offset rs2 rs1 funct3).extractLsb' 15 5 = rs1 ∧
      (packBranch offset rs2 rs1 funct3).extractLsb' 20 5 = rs2 ∧
      (packBranch offset rs2 rs1 funct3).extractLsb' 31 1 = offset.extractLsb' 12 1 ∧
      (packBranch offset rs2 rs1 funct3).extractLsb' 7 1 = offset.extractLsb' 11 1 ∧
      (packBranch offset rs2 rs1 funct3).extractLsb' 25 6 = offset.extractLsb' 5 6 ∧
      (packBranch offset rs2 rs1 funct3).extractLsb' 8 4 = offset.extractLsb' 1 4 := by
    unfold packBranch
    refine ⟨?_, ?_, ?_, ?_, ?_, ?_, ?_, ?_⟩
    all_goals
      repeat rw [extractLsb'_append_eq_of_le (by decide)]
      try rw [extractLsb'_append_eq_of_add_le (by decide)]
      exact extractLsb'_eq_self
  have hgathered : (offset.extractLsb' 12 1 ++ offset.extractLsb' 11 1 ++ offset.extractLsb' 5 6
      ++ offset.extractLsb' 1 4 ++ 0#1 : BitVec 13) = offset := by
    rw [← h]
    repeat rw [extractLsb'_append_extractLsb'_eq_extractLsb' (by decide)]
    exact extractLsb'_eq_self
  simp only [Decoded.ofWord?, hopcode, hfunct3, hrs1, hrs2, hsign, hlead, hhigh, hlow, hgathered]
  rfl

theorem ofWord?_packUpper {imm : BitVec 20} {rd : BitVec 5} {opcode : BitVec 7}
    (h : opcode = Opcode.lui ∨ opcode = Opcode.auipc) :
    Decoded.ofWord? (packUpper imm rd opcode) = some (.upper opcode rd imm) := by
  obtain ⟨hopcode, hrd, himm⟩ :
      (packUpper imm rd opcode).extractLsb' 0 7 = opcode ∧
      (packUpper imm rd opcode).extractLsb' 7 5 = rd ∧
      (packUpper imm rd opcode).extractLsb' 12 20 = imm := by
    unfold packUpper
    refine ⟨?_, ?_, ?_⟩
    all_goals
      repeat rw [extractLsb'_append_eq_of_le (by decide)]
      try rw [extractLsb'_append_eq_of_add_le (by decide)]
      exact extractLsb'_eq_self
  simp only [Decoded.ofWord?, hopcode, hrd, himm]
  rcases h with rfl | rfl <;> rfl

theorem ofWord?_packJump {offset : BitVec 21} {rd : BitVec 5} (h : offset.extractLsb' 0 1 = 0#1) :
    Decoded.ofWord? (packJump offset rd) = some (.jump rd offset) := by
  obtain ⟨hopcode, hrd, hsign, hhigh, hmiddle, hlow⟩ :
      (packJump offset rd).extractLsb' 0 7 = Opcode.jal ∧
      (packJump offset rd).extractLsb' 7 5 = rd ∧
      (packJump offset rd).extractLsb' 31 1 = offset.extractLsb' 20 1 ∧
      (packJump offset rd).extractLsb' 12 8 = offset.extractLsb' 12 8 ∧
      (packJump offset rd).extractLsb' 20 1 = offset.extractLsb' 11 1 ∧
      (packJump offset rd).extractLsb' 21 10 = offset.extractLsb' 1 10 := by
    unfold packJump
    refine ⟨?_, ?_, ?_, ?_, ?_, ?_⟩
    all_goals
      repeat rw [extractLsb'_append_eq_of_le (by decide)]
      try rw [extractLsb'_append_eq_of_add_le (by decide)]
      exact extractLsb'_eq_self
  have hgathered : (offset.extractLsb' 20 1 ++ offset.extractLsb' 12 8 ++ offset.extractLsb' 11 1
      ++ offset.extractLsb' 1 10 ++ 0#1 : BitVec 21) = offset := by
    rw [← h]
    repeat rw [extractLsb'_append_extractLsb'_eq_extractLsb' (by decide)]
    exact extractLsb'_eq_self
  simp only [Decoded.ofWord?, hopcode, hrd, hsign, hhigh, hmiddle, hlow, hgathered]
  rfl

end

/-! ### Signed fields and split values -/

theorem extractLsb'_ofInt_of_even {width : Nat} (hwidth : 0 < width) {v : Int} (h : v % 2 = 0) :
    (BitVec.ofInt width v).extractLsb' 0 1 = 0#1 := by
  apply BitVec.eq_of_toNat_eq
  rw [BitVec.extractLsb'_toNat, BitVec.toNat_ofInt, Nat.shiftRight_zero]
  have heven : (v % (2 ^ width : Nat)) % 2 = 0 := by
    rw [Int.emod_emod_of_dvd v]
    · exact h
    · exact_mod_cast dvd_pow_self 2 hwidth.ne'
  have hpos : 0 ≤ v % (2 ^ width : Nat) := Int.emod_nonneg _ (by
    exact_mod_cast (Nat.two_pow_pos width).ne')
  change (v % (2 ^ width : Nat)).toNat % 2 ^ 1 = 0
  omega

theorem toInt_ofInt_of_fitsSigned {bits : Nat} {v : Int} (h : fitsSigned bits v = true) :
    (BitVec.ofInt (bits + 1) v).toInt = v := by
  simp only [fitsSigned, Bool.and_eq_true, decide_eq_true_eq, Nat.one_shiftLeft] at h
  obtain ⟨hhigh, hlow⟩ := h
  rw [BitVec.toInt_ofInt]
  apply Int.bmod_eq_of_le
  · rw [pow_succ]
    push_cast at hlow ⊢
    omega
  · rw [pow_succ]
    push_cast at hhigh ⊢
    omega

theorem signExtend_ofInt {bits : Nat} {v : Int} (h : fitsSigned bits v = true) :
    (BitVec.ofInt (bits + 1) v).signExtend 32 = BitVec.ofInt 32 v := by
  rw [BitVec.signExtend, toInt_ofInt_of_fitsSigned h]

theorem fitsSigned_lower12 (v : Int) : fitsSigned 11 (lower12 v) = true := by
  have hhigh := @Int.bmod_lt v 0x1000 (by decide)
  have hlow := @Int.le_bmod v 0x1000 (by decide)
  have hbound : (1 <<< 11 : Nat) = 0x800 := rfl
  simp only [fitsSigned, hbound, lower12, Bool.and_eq_true, decide_eq_true_eq]
  omega

theorem upper20_add_lower12 (v : Int) :
    (BitVec.ofInt 20 (upper20 v) ++ 0#12 : BitVec 32)
        + (BitVec.ofInt 12 (lower12 v)).signExtend 32
      = BitVec.ofInt 32 v := by
  have hupper : (BitVec.ofInt 20 (upper20 v) ++ 0#12 : BitVec 32)
      = BitVec.ofInt 32 (upper20 v * 0x1000) := by
    apply BitVec.eq_of_toNat_eq
    have hpieces : (BitVec.ofInt 20 (upper20 v) ++ 0#12 : BitVec (20 + 12)).toNat
        = (BitVec.ofInt 20 (upper20 v)).toNat * 2 ^ 12 := by
      rw [BitVec.toNat_append, Nat.shiftLeft_eq]
      simp
    change (BitVec.ofInt 20 (upper20 v) ++ 0#12 : BitVec (20 + 12)).toNat = _
    rw [hpieces, BitVec.toNat_ofInt, BitVec.toNat_ofInt]
    omega
  rw [hupper, signExtend_ofInt (fitsSigned_lower12 v), ← BitVec.ofInt_add]
  apply BitVec.eq_of_toNat_eq
  rw [BitVec.toNat_ofInt, BitVec.toNat_ofInt]
  congr 1
  have hbmod := Int.bmod_def v 0x1000
  unfold upper20 lower12
  split at hbmod <;> omega

theorem add_ofInt_distance (pc : Word) (v : Int) :
    pc + BitVec.ofInt 32 (Template.distance v pc) = BitVec.ofInt 32 v := by
  rw [Template.distance, BitVec.ofInt_toInt, BitVec.add_comm, BitVec.sub_add_cancel]

/-! ### Words with an offset

The forms of operands are read for any kind of operand: `R` says which value each of them has. -/

def JumpsBy (w offset : Word) : Prop :=
  (∃ funct3 rs1 rs2 imm, Decoded.ofWord? w = some (.branch funct3 rs1 rs2 imm) ∧
    imm.signExtend 32 = offset) ∨
  ∃ rd imm, Decoded.ofWord? w = some (.jump rd imm) ∧ imm.signExtend 32 = offset

/-- The word is of the I or the S format, with a base register and an immediate. -/
def AddsTo (w : Word) (base : BitVec 5) (imm : BitVec 12) : Prop :=
  (∃ opcode rd funct3, Decoded.ofWord? w = some (.immediate opcode rd funct3 base imm)) ∨
  ∃ funct3 rs2, Decoded.ofWord? w = some (.store funct3 base rs2 imm)

namespace Encoding

variable {α : Type}

/-- The operand that a branch or a jump takes its offset from. -/
def target? : Encoding → List α → Option α
  | branch _, [_, _, target] => some target
  | jump, [_, target] => some target
  | _, _ => none

def indexed? : Encoding → List α → Option (α × α)
  | immediate opcode _, [_, base, imm] =>
    if opcode ∈ immediateOpcodes then some (base, imm) else none
  | load _, [_, imm, base] => some (base, imm)
  | store _, [_, imm, base] => some (base, imm)
  | _, _ => none

theorem encode_store (funct3 : BitVec 3) (rs2 imm rs1 : Int) :
    (store funct3).encode [rs2, imm, rs1]
      = if fitsSigned 11 imm then
          .ok (packStore (BitVec.ofInt 12 imm) (registerField rs2) (registerField rs1) funct3)
        else .error (.offsetRange imm) := rfl

theorem encode_branch (funct3 : BitVec 3) (rs1 rs2 offset : Int) :
    (branch funct3).encode [rs1, rs2, offset]
      = if offset % 2 == 0 && fitsSigned 12 offset then
          .ok (packBranch (BitVec.ofInt 13 offset) (registerField rs2) (registerField rs1) funct3)
        else .error (.branchRange offset) := rfl

theorem encode_upper (opcode : BitVec 7) (rd imm : Int) :
    (upper opcode).encode [rd, imm]
      = if -0x80000 ≤ imm && imm ≤ 0xfffff then
          .ok (packUpper (BitVec.ofInt 20 imm) (registerField rd) opcode)
        else .error (.upperRange imm) := rfl

theorem encode_jump (rd offset : Int) :
    jump.encode [rd, offset]
      = if offset % 2 == 0 && fitsSigned 20 offset then
          .ok (packJump (BitVec.ofInt 21 offset) (registerField rd))
        else .error (.jumpRange offset) := rfl

theorem ofWord?_of_encodeImmediate {opcode : BitVec 7} {funct3 : BitVec 3} {rd rs1 imm : Int}
    {w : Word} (h : encodeImmediate opcode funct3 rd rs1 imm = .ok w)
    (hopcode : opcode ∈ immediateOpcodes) :
    Decoded.ofWord? w = some (.immediate opcode (registerField rd) funct3 (registerField rs1)
      (BitVec.ofInt 12 imm)) ∧ fitsSigned 11 imm = true := by
  unfold encodeImmediate at h
  split at h
  · rename_i hfits
    cases h
    exact ⟨ofWord?_packImmediate hopcode, hfits⟩
  · cases h

theorem ofWord?_of_encodeUpper {opcode : BitVec 7} {rd imm : Int} {w : Word}
    (h : (upper opcode).encode [rd, imm] = .ok w)
    (hopcode : opcode = Opcode.lui ∨ opcode = Opcode.auipc) :
    Decoded.ofWord? w = some (.upper opcode (registerField rd) (BitVec.ofInt 20 imm)) := by
  rw [encode_upper] at h
  split at h
  · cases h
    exact ofWord?_packUpper hopcode
  · cases h

theorem jumpsBy_of_encode {R : α → Int → Prop} {encoding : Encoding} {operands : List α}
    {target : α} {values : List Int} {w : Word} (h : encoding.encode values = .ok w)
    (htarget : encoding.target? operands = some target) (hvalues : List.Forall₂ R operands values) :
    ∃ offset, R target offset ∧ JumpsBy w (BitVec.ofInt 32 offset) := by
  unfold target? at htarget
  split at htarget
  · cases htarget
    obtain _ | ⟨-, _ | ⟨-, _ | ⟨hoffset, _ | _⟩⟩⟩ := hvalues
    rename_i offset
    rw [encode_branch] at h
    split at h
    · rename_i hcond
      simp only [Bool.and_eq_true, beq_iff_eq] at hcond
      cases h
      refine ⟨offset, hoffset, .inl ⟨_, _, _, _, ofWord?_packBranch ?_, signExtend_ofInt hcond.2⟩⟩
      exact extractLsb'_ofInt_of_even (by decide) hcond.1
    · cases h
  · cases htarget
    obtain _ | ⟨-, _ | ⟨hoffset, _ | _⟩⟩ := hvalues
    rename_i offset
    rw [encode_jump] at h
    split at h
    · rename_i hcond
      simp only [Bool.and_eq_true, beq_iff_eq] at hcond
      cases h
      refine ⟨offset, hoffset, .inr ⟨_, _, ofWord?_packJump ?_, signExtend_ofInt hcond.2⟩⟩
      exact extractLsb'_ofInt_of_even (by decide) hcond.1
    · cases h
  · cases htarget

theorem addsTo_of_encode {R : α → Int → Prop} {encoding : Encoding} {operands : List α}
    {base imm : α} {values : List Int} {w : Word} (h : encoding.encode values = .ok w)
    (hindexed : encoding.indexed? operands = some (base, imm))
    (hvalues : List.Forall₂ R operands values) :
    ∃ rs1 lower, R base rs1 ∧ R imm lower ∧
      AddsTo w (registerField rs1) (BitVec.ofInt 12 lower) := by
  unfold indexed? at hindexed
  split at hindexed
  · split at hindexed
    · rename_i hopcode
      cases hindexed
      obtain _ | ⟨-, _ | ⟨hbase, _ | ⟨himm, _ | _⟩⟩⟩ := hvalues
      exact ⟨_, _, hbase, himm, .inl ⟨_, _, _, (ofWord?_of_encodeImmediate h hopcode).1⟩⟩
    · cases hindexed
  · cases hindexed
    obtain _ | ⟨-, _ | ⟨himm, _ | ⟨hbase, _ | _⟩⟩⟩ := hvalues
    exact ⟨_, _, hbase, himm, .inl ⟨_, _, _, (ofWord?_of_encodeImmediate h (by decide)).1⟩⟩
  · cases hindexed
    obtain _ | ⟨-, _ | ⟨himm, _ | ⟨hbase, _ | _⟩⟩⟩ := hvalues
    rw [encode_store] at h
    split at h
    · cases h
      exact ⟨_, _, hbase, himm, .inr ⟨_, _, ofWord?_packStore _ _ _ _⟩⟩
    · cases h
  · cases hindexed

end Encoding

end Rv32Assembler
