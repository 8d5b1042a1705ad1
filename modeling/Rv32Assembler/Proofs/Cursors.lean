import Rv32Assembler.Proofs.Run
/-!
# Cursors and reservations

Each of the four segments, and the external data, has a cursor: the next free address there. In a
run without errors an action leaves the cursors alone, or reserves bytes in one region, whose cursor
then moves past them, or aligns one cursor (`moves_perform`). Only a segment directive with an address
operand sets a cursor to any other place, and such directives are left out of account here.
-/

namespace Rv32Assembler

/-- A part of the address space that has a cursor. -/
inductive Region where
  | external
  | segment (s : Segment)
  deriving DecidableEq, Repr

/-- The next free address of a region. -/
def Cursors.next (c : Cursors) : Region → Address
  | .external => c.external
  | .segment s => c.get s

@[simp] theorem Cursors.next_set (c : Cursors) (s : Segment) (a : Address) (region : Region) :
    (c.set s a).next region = if region = .segment s then a else c.next region := by
  obtain ⟨isData, isKernel⟩ := s
  cases region with
  | external => cases isData <;> cases isKernel <;> rfl
  | segment s =>
    obtain ⟨isData', isKernel'⟩ := s
    cases isData <;> cases isKernel <;> cases isData' <;> cases isKernel' <;> rfl

@[simp] theorem Reading.next_advanceData (r : Reading) (n : Nat) (region : Region) :
    (r.advanceData n).cursors.next region
      = if region = .segment r.cursors.dataSegment then r.cursors.next region + BitVec.ofNat 32 n
        else r.cursors.next region := by
  rw [advanceData, Cursors.next_set]
  split
  · rename_i hregion
    rw [hregion]
    rfl
  · rfl

@[simp] theorem Reading.dataSegment_advanceData (r : Reading) (n : Nat) :
    (r.advanceData n).cursors.dataSegment = r.cursors.dataSegment := by
  have hset (c : Cursors) (s : Segment) (a : Address) :
      (c.set s a).dataSegment = c.dataSegment := by
    obtain ⟨isData, isKernel⟩ := s
    cases isData <;> cases isKernel <;> rfl
  exact hset _ _ _

theorem SegmentRange.contains_iff {r : SegmentRange} {a : Address} :
    r.contains a = true ↔ r.first.toNat ≤ a.toNat ∧ a.toNat ≤ r.last.toNat := by
  rw [contains, Bool.and_eq_true, BitVec.ule_iff_le, BitVec.ule_iff_le, BitVec.le_def,
    BitVec.le_def]

theorem mapped_iff {l : Layout} {a : Address} :
    l.mapped a = true ↔ ∃ r ∈ l.ranges, r.contains a = true := by
  simp only [Layout.mapped, Layout.inText, Layout.inData, Layout.ranges, Bool.or_eq_true,
    List.mem_cons, List.not_mem_nil, or_false, exists_eq_or_imp, exists_eq_left]
  tauto

namespace Action

/-- The statement of an instruction at the text cursor. -/
def statement? (s : Scope) (r : Reading) : Action → Option Statement
  | instruction note tokenLine operator operands =>
    (Instruction.select (s.isa.lookup operator.text) operands).map fun form =>
      { source := some tokenLine.source, unit := s.unit, tokenLine := tokenLine,
        line := tokenLine.source, operator := operator, operands := operands,
        address := r.cursors.get r.cursors.textSegment, instruction := form, note := note }
  | _ => none

/-- The region in which an action reserves bytes, and how many. -/
def reservation? (s : Scope) (r : Reading) : Action → Option (Region × Nat)
  | number _ _ width _ | reference _ _ width => some (.segment r.cursors.dataSegment, width)
  | string _ _ bytes => some (.segment r.cursors.dataSegment, bytes.length)
  | space _ _ [operand] => some (.segment r.cursors.dataSegment, operand.value.toNat)
  | external _ _ [name, size] =>
    if (r.global.lookup name.text).isNone then some (.external, size.value.toNat) else none
  | a@(instruction ..) =>
    (a.statement? s r).map fun statement =>
      (.segment r.cursors.textSegment, statement.instruction.size)
  | _ => none

def reservedIn (s : Scope) (r : Reading) (region : Region) (a : Action) : Nat :=
  match a.reservation? s r with
  | some (own, n) => if own = region then n else 0
  | none => 0

/-- The action sets a cursor to an address that the source gives. -/
def isRelocation : Action → Bool
  | select _ _ operands _ => !operands.isEmpty
  | _ => false

def isAlignment : Action → Bool
  | align .. => true
  | _ => false

/-- What an action can do to the cursors. -/
inductive Moves (s : Scope) (r : Reading) (a : Action) (after : Cursors) : Prop
  | still (hnone : a.reservation? s r = none) (hkind : a.isAlignment = false)
      (hnext : ∀ region, after.next region = r.cursors.next region)
  | reserve (region : Region) (n : Nat) (hsome : a.reservation? s r = some (region, n))
      (hnext : ∀ other, after.next other
        = if other = region then r.cursors.next other + BitVec.ofNat 32 n
          else r.cursors.next other)
  | align (segment : Segment) (multiple : Nat) (haction : a = .align segment multiple)
      (hnext : ∀ other, after.next other
        = if other = .segment segment then alignUp (r.cursors.next other) multiple
          else r.cursors.next other)

theorem not_clean_of_report {r : Reading} {note : Text} {t : Token} {p : Problem}
    (hp : p.isWarning = false) (h : (r.report note t p).log.hasErrors = false) : False := by
  have hwarning := (Log.hasErrors_add_eq_false_iff.1 h).2
  rw [Problem.about, Message.ofToken] at hwarning
  exact absurd hwarning (by simp [hp])

/-! ### One action -/

variable {s : Scope} {r : Reading}

theorem moves_label (note : Text) (t : Token) :
    (label note t).Moves s r (r.defineLabel note t).cursors := by
  refine .still rfl rfl fun region => ?_
  unfold Reading.defineLabel
  split
  · rfl
  · split <;> rfl

theorem moves_space {note : Text} {directive : Token} {operands : List Token}
    (h : (r.executeSpace note directive operands).log.hasErrors = false) :
    (space note directive operands).Moves s r (r.executeSpace note directive operands).cursors := by
  unfold Reading.executeSpace at h ⊢
  split at h
  · exact (not_clean_of_report rfl h).elim
  · rename_i hdata
    rw [if_neg hdata]
    split at h
    · split at h
      · rename_i operand hvalid
        simp only [hvalid, if_true]
        exact .reserve _ _ rfl fun other => r.next_advanceData _ other
      · exact (not_clean_of_report rfl h).elim
    · exact (not_clean_of_report rfl h).elim

theorem moves_external {note : Text} {directive : Token} {operands : List Token}
    (h : (r.executeExternal note directive operands).log.hasErrors = false) :
    (external note directive operands).Moves s r
      (r.executeExternal note directive operands).cursors := by
  unfold Reading.executeExternal at h ⊢
  split at h
  · rename_i name size
    split at h
    · rename_i hvalid
      rw [if_pos hvalid]
      cases hadd : r.global.add ⟨name.text, r.cursors.external, true⟩ with
      | error e =>
        -- The name is known already, and the first declaration has reserved its bytes.
        refine .still ?_ rfl fun region => rfl
        have hknown : r.global.lookup name.text ≠ none := fun hnone => by
          have hok : (r.global.add ⟨name.text, r.cursors.external, true⟩).isOk = true :=
            SymbolTable.isOk_add_iff.2 hnone
          rw [hadd] at hok
          cases hok
        simpa [reservation?] using hknown
      | ok global =>
        have hnone : r.global.lookup name.text = none := by
          have hok : (r.global.add ⟨name.text, r.cursors.external, true⟩).isOk = true := by
            rw [hadd]
            rfl
          exact SymbolTable.isOk_add_iff.1 hok
        refine .reserve .external size.value.toNat (by simp [reservation?, hnone]) fun other => ?_
        cases other with
        | segment s => rfl
        | external =>
          have hsize : 0 ≤ size.value := by simpa using (Bool.and_eq_true_iff.1 hvalid).2
          rw [if_pos rfl, ← BitVec.ofInt_natCast, Int.toNat_of_nonneg hsize]
          rfl
    · exact (not_clean_of_report rfl h).elim
  · exact (not_clean_of_report rfl h).elim

theorem cursors_executeGlobal (r : Reading) (note : Text) (d : Directive) (directive : Token)
    (operands : List Token) : (r.executeGlobal note d directive operands).cursors = r.cursors := by
  unfold Reading.executeGlobal
  split
  · rfl
  · clear * -
    induction operands generalizing r with
    | nil => rfl
    | cons t operands ih =>
      rw [List.foldl_cons, ih]
      split <;> rfl

theorem next_storeBytes {bytes : Text} (h : (r.storeBytes bytes).2 = none) (region : Region) :
    (r.storeBytes bytes).1.cursors.next region
      = if region = .segment r.cursors.dataSegment then
          r.cursors.next region + BitVec.ofNat 32 bytes.length
        else r.cursors.next region := by
  induction bytes generalizing r with
  | nil => simp [Reading.storeBytes]
  | cons b rest ih =>
    rw [Reading.storeBytes, Image.store_eq] at h ⊢
    cases hset : r.image.set r.dataCursor b.toNat 1 with
    | error e =>
      rw [hset] at h
      cases h
    | ok image =>
      simp only [hset] at h ⊢
      rw [ih h, Reading.dataSegment_advanceData, Reading.next_advanceData]
      split
      · rw [List.length_cons, Nat.add_comm, BitVec.ofNat_add, BitVec.add_assoc]
      · rfl

/-- An instruction that leaves no error becomes a statement, and its room is reserved. -/
theorem readInstruction_of_clean {note : Text} {tokenLine : TokenLine} {operator : Token}
    {operands : List Token}
    (h : (r.readInstruction s note tokenLine operator operands).log.hasErrors = false) :
    ∃ statement, (instruction note tokenLine operator operands).statement? s r = some statement ∧
      r.readInstruction s note tokenLine operator operands
        = { r with
            cursors := r.cursors.set r.cursors.textSegment
              (r.cursors.get r.cursors.textSegment
                + BitVec.ofNat 32 statement.instruction.size)
            parsed := r.parsed ++ [statement] } := by
  unfold Reading.readInstruction at h ⊢
  split at h
  · split at h <;> exact (not_clean_of_report rfl h).elim
  · rename_i hoperator
    split at h
    · exact (not_clean_of_report rfl h).elim
    · rename_i form hselect
      split at h
      · exact (not_clean_of_report rfl h).elim
      · rename_i hpseudo
        split at h
        · exact (not_clean_of_report rfl h).elim
        · rw [if_neg hoperator, if_neg hpseudo, statement?, hselect]
          exact ⟨_, rfl, rfl⟩

theorem moves_instruction {note : Text} {tokenLine : TokenLine} {operator : Token}
    {operands : List Token}
    (h : (r.readInstruction s note tokenLine operator operands).log.hasErrors = false) :
    (instruction note tokenLine operator operands).Moves s r
      (r.readInstruction s note tokenLine operator operands).cursors := by
  obtain ⟨statement, hstatement, hread⟩ := readInstruction_of_clean h
  rw [hread]
  refine .reserve (.segment r.cursors.textSegment) statement.instruction.size
    (by rw [reservation?, hstatement]; rfl) fun other => ?_
  rw [Cursors.next_set]
  split
  · rename_i hother
    rw [hother]
    rfl
  · rfl

/-- What an action does to the cursors, if it leaves no error and sets none of them outright. -/
theorem moves_perform {a : Action} (hclean : (a.perform s r).log.hasErrors = false)
    (hplain : a.isRelocation = false) : a.Moves s r (a.perform s r).cursors := by
  cases a with
  | label note t => exact moves_label note t
  | select note directive operands segment =>
    obtain rfl : operands = [] := by simpa [isRelocation] using hplain
    exact .still rfl rfl fun region => by cases region <;> rfl
  | space note directive operands => exact moves_space hclean
  | external note directive operands => exact moves_external hclean
  | share note d directive operands =>
    exact .still rfl rfl fun region => by rw [perform, cursors_executeGlobal]
  | beginMacro note index directive operands =>
    refine .still rfl rfl fun region => ?_
    rw [perform, Reading.executeBegin_eq]
    split <;> rfl
  | endMacro note index directive operands =>
    refine .still rfl rfl fun region => ?_
    rw [perform, Reading.executeEnd_eq]
    split <;> rfl
  | announce d => exact .still rfl rfl fun region => by cases region <;> rfl
  | align segment multiple =>
    refine .align segment multiple rfl fun other => ?_
    rw [perform, Reading.align]
    by_cases hsame : alignUp (r.cursors.get segment) multiple = r.cursors.get segment
    · rw [if_pos hsame]
      split
      · rename_i hother
        rw [hother]
        exact hsame.symm
      · rfl
    · rw [if_neg hsame, Cursors.next_set]
      split
      · rename_i hother
        rw [hother]
        rfl
      · rfl
  | unalign => exact .still rfl rfl fun region => by cases region <;> rfl
  | number note t width value =>
    refine .reserve _ width rfl fun other => ?_
    obtain ⟨image, log, hwrite⟩ := r.writeValue_frame note t r.dataCursor value width
    rw [perform, hwrite, Reading.next_advanceData]
  | reference note t width =>
    refine .reserve _ width rfl fun other => ?_
    rw [perform]
    split
    · rename_i symbol _
      obtain ⟨image, log, hwrite⟩ :=
        r.writeValue_frame note t r.dataCursor symbol.address.toNat width
      rw [hwrite, Reading.next_advanceData]
    · obtain ⟨image, log, hwrite⟩ := r.writeValue_frame note t r.dataCursor 0 width
      rw [Reading.writePending, hwrite, Reading.next_advanceData]
  | string note t bytes =>
    refine .reserve _ bytes.length rfl fun other => ?_
    rw [perform] at hclean ⊢
    split at hclean
    · rename_i hstored
      have hnext := next_storeBytes (congrArg Prod.snd hstored) other
      rwa [hstored] at hnext
    · exact (not_clean_of_report rfl hclean).elim
  | report note t p => exact .still rfl rfl fun region => rfl
  | record messages => exact .still rfl rfl fun region => rfl
  | enter => exact .still rfl rfl fun region => rfl
  | instruction note tokenLine operator operands => exact moves_instruction hclean

end Action

/-- Every action of a successful run leaves a state without errors. -/
theorem Run.clean_after {config : Config} {isa : Registry} {files : List SourceFile}
    {program : Program} (run : Run config isa files program) {m : Moment}
    (hm : m ∈ moments config isa files) : m.after.log.hasErrors = false := by
  obtain ⟨earlier, later, hsplit⟩ := List.append_of_mem hm
  obtain ⟨log, tokenized, -, hreads⟩ := run.reads
  obtain ⟨_, _, _, _, _, _, _, _, _, -, -, hclean, -⟩ := hreads.exists_file hsplit
  exact Scope.clean_of_performAll hclean

end Rv32Assembler
