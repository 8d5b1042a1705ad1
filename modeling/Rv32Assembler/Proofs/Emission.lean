import Rv32Assembler.Proofs.Step
/-!
# Bytes at the data cursor

Storing bytes at the data cursor and moving past them is one operation, `Reading.emit`, and emitting one
run of bytes after another is emitting both as one run (`emit_append`). Where the addresses ahead of the
cursor are mapped, the stores of the data directives are this operation and nothing else: those of bytes
one by one (`storeBytes_of_room`), and those of values at a multiple of their size
(`storeCopies_of_room`).
-/

namespace Rv32Assembler

namespace Reading

/-- The state after bytes are stored at the data cursor. -/
def emit (r : Reading) (bytes : List UInt8) : Reading :=
  ({ r with image := r.image.write r.dataCursor bytes } : Reading).advanceData bytes.length

@[simp] theorem image_emit (r : Reading) (bytes : List UInt8) :
    (r.emit bytes).image = r.image.write r.dataCursor bytes := rfl

@[simp] theorem log_emit (r : Reading) (bytes : List UInt8) : (r.emit bytes).log = r.log := rfl

@[simp] theorem dataCursor_emit (r : Reading) (bytes : List UInt8) :
    (r.emit bytes).dataCursor = r.dataCursor + BitVec.ofNat 32 bytes.length :=
  dataCursor_advanceData _ _

theorem advanceData_advanceData (r : Reading) (n k : Nat) :
    (r.advanceData n).advanceData k = r.advanceData (n + k) := by
  cases hkernel : r.cursors.segment.isKernel <;>
    simp [advanceData, dataCursor, Cursors.dataSegment, Cursors.get, Cursors.set, hkernel,
      BitVec.add_assoc, BitVec.ofNat_add]

theorem advanceData_zero (r : Reading) : r.advanceData 0 = r := by
  cases hkernel : r.cursors.segment.isKernel <;>
    simp [advanceData, dataCursor, Cursors.dataSegment, Cursors.get, Cursors.set, hkernel]

theorem emit_nil (r : Reading) : r.emit [] = r := advanceData_zero r

theorem emit_append (r : Reading) (bytes more : List UInt8) :
    (r.emit bytes).emit more = r.emit (bytes ++ more) := by
  have himage : (r.emit bytes).image.write (r.emit bytes).dataCursor more
      = r.image.write r.dataCursor (bytes ++ more) := by
    rw [image_emit, dataCursor_emit, Image.write_append]
  rw [emit, himage]
  conv_rhs => rw [emit, List.length_append, ← advanceData_advanceData]
  rfl

/-- The next `n` addresses for data are mapped. -/
def Room (r : Reading) (n : Nat) : Prop :=
  ∀ i < n, r.image.layout.mapped (r.dataCursor + BitVec.ofNat 32 i) = true

namespace Room

variable {r : Reading} {n k : Nat}

theorem mono (h : r.Room n) (hk : k ≤ n) : r.Room k := fun i hi => h i (Nat.lt_of_lt_of_le hi hk)

theorem emit {bytes : List UInt8} (h : r.Room (bytes.length + n)) : (r.emit bytes).Room n := by
  intro i hi
  have hplace : r.dataCursor + BitVec.ofNat 32 bytes.length + BitVec.ofNat 32 i
      = r.dataCursor + BitVec.ofNat 32 (bytes.length + i) := by
    rw [BitVec.ofNat_add, BitVec.add_assoc]
  rw [image_emit, Image.layout_write, dataCursor_emit, hplace]
  exact h _ (by omega)

theorem mapped (h : r.Room n) (hn : 0 < n) : r.image.layout.mapped r.dataCursor = true := by
  simpa using h 0 hn

end Room

/-- In a data segment a data directive is noted and its operands are stored; elsewhere it is an error. -/
theorem execute_eq_of_isData {r : Reading} {note : Text} {index : Int} {directive : Token} {d : Directive}
    {operands : List Token} (hname : Directive.ofName? directive.text = some d)
    (hkind : d.isNumeric = true ∨ d.isString = true) (hplain : r.pool.isDefining = false) :
    let announced : Reading := { r with cursors := { r.cursors with directive := some d } }
    r.execute note index directive operands = if r.cursors.segment.isData
      then announced.storeData note d operands
      else announced.report note directive (.directiveInText d) := by
  have hexecute : r.executePlain note index d directive operands
      = r.executeData note d directive operands := by
    revert hkind
    cases d <;> simp [Directive.isNumeric, Directive.isInteger, Directive.isReal, Directive.isString,
      executePlain]
  simp only [execute, hname, hplain, Bool.false_eq_true, if_false, hexecute, executeData]

theorem execute_data {r : Reading} {note : Text} {index : Int} {directive : Token} {d : Directive}
    {operands : List Token} (hname : Directive.ofName? directive.text = some d)
    (hkind : d.isNumeric = true ∨ d.isString = true) (hplain : r.pool.isDefining = false)
    (hdata : r.cursors.segment.isData = true) :
    r.execute note index directive operands
      = ({ r with cursors := { r.cursors with directive := some d } } : Reading).storeData note d
          operands := by
  rw [execute_eq_of_isData hname hkind hplain, if_pos hdata]

/-! ### Bytes -/

theorem storeBytes_of_room {r : Reading} {bytes : Text} (h : r.Room bytes.length) :
    r.storeBytes bytes = (r.emit bytes, none) := by
  induction bytes generalizing r with
  | nil => rw [storeBytes, emit_nil]
  | cons b rest ih =>
    have hadmits : r.image.Admits r.dataCursor 1 :=
      ⟨.inl rfl, Nat.mod_one _, h.mapped (Nat.succ_pos _)⟩
    have hbyte : littleEndian (1 : Int).toNat (b.toNat : Int) = [b] := by
      have hlow : ((b.toNat : Int) >>> (8 * 0 : Nat) % 256).toNat = b.toNat := by
        have := b.toNat_lt
        simp only [Nat.mul_zero, Int.shiftRight_zero]
        omega
      change [byteOf b.toNat 0] = [b]
      rw [byteOf, hlow, UInt8.ofNat_toNat]
    have hset : r.image.set r.dataCursor b.toNat 1 = .ok (r.image.write r.dataCursor [b]) :=
      Image.set_eq_ok_iff.2 ⟨hadmits, by rw [hbyte]⟩
    have hfirst : (r.emit [b]).emit rest = r.emit (b :: rest) := r.emit_append [b] rest
    have hroom : r.Room ([b].length + rest.length) := by
      rwa [List.length_singleton, Nat.add_comm]
    rw [storeBytes, Image.store_eq, hset, ← hfirst]
    exact ih hroom.emit

/-! ### Values -/

/-- A value of one, two, four or eight bytes. -/
def IsSize (width : Nat) : Prop := width = 1 ∨ width = 2 ∨ width = 4 ∨ width = 8

instance (width : Nat) : Decidable (IsSize width) := inferInstanceAs (Decidable (_ ∨ _))

theorem IsSize.dvd {width : Nat} (h : IsSize width) : width ∣ 2 ^ 32 := by
  rcases h with rfl | rfl | rfl | rfl <;> decide

theorem writeValue_of_room {r : Reading} {width : Nat} (hsize : IsSize width)
    (haligned : r.dataCursor.toNat % width = 0) (h : r.Room width) (note : Text) (t : Token) (v : Int) :
    (r.writeValue note t r.dataCursor v width).advanceData width = r.emit (littleEndian width v) := by
  have hwrite : r.writeValue note t r.dataCursor v width
      = { r with image := r.image.write r.dataCursor (littleEndian width v) } := by
    unfold writeValue
    by_cases hdouble : width = 8
    · subst hdouble
      have hadmits : r.image.Admits r.dataCursor 4 :=
        ⟨.inr (.inr rfl), by change _ % 4 = 0; omega, h.mapped (by decide)⟩
      have hhigh : r.image.layout.mapped (r.dataCursor + 4) = true := h 4 (by decide)
      simp only [beq_self_eq_true, if_true, Image.setDouble_of_admits hadmits, hhigh]
    · have hadmits : r.image.Admits r.dataCursor width := by
        refine ⟨?_, haligned, h.mapped ?_⟩
        · rcases hsize with rfl | rfl | rfl | rfl <;> simp at hdouble ⊢
        · rcases hsize with rfl | rfl | rfl | rfl <;> decide
      have hset : r.image.set r.dataCursor v width
          = .ok (r.image.write r.dataCursor (littleEndian width v)) :=
        Image.set_eq_ok_iff.2 ⟨hadmits, rfl⟩
      have hne : (width == 8) = false := by simpa using hdouble
      rw [hne, Image.store_eq, hset]
      rfl
  rw [hwrite, emit, length_littleEndian]

theorem mod_dataCursor_emit {r : Reading} {width : Nat} {bytes : List UInt8} (hsize : IsSize width)
    (haligned : r.dataCursor.toNat % width = 0) (hbytes : width ∣ bytes.length) :
    (r.emit bytes).dataCursor.toNat % width = 0 := by
  rw [dataCursor_emit, BitVec.toNat_add, BitVec.toNat_ofNat, Nat.add_mod_mod]
  refine Nat.mod_eq_zero_of_dvd ((Nat.dvd_mod_iff hsize.dvd).2 ?_)
  exact Nat.dvd_add (Nat.dvd_of_mod_eq_zero haligned) hbytes

theorem storeCopies_of_room {r : Reading} {width n : Nat} (hsize : IsSize width)
    (haligned : r.dataCursor.toNat % width = 0) (h : r.Room (width * n)) (note : Text) (t : Token)
    (v : Int) :
    storeCopies (fun r a => r.writeValue note t a v width) width n r
      = r.emit (List.replicate n (littleEndian width v)).flatten := by
  induction n generalizing r with
  | zero => rw [storeCopies, List.replicate_zero, List.flatten_nil, emit_nil]
  | succ n ih =>
    rw [Nat.mul_succ, Nat.add_comm] at h
    have hroom : (r.emit (littleEndian width v)).Room (width * n) :=
      Room.emit (by rwa [length_littleEndian])
    have hnext : (r.emit (littleEndian width v)).dataCursor.toNat % width = 0 :=
      mod_dataCursor_emit hsize haligned (by rw [length_littleEndian])
    rw [storeCopies, writeValue_of_room hsize haligned (h.mono (Nat.le_add_right ..)), ih hnext hroom,
      emit_append]
    rfl

end Reading

end Rv32Assembler
