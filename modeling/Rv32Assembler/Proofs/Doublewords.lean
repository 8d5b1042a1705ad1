import Rv32Assembler.Proofs.Cursors
import Rv32Assembler.Proofs.Memory
/-!
# Doublewords

A doubleword is stored as two words, and the first is written before the second is checked. Where a
segment ends between the two (`Layout.Splits`), the store is refused and the first word stays. That is
the only way in which a store is neither made nor left undone, whoever asks for it
(`storesWhole_iff_not_splits`). In the usual layout one address is concerned: the word after the last
of the address space is at zero, where nothing is mapped (`splits_default_iff`).
-/

namespace Rv32Assembler

/-- Of a doubleword at the address the first word lies in a segment and the second does not. -/
def Layout.Splits (l : Layout) (a : Address) : Prop :=
  a.toNat % 4 = 0 ∧ l.mapped a = true ∧ l.mapped (a + 4) = false

instance (l : Layout) (a : Address) : Decidable (l.Splits a) :=
  inferInstanceAs (Decidable (_ ∧ _ ∧ _))

theorem mapped_default_iff (a : Address) :
    ({} : Layout).mapped a = true ↔ 0x00400000 ≤ a.toNat := by
  have hlt := a.isLt
  simp only [Layout.mapped, Layout.inText, Layout.inData, Bool.or_eq_true,
    SegmentRange.contains_iff]
  simp only [Layout.textRange, Layout.kernelTextRange, Layout.dataRange, Layout.kernelDataRange,
    BitVec.ofNat_eq_ofNat, BitVec.toNat_ofNat]
  omega

theorem splits_default_iff (a : Address) : ({} : Layout).Splits a ↔ a = 0xfffffffc := by
  rw [Layout.Splits, ← Bool.not_eq_true, mapped_default_iff, mapped_default_iff]
  constructor
  · rintro ⟨haligned, hfirst, hsecond⟩
    bv_omega
  · rintro rfl
    decide

namespace Image

variable {σ : Type}

/-- The bytes are stored from the address on, and nothing else is changed. -/
structure Stores (m : Image σ) (a : Address) (bytes : List UInt8) (m' : Image σ) : Prop where
  layout : m'.layout = m.layout
  statements : m'.statements = m.statements
  bytes : ∀ x, m'.bytes[x]? = bytes[(x - a).toNat]?.or m.bytes[x]?

theorem stores_write (m : Image σ) (a : Address) (bytes : List UInt8)
    (hlen : bytes.length ≤ 2 ^ 32) : m.Stores a bytes (m.write a bytes) :=
  ⟨layout_write _ _ _, statements_write _ _ _, fun x => getElem?_write m a x bytes hlen⟩

theorem Stores.byte {m m' : Image σ} {a : Address} {bytes : List UInt8} (h : m.Stores a bytes m')
    (x : Address) : m'.byte x = bytes.getD (x - a).toNat (m.byte x) := by
  rw [List.getD_eq_getElem?_getD]
  exact byte_of_getElem? (h.bytes x)

/-- Either the eight bytes of a doubleword are stored, or it is refused and nothing is changed. -/
def StoresWhole (m : Image σ) (a : Address) (v : BitVec 64)
    (outcome : Image σ × Option AddressError) : Prop :=
  outcome.2 = none ∧ m.Stores a (littleEndian 8 v.toInt) outcome.1 ∨
    outcome.2 ≠ none ∧ outcome.1 = m

theorem admits_word_iff {m : Image σ} {a : Address} :
    m.Admits a 4 ↔ a.toNat % 4 = 0 ∧ m.layout.mapped a = true :=
  ⟨fun h => ⟨h.aligned, h.mapped⟩, fun ⟨haligned, hmapped⟩ =>
    ⟨.inr (.inr rfl), haligned, hmapped⟩⟩

/-- A doubleword that is cut loses its second word. -/
theorem setDouble_of_splits {m : Image σ} {a : Address} (h : m.layout.Splits a) (v : BitVec 64) :
    m.setDouble a v = (m.write a (littleEndian 4 v.toInt), some ⟨a + 4, .unmapped⟩) := by
  have hset := setDouble_of_admits (admits_word_iff.2 ⟨h.1, h.2.1⟩) v.toInt
  rwa [BitVec.ofInt_toInt, h.2.2, if_neg Bool.false_ne_true] at hset

theorem storesWhole_setDouble {m : Image σ} {a : Address} (h : ¬ m.layout.Splits a)
    (v : BitVec 64) : m.StoresWhole a v (m.setDouble a v) := by
  by_cases hadmits : m.Admits a 4
  · have hsecond : m.layout.mapped (a + 4) = true := by
      by_contra hnot
      obtain ⟨haligned, hmapped⟩ := admits_word_iff.1 hadmits
      exact h ⟨haligned, hmapped, by simpa using hnot⟩
    have hset := setDouble_of_admits hadmits v.toInt
    rw [BitVec.ofInt_toInt, if_pos hsecond] at hset
    rw [hset]
    exact .inl ⟨rfl, m.stores_write a _ (by simp)⟩
  · obtain ⟨e, hrefused⟩ := setDouble_of_not_admits hadmits v
    rw [hrefused]
    exact .inr ⟨nofun, rfl⟩

theorem exists_doubleword (b c : UInt8) :
    ∃ v : BitVec 64, byteOf v.toInt 0 ≠ b ∧ byteOf v.toInt 4 ≠ c := by
  by_cases hb : b = 0 <;> by_cases hc : c = 0
  · exact ⟨0x0000000100000001, by rw [hb]; decide, by rw [hc]; decide⟩
  · exact ⟨0x0000000000000001, by rw [hb]; decide, fun h => hc (h.symm.trans (by decide))⟩
  · exact ⟨0x0000000100000000, fun h => hb (h.symm.trans (by decide)), by rw [hc]; decide⟩
  · exact ⟨0x0000000000000000, fun h => hb (h.symm.trans (by decide)),
      fun h => hc (h.symm.trans (by decide))⟩

theorem exists_not_storesWhole {m : Image σ} {a : Address} (h : m.layout.Splits a) :
    ∃ v, ¬ m.StoresWhole a v (m.setDouble a v) := by
  obtain ⟨v, hfirst, -⟩ := exists_doubleword (m.byte a) 0
  refine ⟨v, ?_⟩
  rw [setDouble_of_splits h v]
  rintro (⟨hnone, -⟩ | ⟨-, hsame⟩)
  · cases hnone
  · have hbyte := (m.stores_write a (littleEndian 4 v.toInt) (by simp)).byte a
    have hkept : m.write a (littleEndian 4 v.toInt) = m := hsame
    rw [hkept, BitVec.sub_self] at hbyte
    exact hfirst hbyte.symm

end Image

namespace Reading

/-- Either the eight bytes of a doubleword are stored, or the refusal is reported and nothing else is
changed. -/
def WritesWhole (r : Reading) (note : Text) (t : Token) (a : Address) (v : BitVec 64)
    (r' : Reading) : Prop :=
  (∃ image, r.image.Stores a (littleEndian 8 v.toInt) image ∧ r' = { r with image := image }) ∨
    ∃ e, r' = r.report note t (.address e)

theorem writeValue_doubleword (r : Reading) (note : Text) (t : Token) (a : Address) (v : Int) :
    r.writeValue note t a v 8
      = match r.image.setDouble a (BitVec.ofInt 64 v) with
        | (image, some e) => ({ r with image := image } : Reading).report note t (.address e)
        | (image, none) => { r with image := image } := by
  rw [writeValue, if_pos (beq_self_eq_true 8)]
  cases r.image.setDouble a (BitVec.ofInt 64 v) with
  | mk image refused => cases refused <;> rfl

theorem writesWhole_writeValue {r : Reading} {a : Address} (h : ¬ r.image.layout.Splits a)
    (note : Text) (t : Token) (v : BitVec 64) :
    r.WritesWhole note t a v (r.writeValue note t a v.toInt 8) := by
  rw [writeValue_doubleword, BitVec.ofInt_toInt]
  have hwhole := Image.storesWhole_setDouble h v
  cases hset : r.image.setDouble a v with
  | mk image refused =>
    rw [hset] at hwhole
    cases refused with
    | none =>
      rcases hwhole with ⟨-, hstores⟩ | ⟨hsome, -⟩
      · exact .inl ⟨image, hstores, rfl⟩
      · exact absurd rfl hsome
    | some e =>
      rcases hwhole with ⟨hnone, -⟩ | ⟨-, hsame⟩
      · cases hnone
      · obtain rfl : image = r.image := hsame
        exact .inr ⟨e, rfl⟩

theorem writeValue_of_splits {r : Reading} {a : Address} (h : r.image.layout.Splits a)
    (note : Text) (t : Token) (v : BitVec 64) :
    r.writeValue note t a v.toInt 8
      = ({ r with image := r.image.write a (littleEndian 4 v.toInt) } : Reading).report note t
          (.address ⟨a + 4, .unmapped⟩) := by
  rw [writeValue_doubleword, BitVec.ofInt_toInt, Image.setDouble_of_splits h]

theorem exists_not_writesWhole {r : Reading} {a : Address} (h : r.image.layout.Splits a)
    (note : Text) (t : Token) :
    ∃ v : BitVec 64, ¬ r.WritesWhole note t a v (r.writeValue note t a v.toInt 8) := by
  obtain ⟨v, hfirst, hsecond⟩ := Image.exists_doubleword (r.image.byte a) (r.image.byte (a + 4))
  refine ⟨v, ?_⟩
  have hleft : r.image.Stores a (littleEndian 4 v.toInt) (r.writeValue note t a v.toInt 8).image := by
    rw [writeValue_of_splits h]
    exact r.image.stores_write a _ (by simp)
  rintro (⟨image, hall, heq⟩ | ⟨e, heq⟩)
  · -- All eight bytes would include the first of the second word.
    have hnext : (a + 4 - a).toNat = 4 := by bv_omega
    have hold := hleft.byte (a + 4)
    have hnew := hall.byte (a + 4)
    rw [heq, hnext] at hold
    rw [hnext] at hnew
    exact hsecond (hnew.symm.trans hold)
  · have hbyte := hleft.byte a
    rw [heq, BitVec.sub_self] at hbyte
    exact hfirst hbyte.symm

end Reading

/-- Doublewords are stored as a whole or not at all, by themselves and by the directives, exactly where
no segment ends between their words. Elsewhere the first word is stored and the second refused. -/
theorem storesWhole_iff_not_splits {σ : Type} (m : Image σ) (r : Reading) (note : Text) (t : Token)
    (a : Address) :
    ((∀ v, m.StoresWhole a v (m.setDouble a v)) ↔ ¬ m.layout.Splits a) ∧
      ((∀ v : BitVec 64, r.WritesWhole note t a v (r.writeValue note t a v.toInt 8)) ↔
        ¬ r.image.layout.Splits a) ∧
      (m.layout.Splits a → ∀ v, ∃ m', m.setDouble a v = (m', some ⟨a + 4, .unmapped⟩) ∧
        m.Stores a (littleEndian 4 v.toInt) m') ∧
      (({} : Layout).Splits a ↔ a = 0xfffffffc) := by
  refine ⟨⟨fun hwhole hsplits => ?_, fun h v => Image.storesWhole_setDouble h v⟩,
    ⟨fun hwhole hsplits => ?_, fun h v => Reading.writesWhole_writeValue h note t v⟩,
    fun hsplits v => ?_, splits_default_iff a⟩
  · obtain ⟨v, hcut⟩ := Image.exists_not_storesWhole hsplits
    exact hcut (hwhole v)
  · obtain ⟨v, hcut⟩ := Reading.exists_not_writesWhole hsplits note t
    exact hcut (hwhole v)
  · exact ⟨_, Image.setDouble_of_splits hsplits v, m.stores_write a _ (by simp)⟩

/-- At the last word of the address space a number is cut although nothing is stored there yet. -/
theorem splits_lastWord :
    ¬ (∀ v, (Image.empty {} : Image Unit).StoresWhole 0xfffffffc v
        ((Image.empty {} : Image Unit).setDouble 0xfffffffc v)) ∧
      ∃ m', (Image.empty {} : Image Unit).setDouble 0xfffffffc 0x0807060504030201
          = (m', some ⟨0, .unmapped⟩) ∧
        m'.written = [(0xfffffffc, 1), (0xfffffffd, 2), (0xfffffffe, 3), (0xffffffff, 4)] := by
  have hsplits : (Image.empty {} : Image Unit).layout.Splits 0xfffffffc := by decide
  obtain ⟨hwhole, -, hcut, -⟩ := storesWhole_iff_not_splits (Image.empty {} : Image Unit)
    (.start (.ofConfig {}) []) [] ⟨.integer5, "1", "a.s", 3, 8, 7, 1, 0⟩
    0xfffffffc
  obtain ⟨m', hset, -⟩ := hcut hsplits 0x0807060504030201
  refine ⟨fun h => hwhole.1 h hsplits, m', hset, ?_⟩
  have hwritten := congrArg (fun outcome => outcome.1.written) hset
  rw [← hwritten]
  decide +kernel

end Rv32Assembler
