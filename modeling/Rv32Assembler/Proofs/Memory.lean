import Mathlib.Data.List.GetD
import Mathlib.Tactic.LinearCombination
import Mathlib.Tactic.Positivity
import Rv32Assembler.Memory.Image
/-!
# Reads after writes

What an image holds after a store: the stored bytes where they were stored, and what it held before
everywhere else. Ranges of addresses wrap around at the end of the address space, so whether a range
covers an address is said by their distance.
-/

namespace Rv32Assembler

/-- The address is one of the `n` from `a` on. -/
def Covers (a : Address) (n : Nat) (x : Address) : Prop := (x - a).toNat < n

instance (a : Address) (n : Nat) (x : Address) : Decidable (Covers a n x) :=
  inferInstanceAs (Decidable ((x - a).toNat < n))

/-- No address is in both ranges. -/
def Apart (a : Address) (n : Nat) (b : Address) (k : Nat) : Prop :=
  ∀ x, Covers a n x → ¬ Covers b k x

theorem covers_add {a : Address} {n i : Nat} (hi : i < n) : Covers a n (a + BitVec.ofNat 32 i) := by
  have hdistance : (a + BitVec.ofNat 32 i - a).toNat = i % 2 ^ 32 := by
    rw [BitVec.add_comm, BitVec.add_sub_cancel, BitVec.toNat_ofNat]
  have hmod := Nat.mod_le i (2 ^ 32)
  unfold Covers
  omega

theorem Covers.mono {a x : Address} {n k : Nat} (h : Covers a n x) (hk : n ≤ k) : Covers a k x :=
  Nat.lt_of_lt_of_le h hk

theorem Apart.symm {a b : Address} {n k : Nat} (h : Apart a n b k) : Apart b k a n :=
  fun x hb ha => h x ha hb

theorem Apart.mono {a b : Address} {n k n' : Nat} (h : Apart a n b k) (hn : n' ≤ n) :
    Apart a n' b k := fun x hx => h x (hx.mono hn)

theorem apart_iff {a b : Address} {n k : Nat} :
    Apart a n b k ↔ n = 0 ∨ k = 0 ∨ n ≤ (b - a).toNat ∧ k ≤ (a - b).toNat := by
  constructor
  · intro h
    have ha := h a
    have hb := h b
    simp only [Covers, BitVec.sub_self, BitVec.toNat_zero] at ha hb
    omega
  · intro h x hxa hxb
    simp only [Covers] at hxa hxb
    bv_omega

instance (a : Address) (n : Nat) (b : Address) (k : Nat) : Decidable (Apart a n b k) :=
  decidable_of_iff _ apart_iff.symm

theorem apart_of_aligned {a b : Address} (ha : a.toNat % 4 = 0) (hb : b.toNat % 4 = 0)
    (hne : a ≠ b) : Apart a 4 b 4 := by
  intro x hxa hxb
  have hnat : a.toNat ≠ b.toNat := fun h => hne (BitVec.eq_of_toNat_eq h)
  simp only [Covers, BitVec.toNat_sub] at hxa hxb
  omega

/-! ### Little-endian bytes -/

theorem byteOf_succ (v : Int) (i : Nat) : byteOf v (i + 1) = byteOf (v >>> (8 : Nat)) i := by
  have hshift : v >>> (8 * (i + 1)) = v >>> (8 : Nat) >>> (8 * i) := by
    rw [← Int.shiftRight_add]
    congr 1
    omega
  simp only [byteOf, hshift]

theorem littleEndian_succ (width : Nat) (v : Int) :
    littleEndian (width + 1) v = byteOf v 0 :: littleEndian width (v >>> (8 : Nat)) := by
  simp only [littleEndian, List.range_succ_eq_map, List.map_cons, List.map_map]
  congr 1
  apply List.map_congr_left
  intro i _
  exact byteOf_succ v i

theorem toNat_byteOf_zero (v : Int) : ((byteOf v 0).toNat : Int) = v % 256 := by
  have hshift : v >>> (8 * 0 : Nat) = v := by simp
  have hlow : 0 ≤ v % 256 := Int.emod_nonneg v (by decide)
  have hhigh : v % 256 < 256 := Int.emod_lt_of_pos v (by decide)
  rw [byteOf, hshift, UInt8.toNat_ofNat']
  omega

theorem littleEndian_add (width more : Nat) (v : Int) :
    littleEndian (width + more) v = littleEndian width v ++ littleEndian more (v >>> (8 * width)) := by
  simp only [littleEndian, List.range_add, List.map_append, List.map_map]
  congr 1
  apply List.map_congr_left
  intro i _
  have hshift : v >>> (8 * (width + i)) = v >>> (8 * width) >>> (8 * i) := by
    rw [← Int.shiftRight_add, Nat.mul_add]
  simp only [Function.comp_apply, byteOf, hshift]

private theorem emod_mul_eq (v : Int) {k : Int} (hk : 0 < k) :
    v % (256 * k) = v % 256 + 256 * (v / 256 % k) := by
  have hlow := Int.emod_nonneg v (show (256 : Int) ≠ 0 by decide)
  have hlow' := Int.emod_lt_of_pos v (show (0 : Int) < 256 by decide)
  have hhigh := Int.emod_nonneg (v / 256) (Int.ne_of_gt hk)
  have hhigh' := Int.emod_lt_of_pos (v / 256) hk
  have hsplit : v = v % 256 + 256 * (v / 256 % k) + 256 * k * (v / 256 / k) := by
    have houter := Int.emod_add_mul_ediv v 256
    have hinner := Int.emod_add_mul_ediv (v / 256) k
    linear_combination -houter - 256 * hinner
  conv_lhs => rw [hsplit]
  rw [Int.add_mul_emod_self_left, Int.emod_eq_of_lt (by omega) (by omega)]

theorem littleEndian_congr {width : Nat} {v u : Int} (h : v % 256 ^ width = u % 256 ^ width) :
    littleEndian width v = littleEndian width u := by
  induction width generalizing v u with
  | zero => rfl
  | succ width ih =>
    rw [pow_succ, Int.mul_comm (256 ^ width) 256, emod_mul_eq v (by positivity),
      emod_mul_eq u (by positivity)] at h
    have hfirst : v % 256 = u % 256 := by omega
    have hrest : v / 256 % 256 ^ width = u / 256 % 256 ^ width := by omega
    have hshift (w : Int) : w >>> (8 : Nat) = w / 256 := Int.shiftRight_eq_div_pow w 8
    have hzero : byteOf v 0 = byteOf u 0 := by simp [byteOf, hfirst]
    rw [littleEndian_succ, littleEndian_succ, hzero, hshift, hshift, ih hrest]

theorem ofLittleEndian_littleEndian (width : Nat) (v : Int) :
    (ofLittleEndian (littleEndian width v) : Int) = v % 256 ^ width := by
  induction width generalizing v with
  | zero => exact (Int.emod_one v).symm
  | succ width ih =>
    have hshift : v >>> (8 : Nat) = v / 256 := Int.shiftRight_eq_div_pow v 8
    rw [littleEndian_succ, ofLittleEndian]
    push_cast
    rw [ih, toNat_byteOf_zero, hshift, pow_succ, Int.mul_comm (256 ^ width) 256,
      emod_mul_eq v (by positivity)]

theorem littleEndian_eq_iff {width : Nat} {v u : Int} :
    littleEndian width v = littleEndian width u ↔ v % 256 ^ width = u % 256 ^ width := by
  refine ⟨fun h => ?_, littleEndian_congr⟩
  rw [← ofLittleEndian_littleEndian, h, ofLittleEndian_littleEndian]

namespace Image

variable {σ : Type}

/-! ### Bytes -/

/-- A write is seen where it was made and nowhere else. -/
theorem getElem?_write (m : Image σ) (a x : Address) (bytes : List UInt8)
    (hlen : bytes.length ≤ 2 ^ 32) :
    (m.write a bytes).bytes[x]? = bytes[(x - a).toNat]?.or m.bytes[x]? := by
  induction bytes generalizing m a with
  | nil => simp [write]
  | cons b rest ih =>
    simp only [List.length_cons] at hlen
    rw [write, ih _ _ (by omega), Std.ExtTreeMap.getElem?_insert]
    by_cases hx : x = a
    · -- The distance from the next address is the greatest there is, so the rest misses `a`.
      have hnear : (x - a).toNat = 0 := by simp [hx]
      have hfar : (x - (a + 1)).toNat = 2 ^ 32 - 1 := by subst hx; bv_omega
      rw [hnear, hfar, List.getElem?_eq_none (by omega), List.getElem?_cons_zero,
        if_pos (Std.LawfulEqCmp.compare_eq_iff_eq.2 hx.symm)]
      rfl
    · have hnext : (x - a).toNat = (x - (a + 1)).toNat + 1 := by
        have hne : (x - a).toNat ≠ 0 := by
          intro hzero
          exact hx (by bv_omega)
        bv_omega
      have hmiss : compare a x ≠ .eq := fun heq => hx (Std.LawfulEqCmp.compare_eq_iff_eq.1 heq).symm
      rw [hnext, List.getElem?_cons_succ, if_neg hmiss]

theorem mem_bytes_write (m : Image σ) (a x : Address) {bytes : List UInt8}
    (hlen : bytes.length ≤ 2 ^ 32) :
    x ∈ (m.write a bytes).bytes ↔ Covers a bytes.length x ∨ x ∈ m.bytes := by
  rw [Std.ExtTreeMap.mem_iff_isSome_getElem?, getElem?_write m a x bytes hlen, Option.isSome_or,
    Bool.or_eq_true, ← Std.ExtTreeMap.mem_iff_isSome_getElem?, ← Option.ne_none_iff_isSome, ne_eq,
    List.getElem?_eq_none_iff, not_le]
  rfl

theorem pairwise_written (m : Image σ) :
    m.written.Pairwise fun entry entry' => entry.1.toNat < entry'.1.toNat := by
  refine Std.ExtTreeMap.ordered_keys_toList.imp fun {entry entry'} h => ?_
  exact BitVec.lt_def.1 (compareOfLessAndEq_eq_lt.1 h)

theorem byte_of_getElem? {m m' : Image σ} {x : Address} {b : Option UInt8}
    (h : m'.bytes[x]? = b.or m.bytes[x]?) : m'.byte x = b.getD (m.byte x) := by
  rw [byte, h]
  cases b <;> rfl

theorem byte_write (m : Image σ) (a x : Address) (bytes : List UInt8) (hlen : bytes.length ≤ 2 ^ 32) :
    (m.write a bytes).byte x = bytes.getD (x - a).toNat (m.byte x) := by
  rw [List.getD_eq_getElem?_getD]
  exact byte_of_getElem? (getElem?_write m a x bytes hlen)

theorem byte_write_of_not_covers {m : Image σ} {a x : Address} {bytes : List UInt8}
    (hlen : bytes.length ≤ 2 ^ 32) (hx : ¬ Covers a bytes.length x) :
    (m.write a bytes).byte x = m.byte x := by
  rw [byte_write m a x bytes hlen, List.getD_eq_default]
  exact Nat.le_of_not_lt hx

theorem bytesFrom_write_self (m : Image σ) (a : Address) (bytes : List UInt8)
    (hlen : bytes.length ≤ 2 ^ 32) : (m.write a bytes).bytesFrom a bytes.length = bytes := by
  apply List.ext_getElem
  · simp [bytesFrom]
  · intro i hi hi'
    have hdistance : (a + BitVec.ofNat 32 i - a).toNat = i := by
      rw [BitVec.add_comm, BitVec.add_sub_cancel, BitVec.toNat_ofNat]
      exact Nat.mod_eq_of_lt (by omega)
    simp only [bytesFrom, List.getElem_map, List.getElem_range]
    rw [byte_write _ _ _ _ hlen, hdistance, List.getD_eq_getElem _ _ hi']

theorem bytesFrom_congr {m m' : Image σ} {a : Address} {n : Nat}
    (h : ∀ x, Covers a n x → m'.byte x = m.byte x) : m'.bytesFrom a n = m.bytesFrom a n := by
  simp only [bytesFrom]
  apply List.map_congr_left
  intro i hi
  exact h _ (covers_add (List.mem_range.1 hi))

@[simp]
theorem statements_write (m : Image σ) (a : Address) (bytes : List UInt8) :
    (m.write a bytes).statements = m.statements := by
  induction bytes generalizing m a with
  | nil => rfl
  | cons b rest ih => exact ih _ _

theorem write_append (m : Image σ) (a : Address) (bytes more : List UInt8) :
    m.write a (bytes ++ more) = (m.write a bytes).write (a + BitVec.ofNat 32 bytes.length) more := by
  induction bytes generalizing m a with
  | nil => simp [write]
  | cons b rest ih =>
    have hnext : a + 1 + BitVec.ofNat 32 rest.length = a + BitVec.ofNat 32 (rest.length + 1) := by
      bv_omega
    rw [List.cons_append, write, ih, hnext]
    rfl

/-! ### Stores -/

/-- The accesses that an image admits. -/
structure Admits (m : Image σ) (a : Address) (width : Int) : Prop where
  width_eq : width = 1 ∨ width = 2 ∨ width = 4
  aligned : a.toNat % width.toNat = 0
  mapped : m.layout.mapped a = true

theorem check_eq_ok_iff {m : Image σ} {a : Address} {width : Int} {n : Nat} :
    m.check a width = .ok n ↔ m.Admits a width ∧ n = width.toNat := by
  constructor
  · intro h
    unfold check at h
    split at h
    · rename_i hwidth
      split at h
      · cases h
      · rename_i haligned
        split at h
        · cases h
        · rename_i hmapped
          cases h
          exact ⟨⟨by simpa [or_assoc] using hwidth, by simpa using haligned, by simpa using hmapped⟩,
            rfl⟩
    · cases h
  · rintro ⟨⟨hwidth, haligned, hmapped⟩, rfl⟩
    have hadmitted : (width == 1 || width == 2 || width == 4) = true := by
      simpa [or_assoc] using hwidth
    simp [check, hadmitted, haligned, hmapped]

theorem check_of_not_mapped {m : Image σ} {a : Address} (haligned : a.toNat % 4 = 0)
    (h : m.layout.mapped a = false) : m.check a 4 = .error ⟨a, .unmapped⟩ := by
  have hmultiple : (a.toNat % (4 : Int).toNat != 0) = false := by simpa using haligned
  rw [check, if_pos (by decide), hmultiple, h]
  rfl

theorem Admits.toNat_le {m : Image σ} {a : Address} {width : Int} (h : m.Admits a width) :
    width.toNat ≤ 4 := by
  rcases h.width_eq with hw | hw | hw <;> rw [hw] <;> decide

theorem set_eq (m : Image σ) (a : Address) (v width : Int) :
    m.set a v width = (m.check a width).map fun n => m.write a (littleEndian n v) := by
  unfold set store
  cases m.check a width <;> rfl

theorem store_eq (m : Image σ) (a : Address) (v width : Int) :
    m.store a v width
      = match m.set a v width with
        | .ok m' => (m', none)
        | .error e => (m, some e) := by
  unfold set store
  cases m.check a width <;> rfl

/-- A store is admitted or refused as a whole, and an admitted one writes its bytes. -/
theorem set_eq_ok_iff {m m' : Image σ} {a : Address} {v width : Int} :
    m.set a v width = .ok m' ↔
      m.Admits a width ∧ m' = m.write a (littleEndian width.toNat v) := by
  rw [set_eq]
  cases hcheck : m.check a width with
  | error e =>
    have hrefused : ¬ m.Admits a width := by
      intro hadmits
      rw [check_eq_ok_iff.2 ⟨hadmits, rfl⟩] at hcheck
      cases hcheck
    simp [Except.map, hrefused]
  | ok n =>
    obtain ⟨hadmits, rfl⟩ := check_eq_ok_iff.1 hcheck
    simp [Except.map, hadmits, eq_comm]

theorem layout_of_set {m m' : Image σ} {a : Address} {v width : Int}
    (h : m.set a v width = .ok m') : m'.layout = m.layout := by
  obtain ⟨-, rfl⟩ := set_eq_ok_iff.1 h
  exact layout_write _ _ _

theorem byte_of_set {m m' : Image σ} {a x : Address} {v width : Int}
    (h : m.set a v width = .ok m') (hx : ¬ Covers a width.toNat x) : m'.byte x = m.byte x := by
  obtain ⟨hadmits, rfl⟩ := set_eq_ok_iff.1 h
  have hwidth := hadmits.toNat_le
  exact byte_write_of_not_covers (by simp; omega) (by simpa using hx)

theorem bytesFrom_of_set {m m' : Image σ} {a : Address} {v width : Int}
    (h : m.set a v width = .ok m') : m'.bytesFrom a width.toNat = littleEndian width.toNat v := by
  obtain ⟨hadmits, rfl⟩ := set_eq_ok_iff.1 h
  have hwidth := hadmits.toNat_le
  simpa using bytesFrom_write_self m a (littleEndian width.toNat v) (by simp; omega)

theorem bytesFrom_add (m : Image σ) (a : Address) (n k : Nat) :
    m.bytesFrom a (n + k) = m.bytesFrom a n ++ m.bytesFrom (a + BitVec.ofNat 32 n) k := by
  simp only [bytesFrom, List.range_add, List.map_append, List.map_map]
  congr 1
  apply List.map_congr_left
  intro i _
  rw [Function.comp_apply, BitVec.ofNat_add, BitVec.add_assoc]

theorem set_congr (m : Image σ) (a : Address) (width : Nat) {v u : Int}
    (h : v % 256 ^ width = u % 256 ^ width) : m.set a v width = m.set a u width := by
  rw [set_eq, set_eq]
  cases hcheck : m.check a width with
  | error e => rfl
  | ok n =>
    obtain ⟨-, rfl⟩ := check_eq_ok_iff.1 hcheck
    exact congrArg (fun bytes => Except.ok (m.write a bytes)) (littleEndian_congr h)

theorem set_lowWord (m : Image σ) (a : Address) (v : Int) :
    m.set a ((BitVec.ofInt 64 v).extractLsb' 0 32).toNat 4 = m.set a v 4 := by
  apply m.set_congr a 4
  simp only [BitVec.extractLsb'_toNat, BitVec.toNat_ofInt]
  omega

theorem set_highWord (m : Image σ) (a : Address) (v : Int) :
    m.set a ((BitVec.ofInt 64 v).extractLsb' 32 32).toNat 4 = m.set a (v >>> (32 : Nat)) 4 := by
  apply m.set_congr a 4
  simp only [BitVec.extractLsb'_toNat, BitVec.toNat_ofInt, Nat.shiftRight_eq_div_pow,
    Int.shiftRight_eq_div_pow]
  omega

theorem setDouble_eq (m : Image σ) (a : Address) (v : BitVec 64) :
    m.setDouble a v
      = match m.set a (v.extractLsb' 0 32).toNat 4 with
        | .error e => (m, some e)
        | .ok m' => m'.store (a + 4) (v.extractLsb' 32 32).toNat 4 := by
  rw [setDouble, store_eq]
  cases m.set a (v.extractLsb' 0 32).toNat 4 <;> rfl

/-- A doubleword whose first word is refused is refused as a whole. -/
theorem setDouble_of_not_admits {m : Image σ} {a : Address} (h : ¬ m.Admits a 4) (v : BitVec 64) :
    ∃ e, m.setDouble a v = (m, some e) := by
  rw [setDouble_eq]
  cases hset : m.set a (v.extractLsb' 0 32).toNat 4 with
  | error e => exact ⟨e, rfl⟩
  | ok first => exact absurd (set_eq_ok_iff.1 hset).1 h

/-- A doubleword whose first word is admitted is stored, or its first word is and the second is
refused. -/
theorem setDouble_of_admits {m : Image σ} {a : Address} (h : m.Admits a 4) (v : Int) :
    m.setDouble a (BitVec.ofInt 64 v)
      = if m.layout.mapped (a + 4) then (m.write a (littleEndian 8 v), none)
        else (m.write a (littleEndian 4 v), some ⟨a + 4, .unmapped⟩) := by
  have hfirst : m.set a v 4 = .ok (m.write a (littleEndian 4 v)) := set_eq_ok_iff.2 ⟨h, rfl⟩
  have haligned : (a + 4).toNat % 4 = 0 := by
    have := h.aligned
    change a.toNat % 4 = 0 at this
    bv_omega
  rw [setDouble_eq, set_lowWord, hfirst]
  simp only [store_eq, set_highWord]
  cases hmapped : m.layout.mapped (a + 4) with
  | true =>
    have hsecond : (m.write a (littleEndian 4 v)).set (a + 4) (v >>> (32 : Nat)) 4
        = .ok ((m.write a (littleEndian 4 v)).write (a + 4) (littleEndian 4 (v >>> (32 : Nat)))) :=
      set_eq_ok_iff.2 ⟨⟨.inr (.inr rfl), haligned, by rwa [layout_write]⟩, rfl⟩
    rw [hsecond, littleEndian_add 4 4, write_append, length_littleEndian]
    rfl
  | false =>
    have hsecond : (m.write a (littleEndian 4 v)).set (a + 4) (v >>> (32 : Nat)) 4
        = .error ⟨a + 4, .unmapped⟩ := by
      rw [set_eq, check_of_not_mapped haligned (by rwa [layout_write])]
      rfl
    rw [hsecond]
    rfl

/-- A doubleword that is stored without a refusal holds its eight bytes; no other byte changes. -/
theorem of_setDouble {m m' : Image σ} {a : Address} {v : Int}
    (h : m.setDouble a (BitVec.ofInt 64 v) = (m', none)) :
    m'.layout = m.layout ∧ m'.bytesFrom a 8 = littleEndian 8 v ∧
      ∀ x, ¬ Covers a 8 x → m'.byte x = m.byte x := by
  by_cases hadmits : m.Admits a 4
  · rw [setDouble_of_admits hadmits] at h
    split at h
    · obtain ⟨rfl, -⟩ := Prod.mk.inj h
      have hlength : (littleEndian 8 v).length ≤ 2 ^ 32 := by simp
      refine ⟨layout_write _ _ _, ?_, fun x hx => ?_⟩
      · simpa using bytesFrom_write_self m a (littleEndian 8 v) hlength
      · exact byte_write_of_not_covers hlength (by simpa using hx)
    · cases h
  · obtain ⟨e, hrefused⟩ := setDouble_of_not_admits hadmits (BitVec.ofInt 64 v)
    rw [hrefused] at h
    cases h

theorem word_eq_ok {m : Image σ} {a : Address} {code : Word} (hadmits : m.Admits a 4)
    (hbytes : m.bytesFrom a 4 = littleEndian 4 code.toNat) : m.word a = .ok code := by
  have hvalue : (ofLittleEndian (littleEndian 4 code.toNat) : Int) = (code.toNat : Int) % 256 ^ 4 :=
    ofLittleEndian_littleEndian 4 code.toNat
  have hbound : code.toNat < 2 ^ 32 := code.isLt
  have hnat : ofLittleEndian (littleEndian 4 code.toNat) = code.toNat := by omega
  have hcheck : m.check a 4 = .ok 4 := check_eq_ok_iff.2 ⟨hadmits, rfl⟩
  simp [word, get, hcheck, hbytes, hnat, Except.map]

theorem storeStatement_eq (m : Image σ) (a : Address) (code : Word) (s : σ) :
    m.storeStatement a code s
      = match m.setStatement a code s with
        | .ok m' => (m', none)
        | .error e => (m, some e) := by
  unfold setStatement storeStatement
  rw [store_eq]
  cases m.set a code.toNat 4 <;> cases m.layout.inText a <;> rfl

/-- What a placed statement brings about. -/
theorem setStatement_eq_ok_iff {m m' : Image σ} {a : Address} {code : Word} {s : σ} :
    m.setStatement a code s = .ok m' ↔
      m.layout.inText a = true ∧ ∃ written, m.set a code.toNat 4 = .ok written ∧
        m' = { written with statements := written.statements.insert a s } := by
  rw [setStatement, storeStatement, store_eq]
  split
  · rename_i htext
    cases hset : m.set a code.toNat 4 with
    | error e => simp [settled, htext]
    | ok written => simp [settled, htext, eq_comm]
  · rename_i htext
    simp [settled, htext]

theorem statement_insert (m : Image σ) (a x : Address) (s : σ) :
    ({ m with statements := m.statements.insert a s } : Image σ).statement x =
      if x = a then some s else m.statement x := by
  simp only [statement, Std.ExtTreeMap.getElem?_insert, Std.LawfulEqCmp.compare_eq_iff_eq]
  by_cases hx : x = a
  · simp [hx]
  · simp [hx, Ne.symm hx]

/-! ### Frames -/

/-- The layout is kept, and so is every byte that none of the ranges covers. -/
structure ChangesWithin (ranges : List (Address × Nat)) (m m' : Image σ) : Prop where
  layout : m'.layout = m.layout
  byte : ∀ x, (∀ r ∈ ranges, ¬ Covers r.1 r.2 x) → m'.byte x = m.byte x

theorem ChangesWithin.refl (ranges : List (Address × Nat)) (m : Image σ) :
    ChangesWithin ranges m m := ⟨rfl, fun _ _ => rfl⟩

theorem ChangesWithin.trans {ranges more : List (Address × Nat)} {m₁ m₂ m₃ : Image σ}
    (h : ChangesWithin ranges m₁ m₂) (h' : ChangesWithin more m₂ m₃) :
    ChangesWithin (ranges ++ more) m₁ m₃ := by
  refine ⟨h'.layout.trans h.layout, ?_⟩
  intro x hx
  rw [List.forall_mem_append] at hx
  exact (h'.byte x hx.2).trans (h.byte x hx.1)

theorem ChangesWithin.mono {ranges more : List (Address × Nat)} {m m' : Image σ}
    (h : ChangesWithin ranges m m')
    (hmore : ∀ r ∈ ranges, ∀ x, Covers r.1 r.2 x → ∃ r' ∈ more, Covers r'.1 r'.2 x) :
    ChangesWithin more m m' := by
  refine ⟨h.layout, ?_⟩
  intro x hx
  apply h.byte
  intro r hr hcovers
  obtain ⟨r', hr', hcovers'⟩ := hmore r hr x hcovers
  exact hx r' hr' hcovers'

theorem ChangesWithin.bytesFrom_eq {ranges : List (Address × Nat)} {m m' : Image σ}
    (h : ChangesWithin ranges m m') {a : Address} {n : Nat}
    (hapart : ∀ r ∈ ranges, Apart a n r.1 r.2) : m'.bytesFrom a n = m.bytesFrom a n := by
  apply bytesFrom_congr
  intro x hx
  exact h.byte x fun r hr => hapart r hr x hx

theorem changesWithin_singleton {m m' : Image σ} {a : Address} {width : Nat}
    (hlayout : m'.layout = m.layout) (hbyte : ∀ x, ¬ Covers a width x → m'.byte x = m.byte x) :
    ChangesWithin [(a, width)] m m' := by
  refine ⟨hlayout, ?_⟩
  intro x hx
  exact hbyte x (hx (a, width) (List.mem_singleton_self _))

theorem changesWithin_of_set {m m' : Image σ} {a : Address} {v width : Int}
    (h : m.set a v width = .ok m') : ChangesWithin [(a, width.toNat)] m m' :=
  changesWithin_singleton (layout_of_set h) fun _ hx => byte_of_set h hx

end Image

end Rv32Assembler
