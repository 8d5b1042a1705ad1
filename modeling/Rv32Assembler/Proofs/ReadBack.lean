import Rv32Assembler.Proofs.Memory
/-!
# Reading back

A store is admitted where a read of the same width is, and is seen by every read: the bytes that the
two have in common are those of the stored number, whatever was there, and the others are the old ones
(`get_of_set`). A store that is refused changes nothing.
-/

namespace Rv32Assembler.Image

variable {σ : Type}

/-- A change that is asked of an image. -/
inductive Request (σ : Type) where
  | set (a : Address) (v width : Int)
  | setDouble (a : Address) (v : BitVec 64)
  | setStatement (a : Address) (code : Word) (s : σ)
  | reset

def handle (m : Image σ) : Request σ → Image σ
  | .set a v width => (m.store a v width).1
  | .setDouble a v => (m.setDouble a v).1
  | .setStatement a code s => (m.storeStatement a code s).1
  | .reset => .empty m.layout

/-- The `k` bytes from `b` on after the low bytes of `v` were stored in the `n` bytes from `a` on. -/
def mixedBytes (m : Image σ) (a : Address) (n : Nat) (v : Int) (b : Address) (k : Nat) : List UInt8 :=
  (List.range k).map fun i =>
    let x := b + BitVec.ofNat 32 i
    if Covers a n x then byteOf v (x - a).toNat else m.byte x

theorem admits_iff {m : Image σ} {a : Address} {width : Int} :
    m.Admits a width ↔
      (width = 1 ∨ width = 2 ∨ width = 4) ∧ a.toNat % width.toNat = 0 ∧ m.layout.mapped a = true :=
  ⟨fun h => ⟨h.width_eq, h.aligned, h.mapped⟩, fun ⟨hwidth, haligned, hmapped⟩ =>
    ⟨hwidth, haligned, hmapped⟩⟩

theorem store_accepted_iff {m : Image σ} {a : Address} {v width : Int} :
    (m.store a v width).2 = none ↔ m.Admits a width := by
  have haccepted : (m.store a v width).2 = none ↔ ∃ m', m.set a v width = .ok m' :=
    ⟨fun h => ⟨_, settled_eq_ok_iff.2 (Prod.ext rfl h)⟩,
      fun ⟨_, h⟩ => congrArg Prod.snd (settled_eq_ok_iff.1 h)⟩
  simp only [haccepted, set_eq_ok_iff, exists_and_left, exists_eq, and_true]

theorem get_of_admits {m : Image σ} {a : Address} {width : Int} (h : m.Admits a width) :
    m.get a width = .ok (ofLittleEndian (m.bytesFrom a width.toNat)) := by
  rw [get, check_eq_ok_iff.2 ⟨h, rfl⟩]
  rfl

/-- Whether an access is admitted depends on the layout alone. -/
theorem check_congr {m m' : Image σ} (h : m'.layout = m.layout) (a : Address) (width : Int) :
    m'.check a width = m.check a width := by
  simp only [check, h]

theorem byte_of_set_eq {m m' : Image σ} {a : Address} {v width : Int}
    (h : m.set a v width = .ok m') (x : Address) :
    m'.byte x = if Covers a width.toNat x then byteOf v (x - a).toNat else m.byte x := by
  by_cases hx : Covers a width.toNat x
  · obtain ⟨hadmits, rfl⟩ := set_eq_ok_iff.1 h
    have hwidth := hadmits.toNat_le
    have hlength : (x - a).toNat < (littleEndian width.toNat v).length := by
      rw [length_littleEndian]
      exact hx
    rw [if_pos hx, byte_write _ _ _ _ (by rw [length_littleEndian]; omega),
      List.getD_eq_getElem _ _ hlength]
    simp [littleEndian]
  · rw [if_neg hx, byte_of_set h hx]

theorem bytesFrom_of_set_eq {m m' : Image σ} {a : Address} {v width : Int}
    (h : m.set a v width = .ok m') (b : Address) (k : Nat) :
    m'.bytesFrom b k = m.mixedBytes a width.toNat v b k := by
  simp only [bytesFrom, mixedBytes, byte_of_set_eq h]

/-- A store of one, two or four bytes is admitted exactly at the multiples of its width that are
mapped. The number is then read back modulo the range of the width; a read that has no byte in common
with it gives what it gave before, and any other the mix of new and old bytes. A refused store leaves
the image as it is. -/
theorem get_of_set (m : Image σ) (a : Address) (v width : Int) :
    ((m.store a v width).2 = none ↔
      (width = 1 ∨ width = 2 ∨ width = 4) ∧ a.toNat % width.toNat = 0 ∧ m.layout.mapped a = true) ∧
    (∀ m', m.store a v width = (m', none) →
      m'.get a width = .ok (v % 2 ^ (8 * width.toNat)).toNat ∧
      (∀ b k, Apart a width.toNat b k.toNat → m'.get b k = m.get b k) ∧
      ∀ b k, (k = 1 ∨ k = 2 ∨ k = 4) → b.toNat % k.toNat = 0 → m.layout.mapped b = true →
        m'.get b k = .ok (ofLittleEndian (m.mixedBytes a width.toNat v b k.toNat))) ∧
    ∀ m' e, m.store a v width = (m', some e) → m' = m := by
  refine ⟨store_accepted_iff.trans admits_iff, ?_, ?_⟩
  · intro m' hstore
    have h : m.set a v width = .ok m' := settled_eq_ok_iff.2 hstore
    have hlayout := layout_of_set h
    refine ⟨?_, ?_, ?_⟩
    · have hadmits : m'.Admits a width := by
        obtain ⟨⟨hwidth, haligned, hmapped⟩, -⟩ := set_eq_ok_iff.1 h
        exact ⟨hwidth, haligned, hlayout ▸ hmapped⟩
      have hvalue := ofLittleEndian_littleEndian width.toNat v
      have hrange : (256 : Int) ^ width.toNat = 2 ^ (8 * width.toNat) := by rw [pow_mul]; rfl
      rw [get_of_admits hadmits, bytesFrom_of_set h, ← hrange, ← hvalue, Int.toNat_natCast]
    · intro b k hapart
      rw [get, get, check_congr hlayout]
      cases hcheck : m.check b k with
      | error e => rfl
      | ok n =>
        obtain ⟨-, rfl⟩ := check_eq_ok_iff.1 hcheck
        have hsame := (changesWithin_of_set h).bytesFrom_eq (a := b) (n := k.toNat)
          (by simpa using hapart.symm)
        simp only [Except.map, hsame]
    · intro b k hwidth haligned hmapped
      have hadmits : m'.Admits b k := ⟨hwidth, haligned, hlayout ▸ hmapped⟩
      rw [get_of_admits hadmits, bytesFrom_of_set_eq h]
  · intro m' e h
    rw [store_eq] at h
    cases hset : m.set a v width with
    | ok written =>
      rw [hset] at h
      cases h
    | error e' =>
      rw [hset] at h
      exact (Prod.mk.inj h).1.symm

/-- A negative word at the very end of the address space, the upper half of which is then overwritten by
a number that does not fit, and a store that would reach beyond the end. -/
theorem get_of_set_top :
    let m : Image Unit := ((empty {}).store 0xfffffffc (-2) 4).1
    ∃ m', m.store 0xfffffffe 0x101ff 2 = (m', none) ∧
      m'.get 0xfffffffe 2 = .ok 0x1ff ∧ m'.get 0xfffffffc 2 = m.get 0xfffffffc 2 ∧
      m'.get 0xfffffffc 4 = .ok 0x01fffffe ∧ m'.get 0xffffffff 1 = .ok 0x01 ∧
      (m.store 0xfffffffe 0x101ff 4).1 = m := by
  intro m
  have hlayout : m.layout = {} := by decide +kernel
  obtain ⟨hadmitted, hread, -⟩ := get_of_set m 0xfffffffe 0x101ff 2
  have haccepted := hadmitted.2 ⟨by decide, by decide, by rw [hlayout]; decide⟩
  obtain ⟨hsame, hapart, hmixed⟩ := hread _ (Prod.ext rfl haccepted)
  refine ⟨_, Prod.ext rfl haccepted, hsame, hapart 0xfffffffc 2 (by decide), ?_, ?_,
    (get_of_set m 0xfffffffe 0x101ff 4).2.2 _ ⟨0xfffffffe, .alignment 4⟩ rfl⟩
  · rw [hmixed 0xfffffffc 4 (by decide) (by decide) (by rw [hlayout]; decide)]
    decide +kernel
  · rw [hmixed 0xffffffff 1 (by decide) (by decide) (by rw [hlayout]; decide)]
    decide +kernel

end Rv32Assembler.Image
