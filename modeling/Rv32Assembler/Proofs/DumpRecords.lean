import Rv32Assembler.Proofs.ReadBack
/-!
# Records of a dump

A dump has a record of five bytes for each written byte of an image, in the order of their addresses, and
the written bytes can be read off it again (`Image.records?_dump`). So it tells images apart just if
different addresses are written in them or different bytes, a written zero from a byte that is not written
among them, and not by the way in which they came about (`Image.dump_eq_iff`).

Requests overwrite each other, and a request that is refused may still store some of its bytes. What is
written after them at an address is what was stored there last (`Image.LastStores`).
-/

namespace Rv32Assembler

theorem getElem?_littleEndian (width : Nat) (v : Int) (i : Nat) :
    (littleEndian width v)[i]? = if i < width then some (byteOf v i) else none := by
  rw [littleEndian, List.getElem?_map]
  split
  · rename_i h
    rw [List.getElem?_range h]
    rfl
  · rename_i h
    rw [List.getElem?_eq_none (by simpa using h)]
    rfl

namespace Image

variable {σ τ : Type} {l : Layout} {x : Address} {b : UInt8}

/-! ### Records -/

/-- The record of a byte: the bytes of its address from the lowest to the highest, and the byte. -/
def record (entry : Address × UInt8) : List UInt8 := littleEndian 4 entry.1.toNat ++ [entry.2]

/-- The addresses and bytes of records one after the other, `none` if the last of them is cut off. -/
def records? : List UInt8 → Option (List (Address × UInt8))
  | [] => some []
  | b₀ :: b₁ :: b₂ :: b₃ :: b :: rest =>
    (records? rest).map ((BitVec.ofNat 32 (ofLittleEndian [b₀, b₁, b₂, b₃]), b) :: ·)
  | _ => none

theorem length_record (entry : Address × UInt8) : (record entry).length = 5 := by
  simp [record]

theorem dump_eq_flatMap (m : Image σ) : m.dump = m.written.flatMap record := rfl

theorem ofNat_ofLittleEndian (a : Address) :
    BitVec.ofNat 32 (ofLittleEndian (littleEndian 4 a.toNat)) = a := by
  have hvalue : (ofLittleEndian (littleEndian 4 a.toNat) : Int) = (a.toNat : Int) % 256 ^ 4 :=
    ofLittleEndian_littleEndian 4 a.toNat
  have hbound : a.toNat < 2 ^ 32 := a.isLt
  have hnat : ofLittleEndian (littleEndian 4 a.toNat) = a.toNat := by omega
  rw [hnat, BitVec.ofNat_toNat, BitVec.setWidth_eq]

theorem records?_record_append (entry : Address × UInt8) (rest : List UInt8) :
    records? (record entry ++ rest) = (records? rest).map (entry :: ·) := by
  have hfirst : records? (record entry ++ rest) = (records? rest).map
      ((BitVec.ofNat 32 (ofLittleEndian (littleEndian 4 entry.1.toNat)), entry.2) :: ·) := rfl
  rw [hfirst, ofNat_ofLittleEndian]

theorem records?_flatMap (entries : List (Address × UInt8)) :
    records? (entries.flatMap record) = some entries := by
  induction entries with
  | nil => rfl
  | cons entry entries ih =>
    rw [List.flatMap_cons, records?_record_append, ih]
    rfl

theorem records?_dump (m : Image σ) : records? m.dump = some m.written :=
  records?_flatMap m.written

theorem mem_written_iff {m : Image σ} : (x, b) ∈ m.written ↔ m.bytes[x]? = some b :=
  Std.ExtTreeMap.mem_toList_iff_getElem?_eq_some

/-- The dump decides what is written, and is decided by it. -/
theorem dump_eq_dump_iff {m : Image σ} {m' : Image τ} :
    m.dump = m'.dump ↔ ∀ x : Address, m.bytes[x]? = m'.bytes[x]? := by
  constructor
  · intro h x
    have hwritten : m.written = m'.written := by
      rw [← Option.some_inj, ← records?_dump, h, records?_dump]
    apply Option.ext
    intro b
    rw [← mem_written_iff, hwritten, mem_written_iff]
  · intro h
    have hbytes : m.bytes = m'.bytes := Std.ExtTreeMap.ext_getElem? h
    rw [dump, dump, written, written, hbytes]

/-! ### What requests store -/

instance (m : Image σ) (a : Address) (width : Int) : Decidable (m.Admits a width) :=
  decidable_of_iff _ admits_iff.symm

/-- The byte that a request stores at an address, if it does. Of a doubleword that ends behind a segment
the first word is stored. -/
def Request.byteAt? (l : Layout) (x : Address) : Request σ → Option UInt8
  | .set a v width =>
    if (empty l : Image σ).Admits a width ∧ Covers a width.toNat x then some (byteOf v (x - a).toNat)
    else none
  | .setDouble a v =>
    if (empty l : Image σ).Admits a 4 ∧ Covers a (if l.mapped (a + 4) then 8 else 4) x then
      some (byteOf v.toInt (x - a).toNat)
    else none
  | .setStatement a code _ =>
    if l.inText a = true ∧ (empty l : Image σ).Admits a 4 ∧ Covers a 4 x then
      some (byteOf code.toNat (x - a).toNat)
    else none
  | .reset => none

/-- Of the requests that store at the address or clear the image, the last one stores the byte there. -/
def LastStores (l : Layout) (requests : List (Request σ)) (x : Address) (b : UInt8) : Prop :=
  ∃ before r after, requests = before ++ r :: after ∧ r.byteAt? l x = some b ∧
    ∀ r' ∈ after, r'.byteAt? l x = none ∧ r' ≠ .reset

theorem admits_empty_layout {m : Image σ} {a : Address} {width : Int} :
    (empty m.layout : Image σ).Admits a width ↔ m.Admits a width := by
  rw [admits_iff, admits_iff]
  rfl

theorem getElem?_write_littleEndian (m : Image σ) (a : Address) {n : Nat} (hn : n ≤ 8) (v : Int)
    (x : Address) :
    (m.write a (littleEndian n v)).bytes[x]?
      = (if Covers a n x then some (byteOf v (x - a).toNat) else none).or m.bytes[x]? := by
  rw [getElem?_write m a x _ (by rw [length_littleEndian]; omega), getElem?_littleEndian]
  rfl

theorem layout_handle (m : Image σ) (r : Request σ) : (m.handle r).layout = m.layout := by
  cases r with
  | set a v width =>
    rw [handle, store_eq]
    cases hset : m.set a v width with
    | error e => rfl
    | ok m' => exact layout_of_set hset
  | setDouble a v =>
    rw [handle]
    by_cases hadmits : m.Admits a 4
    · rw [← v.ofInt_toInt, setDouble_of_admits hadmits]
      split <;> exact layout_write _ _ _
    · obtain ⟨e, hrefused⟩ := setDouble_of_not_admits hadmits v
      rw [hrefused]
  | setStatement a code s =>
    rw [handle, storeStatement_eq]
    cases hset : m.setStatement a code s with
    | error e => rfl
    | ok m' =>
      obtain ⟨-, written, hword, rfl⟩ := setStatement_eq_ok_iff.1 hset
      have hlayout : written.layout = m.layout := layout_of_set hword
      exact hlayout
  | reset => rfl

theorem getElem?_store (m : Image σ) (a : Address) (v width : Int) (x : Address) :
    (m.store a v width).1.bytes[x]?
      = (if m.Admits a width ∧ Covers a width.toNat x then some (byteOf v (x - a).toNat)
          else none).or m.bytes[x]? := by
  by_cases hadmits : m.Admits a width
  · have hwidth := hadmits.toNat_le
    have hset : m.set a v width = .ok (m.write a (littleEndian width.toNat v)) :=
      set_eq_ok_iff.2 ⟨hadmits, rfl⟩
    simp only [store_eq, hset, hadmits, true_and]
    exact getElem?_write_littleEndian m a (by omega) v x
  · rw [store_eq]
    cases hset : m.set a v width with
    | error e => simp [hadmits]
    | ok m' => exact absurd (set_eq_ok_iff.1 hset).1 hadmits

theorem getElem?_handle (m : Image σ) {r : Request σ} (hr : r ≠ .reset) (x : Address) :
    (m.handle r).bytes[x]? = (r.byteAt? m.layout x).or m.bytes[x]? := by
  cases r with
  | set a v width =>
    simp only [Request.byteAt?, admits_empty_layout]
    exact getElem?_store m a v width x
  | setDouble a v =>
    simp only [Request.byteAt?, admits_empty_layout, handle]
    by_cases hadmits : m.Admits a 4
    · have hdouble := setDouble_of_admits hadmits v.toInt
      rw [v.ofInt_toInt] at hdouble
      rw [hdouble]
      simp only [hadmits, true_and]
      split
      · exact getElem?_write_littleEndian m a (by decide) v.toInt x
      · exact getElem?_write_littleEndian m a (by decide) v.toInt x
    · obtain ⟨e, hrefused⟩ := setDouble_of_not_admits hadmits v
      simp [hrefused, hadmits]
  | setStatement a code s =>
    simp only [Request.byteAt?, admits_empty_layout, handle, storeStatement]
    by_cases htext : m.layout.inText a = true
    · have hword := getElem?_store m a code.toNat 4 x
      simp only [htext, if_true, true_and]
      cases hstore : m.store a code.toNat 4 with
      | mk m' refused =>
        rw [hstore] at hword
        cases refused <;> exact hword
    · simp [htext]
  | reset => exact absurd rfl hr

theorem lastStores_concat {requests : List (Request σ)} {r : Request σ} :
    LastStores l (requests ++ [r]) x b ↔
      r.byteAt? l x = some b ∨ r.byteAt? l x = none ∧ r ≠ .reset ∧ LastStores l requests x b := by
  constructor
  · rintro ⟨before, r', after, hsplit, hstores, hafter⟩
    rcases List.eq_nil_or_concat after with rfl | ⟨after, last, rfl⟩
    · obtain ⟨-, hlast⟩ := List.append_inj' hsplit rfl
      obtain rfl := List.singleton_inj.1 hlast
      exact .inl hstores
    · rw [List.concat_eq_append, ← List.cons_append, ← List.append_assoc] at hsplit
      obtain ⟨hinit, hlast⟩ := List.append_inj' hsplit rfl
      obtain rfl := List.singleton_inj.1 hlast
      rw [List.concat_eq_append, List.forall_mem_append, List.forall_mem_singleton] at hafter
      exact .inr ⟨hafter.2.1, hafter.2.2, before, r', after, hinit, hstores, hafter.1⟩
  · rintro (hstores | ⟨hmisses, hkeeps, before, r', after, rfl, hstores, hafter⟩)
    · exact ⟨requests, r, [], rfl, hstores, by simp⟩
    · refine ⟨before, r', after ++ [r], by simp, hstores, ?_⟩
      rw [List.forall_mem_append, List.forall_mem_singleton]
      exact ⟨hafter, hmisses, hkeeps⟩

theorem layout_foldl_handle (m : Image σ) (requests : List (Request σ)) :
    (requests.foldl handle m).layout = m.layout := by
  induction requests generalizing m with
  | nil => rfl
  | cons r requests ih => rw [List.foldl_cons, ih, layout_handle]

/-- After any requests each byte is the one that was stored last at its address. -/
theorem getElem?_foldl_handle {requests : List (Request σ)} :
    (requests.foldl handle (empty l)).bytes[x]? = some b ↔ LastStores l requests x b := by
  induction requests using List.reverseRecOn with
  | nil =>
    have hnone : ¬ LastStores l ([] : List (Request σ)) x b := by
      rintro ⟨before, r, after, hsplit, -⟩
      simp at hsplit
    simp [empty, hnone]
  | append_singleton requests r ih =>
    have hlayout : (requests.foldl handle (empty l)).layout = l := layout_foldl_handle _ _
    rw [List.foldl_append, List.foldl_cons, List.foldl_nil, lastStores_concat, ← ih]
    by_cases hr : r = .reset
    · subst hr
      simp [handle, empty, Request.byteAt?]
    · rw [getElem?_handle _ hr, hlayout, Option.or_eq_some_iff]
      simp only [hr, ne_eq, not_false_eq_true, true_and]

/-- Images have the same dump just if the same addresses are written in them with the same bytes. A dump
consists of records of five bytes, one for each written byte in the order of their addresses, from which
the written bytes are read back. It does not matter what an image went through: after requests of all
kinds, dumps are the same just if the same bytes were stored last at the same addresses. -/
theorem dump_eq_iff (m : Image σ) (m' : Image τ) :
    (m.dump = m'.dump ↔ ∀ x : Address, m.bytes[x]? = m'.bytes[x]?) ∧
    (∃ entries, m.dump = entries.flatMap record ∧ m.dump.length = 5 * entries.length ∧
      records? m.dump = some entries ∧
      entries.Pairwise (fun e e' => e.1.toNat < e'.1.toNat) ∧
      ∀ x b, (x, b) ∈ entries ↔ m.bytes[x]? = some b) ∧
    ∀ (l l' : Layout) (requests : List (Request σ)) (requests' : List (Request τ)),
      (requests.foldl handle (empty l)).dump = (requests'.foldl handle (empty l')).dump ↔
        ∀ x b, LastStores l requests x b ↔ LastStores l' requests' x b := by
  refine ⟨dump_eq_dump_iff, ⟨m.written, rfl, ?_, m.records?_dump, m.pairwise_written,
    fun x b => mem_written_iff⟩, fun l l' requests requests' => ?_⟩
  · rw [dump_eq_flatMap, List.length_flatMap, Nat.mul_comm]
    simp only [length_record, List.map_const', List.sum_replicate_nat]
  · rw [dump_eq_dump_iff]
    refine forall_congr' fun x => ?_
    rw [Option.ext_iff]
    simp only [getElem?_foldl_handle]

/-- A zero that is stored has a record, and stores that overlap may come to the same. -/
example :
    let store (requests : List (Request Unit)) : List UInt8 := (requests.foldl handle (empty {})).dump
    store [.set 0x10010002 7 1, .set 0x10010000 0x0100 2]
      = [0x00, 0x00, 0x01, 0x10, 0, 0x01, 0x00, 0x01, 0x10, 1, 0x02, 0x00, 0x01, 0x10, 7] ∧
    store [.set 0x10010000 0x070100 4, .reset, .set 0x10010001 0x0701 2, .set 0x10010000 0 1,
        .set 0x10010002 9 1, .set 0x10010001 1 1, .set 0x10010002 7 1]
      = store [.set 0x10010002 7 1, .set 0x10010000 0x0100 2] := by
  decide +kernel

end Image

end Rv32Assembler
