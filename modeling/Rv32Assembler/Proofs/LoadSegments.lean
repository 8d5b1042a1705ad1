import Mathlib.Data.List.Forall2
import Rv32Assembler.Container.LoadSegment
import Rv32Assembler.Proofs.LabelPlacement
/-!
# What the load segments hold

The load segments of an image are meant to hold all of it: each written byte once, zeros between
them, and nothing before the first or after the last written byte of a range (`Image.LoadedAs`). They
do, but for one byte. The end of a segment is the address after its last byte, and after the last
address of all comes address zero, so a byte that is written there is in no segment. That is the
only loss (`loadedAs_ofImage_iff`).
-/

namespace Rv32Assembler

def lastAddress : Address := 0xffffffff

@[simp]
theorem toNat_lastAddress : lastAddress.toNat = 4294967295 := rfl

theorem toNat_add_one {a : Address} (h : a ≠ lastAddress) : (a + 1).toNat = a.toNat + 1 := by
  have hne : a.toNat ≠ 4294967295 := fun heq => h (BitVec.eq_of_toNat_eq heq)
  have hlt := a.isLt
  rw [BitVec.toNat_add, show (1 : Address).toNat = 1 from rfl]
  omega

theorem lastAddress_add_one : lastAddress + 1 = 0 := rfl

/-- The byte that a segment holds for an address. -/
def LoadSegment.byteAt? (s : LoadSegment) (a : Address) : Option UInt8 :=
  if s.address.ule a then s.data[a.toNat - s.address.toNat]? else none

theorem LoadSegment.byteAt?_of_data {s : LoadSegment} (h : s.data = []) (a : Address) :
    s.byteAt? a = none := by
  simp [byteAt?, h]

theorem pairwise_ranges {l : Layout} (h : l.IsDisjoint) :
    l.ranges.Pairwise fun r r' => ∀ a, r.contains a = true → r'.contains a = false := by
  have happart (s s' : Segment) (hne : s ≠ s') (a : Address) := h s s' a hne
  have htd := happart ⟨false, false⟩ ⟨true, false⟩ (by decide)
  have htk := happart ⟨false, false⟩ ⟨false, true⟩ (by decide)
  have hte := happart ⟨false, false⟩ ⟨true, true⟩ (by decide)
  have hdk := happart ⟨true, false⟩ ⟨false, true⟩ (by decide)
  have hde := happart ⟨true, false⟩ ⟨true, true⟩ (by decide)
  have hke := happart ⟨false, true⟩ ⟨true, true⟩ (by decide)
  simp only [Layout.ranges, List.pairwise_cons, List.mem_cons, List.not_mem_nil, or_false,
    List.Pairwise.nil, and_true, forall_eq_or_imp, forall_eq, false_imp_iff, implies_true]
  exact ⟨⟨htd, htk, hte⟩, ⟨hdk, hde⟩, hke⟩

namespace Image

variable {σ : Type} {m : Image σ}

/-- The segments hold the image: every written byte is in exactly one of them, their other bytes are
zero, each lies in a range of its own, in the order of the ranges, and starts and ends with a
written byte. -/
structure LoadedAs (m : Image σ) (segments : List LoadSegment) : Prop where
  whole : ∀ a b, m.bytes[a]? = some b → segments.filterMap (·.byteAt? a) = [b]
  filled : ∀ s ∈ segments, ∀ a b, s.byteAt? a = some b → m.bytes[a]? = none → b = 0
  ordered : segments.SublistForall₂ (fun s r => s.name = r.name ∧ s.executable = r.executable ∧
    ∀ a b, s.byteAt? a = some b → r.contains a = true) m.layout.ranges
  ends : ∀ s ∈ segments, s.data ≠ [] ∧ s.address ∈ m.bytes ∧
    s.address + BitVec.ofNat 32 (s.data.length - 1) ∈ m.bytes

def writtenIn (m : Image σ) (r : SegmentRange) : List Address :=
  (m.written.map Prod.fst).filter r.contains

theorem mem_writtenIn {r : SegmentRange} {a : Address} :
    a ∈ m.writtenIn r ↔ a ∈ m.bytes ∧ r.contains a = true := by
  rw [writtenIn, List.mem_filter, written, Std.ExtTreeMap.map_fst_toList_eq_keys,
    Std.ExtTreeMap.mem_keys]

theorem pairwise_writtenIn (r : SegmentRange) :
    (m.writtenIn r).Pairwise fun a b => a.toNat < b.toNat := by
  have hordered : (m.written.map Prod.fst).Pairwise fun a b => a.toNat < b.toNat :=
    List.pairwise_map.2 m.pairwise_written
  exact hordered.filter _

theorem of_foldl_stop (rest : List Address) (stop : Address) :
    let top := rest.foldl (fun stop b => if stop.ult (b + 1) then b + 1 else stop) stop
    stop.toNat ≤ top.toNat ∧ (∀ b ∈ rest, (b + 1).toNat ≤ top.toNat) ∧
      (top = stop ∨ ∃ b ∈ rest, top = b + 1) := by
  induction rest generalizing stop with
  | nil => simp
  | cons b rest ih =>
    simp only [List.foldl_cons, List.mem_cons, forall_eq_or_imp, exists_eq_or_imp]
    by_cases hlt : stop.ult (b + 1) = true
    · rw [if_pos hlt]
      rw [BitVec.ult_iff_toNat_lt] at hlt
      obtain ⟨hle, hall, hsome⟩ := ih (b + 1)
      exact ⟨by omega, ⟨hle, hall⟩, .inr hsome⟩
    · rw [if_neg hlt]
      rw [BitVec.ult_iff_toNat_lt] at hlt
      obtain ⟨hle, hall, hsome⟩ := ih stop
      exact ⟨hle, ⟨by omega, hall⟩, hsome.imp_right .inr⟩

/-- The extent of a range goes from its lowest written address to the one after its highest. The
last address of all has no address after it. -/
theorem of_extent {r : SegmentRange} {first stop : Address}
    (h : m.extent r.first r.last = some (first, stop)) :
    first ∈ m.writtenIn r ∧ (∀ a ∈ m.writtenIn r, first.toNat ≤ a.toNat) ∧
      (∀ a ∈ m.writtenIn r, a ≠ lastAddress → a.toNat < stop.toNat) ∧
      ∃ a ∈ m.writtenIn r, stop = a + 1 := by
  have hpairwise := m.pairwise_writtenIn r
  rw [extent] at h
  change (match m.writtenIn r with | [] => none | a :: rest => _) = _ at h
  cases hin : m.writtenIn r with
  | nil => simp [hin] at h
  | cons a rest =>
    simp only [hin, Option.some.injEq, Prod.mk.injEq] at h
    obtain ⟨rfl, rfl⟩ := h
    rw [hin, List.pairwise_cons] at hpairwise
    obtain ⟨hle, hall, hsome⟩ := of_foldl_stop rest (a + 1)
    refine ⟨List.mem_cons_self, ?_, ?_, ?_⟩
    · simp only [List.mem_cons, forall_eq_or_imp, le_refl, true_and]
      exact fun b hb => (hpairwise.1 b hb).le
    · simp only [List.mem_cons, forall_eq_or_imp]
      refine ⟨fun hne => ?_, fun b hb hne => ?_⟩
      · rw [toNat_add_one hne] at hle
        exact hle
      · have hb := hall b hb
        rw [toNat_add_one hne] at hb
        exact hb
    · simpa [List.mem_cons, exists_eq_or_imp] using hsome

theorem extent_eq_none {r : SegmentRange} (h : m.extent r.first r.last = none) :
    m.writtenIn r = [] := by
  rw [extent] at h
  change (match m.writtenIn r with | [] => none | a :: rest => _) = _ at h
  cases hin : m.writtenIn r with
  | nil => rfl
  | cons a rest => simp [hin] at h

theorem transCmp_address : Std.TransCmp (compare : Address → Address → Ordering) := inferInstance

def withoutLast (m : Image σ) : Image σ :=
  haveI := transCmp_address
  { m with bytes := m.bytes.erase lastAddress }

theorem getElem?_withoutLast (a : Address) :
    m.withoutLast.bytes[a]? = if a = lastAddress then none else m.bytes[a]? := by
  simp only [withoutLast, Std.ExtTreeMap.getElem?_erase, Std.compare_eq_iff_eq,
    @eq_comm _ lastAddress a]

theorem mem_withoutLast {a : Address} :
    a ∈ m.withoutLast.bytes ↔ a ≠ lastAddress ∧ a ∈ m.bytes := by
  simp only [withoutLast, Std.ExtTreeMap.mem_erase, ne_eq, Std.compare_eq_iff_eq,
    @eq_comm _ lastAddress a]

theorem withoutLast_eq (h : lastAddress ∉ m.bytes) : m.withoutLast = m := by
  have hbytes : m.withoutLast.bytes = m.bytes := by
    apply Std.ExtTreeMap.ext_getElem?
    intro a
    rw [getElem?_withoutLast]
    split
    next heq => rw [heq, Std.ExtTreeMap.getElem?_eq_none h]
    next => rfl
  obtain ⟨layout, bytes, statements⟩ := m
  exact congrArg (Image.mk layout · statements) hbytes

end Image

namespace LoadSegment

variable {σ : Type} {m : Image σ} {r : SegmentRange} {s : LoadSegment}

/-- The segment holds what is written in a range, less the last byte of the address space. -/
structure Conveys (s : LoadSegment) (m : Image σ) (r : SegmentRange) : Prop where
  name : s.name = r.name
  executable : s.executable = r.executable
  inside : ∀ a b, s.byteAt? a = some b → r.contains a = true ∧ a ≠ lastAddress ∧ m.byte a = b
  whole : ∀ a ∈ m.writtenIn r, a ≠ lastAddress → s.byteAt? a = some (m.byte a)
  first : s.address ∈ m.writtenIn r
  last : s.data ≠ [] → s.address + BitVec.ofNat 32 (s.data.length - 1) ∈ m.writtenIn r ∧
    s.address + BitVec.ofNat 32 (s.data.length - 1) ≠ lastAddress

theorem byteAt?_slice {name : Text} {executable : Bool} {first stop a : Address} {b : UInt8} :
    (⟨name, first, m.slice first stop, executable⟩ : LoadSegment).byteAt? a = some b ↔
      first.toNat ≤ a.toNat ∧ a.toNat < stop.toNat ∧ m.byte a = b := by
  have hlt := a.isLt
  have hoffset (hle : first.toNat ≤ a.toNat) :
      first + BitVec.ofNat 32 (a.toNat - first.toNat) = a := by
    apply BitVec.eq_of_toNat_eq
    rw [BitVec.toNat_add, BitVec.toNat_ofNat]
    omega
  simp only [byteAt?, BitVec.ule_eq_decide, decide_eq_true_eq, Image.slice, Image.bytesFrom,
    List.getElem?_map]
  split
  next hle =>
    by_cases hstop : a.toNat < stop.toNat
    · rw [List.getElem?_range (by omega)]
      simp [hle, hstop, hoffset hle]
    · rw [List.getElem?_eq_none (by simp; omega)]
      simp [hstop]
  next hle => simp [hle]

theorem conveys_of_ofRange? (h : ofRange? m r = some s) : s.Conveys m r := by
  simp only [ofRange?, Option.map_eq_some_iff, Prod.exists] at h
  obtain ⟨first, stop, hextent, rfl⟩ := h
  obtain ⟨hfirst, hlow, hhigh, top, htop, rfl⟩ := m.of_extent hextent
  have htopRange := (SegmentRange.contains_iff ..).1 (Image.mem_writtenIn.1 htop).2
  have hfirstRange := (SegmentRange.contains_iff ..).1 (Image.mem_writtenIn.1 hfirst).2
  -- A segment that ends after the last address has no byte.
  have hstop {a : Address} (ha : a.toNat < (top + 1).toNat) :
      a.toNat ≤ top.toNat ∧ top ≠ lastAddress := by
    by_cases hlast : top = lastAddress
    · rw [hlast, lastAddress_add_one] at ha
      exact absurd ha (Nat.not_lt_zero _)
    · rw [toNat_add_one hlast] at ha
      exact ⟨by omega, hlast⟩
  refine ⟨rfl, rfl, ?_, ?_, hfirst, ?_⟩
  · intro a b hbyte
    obtain ⟨hle, hlt, hb⟩ := byteAt?_slice.1 hbyte
    obtain ⟨htopLe, htopNe⟩ := hstop hlt
    refine ⟨(SegmentRange.contains_iff ..).2 ⟨by omega, by omega⟩, ?_, hb⟩
    rintro rfl
    exact htopNe (BitVec.eq_of_toNat_eq (by have := top.isLt; rw [toNat_lastAddress] at *; omega))
  · intro a ha hne
    exact byteAt?_slice.2 ⟨hlow a ha, hhigh a ha hne, rfl⟩
  · intro hdata
    have hlength : (m.slice first (top + 1)).length = (top + 1).toNat - first.toNat := by
      simp [Image.slice, Image.bytesFrom]
    have hpos : first.toNat < (top + 1).toNat := by
      have hlength' := List.length_pos_iff.2 hdata
      rw [hlength] at hlength'
      omega
    obtain ⟨-, htopNe⟩ := hstop hpos
    have heq : first + BitVec.ofNat 32 ((top + 1).toNat - first.toNat - 1) = top := by
      apply BitVec.eq_of_toNat_eq
      rw [toNat_add_one htopNe] at hpos ⊢
      rw [BitVec.toNat_add, BitVec.toNat_ofNat]
      omega
    rw [hlength, heq]
    exact ⟨htop, htopNe⟩

theorem writtenIn_of_ofRange? (h : ofRange? m r = none) : m.writtenIn r = [] :=
  Image.extent_eq_none (Option.map_eq_none_iff.1 h)

theorem Conveys.address_ne_iff (h : s.Conveys m r) : s.address ≠ lastAddress ↔ s.data ≠ [] := by
  constructor
  · intro hne hdata
    have hbyte := h.whole _ h.first hne
    rw [byteAt?_of_data hdata] at hbyte
    cases hbyte
  · intro hdata
    have hbyte : s.byteAt? s.address = some (s.data.head hdata) := by
      simp [byteAt?, BitVec.ule_eq_decide, List.head?_eq_some_head hdata, ← List.head?_eq_getElem?]
    exact (h.inside _ _ hbyte).2.1

theorem mem_ofImage (h : s ∈ ofImage m) : ∃ r ∈ m.layout.ranges, s.Conveys m r := by
  obtain ⟨r, hr, hs⟩ := List.mem_filterMap.1 h
  exact ⟨r, hr, conveys_of_ofRange? hs⟩

theorem byteAt?_lastAddress (h : s ∈ ofImage m) : s.byteAt? lastAddress = none := by
  obtain ⟨r, -, hs⟩ := mem_ofImage h
  apply Option.eq_none_iff_forall_ne_some.2
  intro b hb
  exact (hs.inside _ _ hb).2.1 rfl

theorem filterMap_eq_singleton {β : Type} {ranges : List SegmentRange} {a : Address} {b : β}
    {f : SegmentRange → Option β}
    (hapart : ranges.Pairwise fun r r' => ∀ a, r.contains a = true → r'.contains a = false)
    (houtside : ∀ r, r.contains a = false → f r = none) (hr : r ∈ ranges)
    (hin : r.contains a = true) (hf : f r = some b) : ranges.filterMap f = [b] := by
  induction ranges with
  | nil => cases hr
  | cons first rest ih =>
    rw [List.pairwise_cons] at hapart
    rw [List.mem_cons] at hr
    obtain rfl | hr := hr
    · have hrest : rest.filterMap f = [] := by
        apply List.filterMap_eq_nil_iff.2
        exact fun r' hr' => houtside r' (hapart.1 r' hr' a hin)
      rw [List.filterMap_cons_some hf, hrest]
    · have hfirst : first.contains a = false := by
        rw [← Bool.not_eq_true]
        intro hcontains
        rw [hapart.1 r hr a hcontains] at hin
        cases hin
      rw [List.filterMap_cons_none (houtside first hfirst)]
      exact ih hapart.2 hr

theorem filterMap_byteAt? {a : Address} {b : UInt8} (hdisjoint : m.layout.IsDisjoint)
    (hmapped : m.layout.mapped a = true) (ha : m.bytes[a]? = some b) (hne : a ≠ lastAddress) :
    (ofImage m).filterMap (·.byteAt? a) = [b] := by
  obtain ⟨r, hr, hin⟩ := mapped_iff.1 hmapped
  have hmem : a ∈ m.writtenIn r :=
    Image.mem_writtenIn.2 ⟨Std.ExtTreeMap.mem_iff_isSome_getElem?.2 (by rw [ha]; rfl), hin⟩
  have hbyte : m.byte a = b := by rw [Image.byte, ha]; rfl
  rw [ofImage, List.filterMap_filterMap]
  apply filterMap_eq_singleton (pairwise_ranges hdisjoint) (a := a) _ hr hin
  · cases hs : ofRange? m r with
    | none =>
      rw [writtenIn_of_ofRange? hs] at hmem
      cases hmem
    | some s =>
      rw [Option.bind_some, (conveys_of_ofRange? hs).whole a hmem hne, hbyte]
  · intro r' hout
    cases hs : ofRange? m r' with
    | none => rfl
    | some s =>
      apply Option.eq_none_iff_forall_ne_some.2
      intro b' hb'
      rw [((conveys_of_ofRange? hs).inside a b' hb').1] at hout
      cases hout

theorem ordered_ofRange? (m : Image σ) (ranges : List SegmentRange) :
    ((ranges.filterMap (ofRange? m)).filter fun s => !s.data.isEmpty).SublistForall₂
      (fun s r => s.name = r.name ∧ s.executable = r.executable ∧
        ∀ a b, s.byteAt? a = some b → r.contains a = true) ranges := by
  induction ranges with
  | nil => exact .nil
  | cons r rest ih =>
    cases hs : ofRange? m r with
    | none =>
      rw [List.filterMap_cons_none hs]
      exact ih.cons_right
    | some s =>
      have hconveys := conveys_of_ofRange? hs
      rw [List.filterMap_cons_some hs, List.filter_cons]
      split
      · exact .cons ⟨hconveys.name, hconveys.executable, fun a b h => (hconveys.inside a b h).1⟩ ih
      · exact ih.cons_right

theorem loadedAs_withoutLast (hdisjoint : m.layout.IsDisjoint)
    (hmapped : ∀ a ∈ m.bytes, m.layout.mapped a = true) :
    m.withoutLast.LoadedAs ((ofImage m).filter fun s => !s.data.isEmpty) where
  whole a b ha := by
    rw [Image.getElem?_withoutLast] at ha
    split at ha
    next => cases ha
    next hne =>
      have hmem : a ∈ m.bytes := Std.ExtTreeMap.mem_iff_isSome_getElem?.2 (by rw [ha]; rfl)
      rw [← filterMap_byteAt? hdisjoint (hmapped a hmem) ha hne, List.filterMap_filter]
      apply List.filterMap_congr
      intro s _
      cases hdata : s.data with
      | nil => simp [byteAt?_of_data hdata]
      | cons => rfl
  filled s hs a b hbyte hnone := by
    obtain ⟨r, -, hconveys⟩ := mem_ofImage (List.mem_of_mem_filter hs)
    obtain ⟨-, hne, rfl⟩ := hconveys.inside a b hbyte
    rw [Image.getElem?_withoutLast, if_neg hne] at hnone
    rw [Image.byte, hnone]
    rfl
  ordered := ordered_ofRange? m m.layout.ranges
  ends s hs := by
    obtain ⟨hs, hdata⟩ := List.mem_filter.1 hs
    have hdata : s.data ≠ [] := by simpa using hdata
    obtain ⟨r, -, hconveys⟩ := mem_ofImage hs
    obtain ⟨hlast, hlastNe⟩ := hconveys.last hdata
    refine ⟨hdata, Image.mem_withoutLast.2 ⟨hconveys.address_ne_iff.2 hdata, ?_⟩,
      Image.mem_withoutLast.2 ⟨hlastNe, ?_⟩⟩
    · exact (Image.mem_writtenIn.1 hconveys.first).1
    · exact (Image.mem_writtenIn.1 hlast).1

/-- Every segment of an image without the last address has a byte. -/
theorem filter_ofImage (h : lastAddress ∉ m.bytes) :
    ((ofImage m).filter fun s => !s.data.isEmpty) = ofImage m := by
  apply List.filter_eq_self.2
  intro s hs
  obtain ⟨r, -, hconveys⟩ := mem_ofImage hs
  have hne : s.address ≠ lastAddress := by
    intro heq
    apply h
    rw [← heq]
    exact (Image.mem_writtenIn.1 hconveys.first).1
  simpa using hconveys.address_ne_iff.1 hne

end LoadSegment

/-- The load segments hold the whole image exactly when nothing is written at the last address. In
any case those with a byte hold everything else. -/
theorem loadedAs_ofImage_iff {σ : Type} (m : Image σ) (hdisjoint : m.layout.IsDisjoint)
    (hmapped : ∀ a ∈ m.bytes, m.layout.mapped a = true) :
    (m.LoadedAs (LoadSegment.ofImage m) ↔ lastAddress ∉ m.bytes) ∧
      m.withoutLast.LoadedAs ((LoadSegment.ofImage m).filter fun s => !s.data.isEmpty) := by
  have hless := LoadSegment.loadedAs_withoutLast hdisjoint hmapped
  refine ⟨⟨fun hloads hlast => ?_, fun hlast => ?_⟩, hless⟩
  · obtain ⟨b, hb⟩ := Option.isSome_iff_exists.1 (Std.ExtTreeMap.mem_iff_isSome_getElem?.1 hlast)
    have hwhole := hloads.whole _ _ hb
    have hnone : (LoadSegment.ofImage m).filterMap (·.byteAt? lastAddress) = [] :=
      List.filterMap_eq_nil_iff.2 fun s hs => LoadSegment.byteAt?_lastAddress hs
    rw [hnone] at hwhole
    cases hwhole
  · rwa [Image.withoutLast_eq hlast, LoadSegment.filter_ofImage hlast] at hless

/-- Two bytes of data with a gap between them, and a word at the end of the address space. -/
def cornerImage : Image Unit :=
  (((Image.empty {}).write 0x10010001 [0x7f]).write 0x10010004 [5]).write 0xfffffffc [1, 2, 3, 4]

theorem loadedAs_cornerImage :
    ¬cornerImage.LoadedAs (LoadSegment.ofImage cornerImage) ∧
      cornerImage.withoutLast.LoadedAs
        [⟨".data", 0x10010001, [0x7f, 0, 0, 5], false⟩, ⟨".kdata", 0xfffffffc, [1, 2, 3], false⟩] := by
  have hmapped : ∀ a ∈ cornerImage.bytes, cornerImage.layout.mapped a = true := by
    intro a ha
    have hall : cornerImage.bytes.keys.all cornerImage.layout.mapped = true := by decide +kernel
    exact List.all_eq_true.1 hall a (Std.ExtTreeMap.mem_keys.2 ha)
  obtain ⟨hiff, hless⟩ := loadedAs_ofImage_iff cornerImage Layout.isDisjoint_default hmapped
  have hlast : lastAddress ∈ cornerImage.bytes := by decide +kernel
  have hsegments : ((LoadSegment.ofImage cornerImage).filter fun s => !s.data.isEmpty) =
      [⟨".data", 0x10010001, [0x7f, 0, 0, 5], false⟩, ⟨".kdata", 0xfffffffc, [1, 2, 3], false⟩] := by
    decide +kernel
  rw [hsegments] at hless
  exact ⟨fun hloads => hiff.1 hloads hlast, hless⟩

end Rv32Assembler
