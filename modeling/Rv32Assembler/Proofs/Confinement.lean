import Rv32Assembler.Proofs.Cursors
import Rv32Assembler.Proofs.ReadBack
/-!
# Confinement

Only the first address of a store is compared with the segments. That is enough where every segment
ends with a word (`Layout.EndsWords`): a store of one, two or four bytes begins at a multiple of its
width, so it ends before the segment does. Hence no request takes an image out of its segments, and a
statement always lies on four written bytes of a text segment (`confined_of_requests`).
-/

namespace Rv32Assembler

/-- The last byte of each segment is the last of a word. -/
def Layout.EndsWords (l : Layout) : Prop := ∀ r ∈ l.ranges, r.last.toNat % 4 = 3

instance (l : Layout) : Decidable l.EndsWords :=
  inferInstanceAs (Decidable (∀ r ∈ l.ranges, r.last.toNat % 4 = 3))

/-- A range that ends with a word has every access as a whole. -/
theorem SegmentRange.contains_of_covers {r : SegmentRange} {a x : Address} {n : Nat}
    (hlast : r.last.toNat % 4 = 3) (hn : n = 1 ∨ n = 2 ∨ n = 4) (haligned : a.toNat % n = 0)
    (ha : r.contains a = true) (hx : Covers a n x) : r.contains x = true := by
  rw [contains_iff] at ha ⊢
  have hend : a.toNat + n ≤ r.last.toNat + 1 := by
    rcases hn with rfl | rfl | rfl <;> omega
  have hlt := r.last.isLt
  rw [Covers, BitVec.toNat_sub] at hx
  omega

theorem Layout.mapped_of_covers {l : Layout} {a x : Address} {n : Nat} (hends : l.EndsWords)
    (hn : n = 1 ∨ n = 2 ∨ n = 4) (haligned : a.toNat % n = 0) (ha : l.mapped a = true)
    (hx : Covers a n x) : l.mapped x = true := by
  obtain ⟨r, hr, hra⟩ := mapped_iff.1 ha
  exact mapped_iff.2 ⟨r, hr, SegmentRange.contains_of_covers (hends r hr) hn haligned hra hx⟩

namespace Image

variable {σ : Type} {m m' : Image σ}

/-- The written bytes lie in the segments of the layout, and each statement lies on a word of a text
segment that is written as a whole. -/
structure Confined (l : Layout) (m : Image σ) : Prop where
  layout : m.layout = l
  mapped : ∀ x ∈ m.bytes, l.mapped x = true
  aligned : ∀ a ∈ m.statements, a.toNat % 4 = 0
  inText : ∀ a ∈ m.statements, l.inText a = true
  whole : ∀ a ∈ m.statements, ∀ x, Covers a 4 x → x ∈ m.bytes

theorem confined_empty (l : Layout) : (empty l : Image σ).Confined l := by
  constructor <;> simp [empty]

/-! ### Steps -/

namespace Confined

variable {l : Layout}

theorem set (h : m.Confined l) (hends : l.EndsWords) {a : Address} {v width : Int}
    (hset : m.set a v width = .ok m') : m'.Confined l := by
  obtain ⟨⟨hwidth, haligned, hmapped⟩, rfl⟩ := set_eq_ok_iff.1 hset
  have hsize : width.toNat = 1 ∨ width.toNat = 2 ∨ width.toNat = 4 := by
    rcases hwidth with rfl | rfl | rfl <;> simp
  have hlength : (littleEndian width.toNat v).length ≤ 2 ^ 32 := by
    rw [length_littleEndian]
    omega
  rw [h.layout] at hmapped
  refine ⟨?_, fun x hx => ?_, ?_, ?_, fun s hs x hx => ?_⟩
  · rw [layout_write, h.layout]
  · rw [mem_bytes_write m a x hlength, length_littleEndian] at hx
    exact hx.elim (Layout.mapped_of_covers hends hsize haligned hmapped) (h.mapped x)
  · rw [statements_write]
    exact h.aligned
  · rw [statements_write]
    exact h.inText
  · rw [statements_write] at hs
    exact (mem_bytes_write m a x hlength).2 (.inr (h.whole s hs x hx))

theorem store (h : m.Confined l) (hends : l.EndsWords) (a : Address) (v width : Int) :
    (m.store a v width).1.Confined l := by
  rw [store_eq]
  cases hset : m.set a v width with
  | error e => exact h
  | ok m' => exact h.set hends hset

theorem setDouble (h : m.Confined l) (hends : l.EndsWords) (a : Address) (v : BitVec 64) :
    (m.setDouble a v).1.Confined l := by
  rw [setDouble_eq]
  split
  · exact h
  · rename_i first hfirst
    exact (h.set hends hfirst).store hends _ _ _

theorem setStatement (h : m.Confined l) (hends : l.EndsWords) {a : Address} {code : Word} {s : σ}
    (hset : m.setStatement a code s = .ok m') : m'.Confined l := by
  obtain ⟨htext, written, hword, rfl⟩ := setStatement_eq_ok_iff.1 hset
  have hwritten := h.set hends hword
  have haligned : a.toNat % 4 = 0 := (set_eq_ok_iff.1 hword).1.aligned
  rw [h.layout] at htext
  -- The new statement lies on the word that is stored with it, the others on what they lay on.
  have hplaced {b : Address} (hb : b ∈ written.statements.insert a s) :
      b = a ∨ b ∈ written.statements := by
    rw [Std.ExtTreeMap.mem_insert, Std.LawfulEqCmp.compare_eq_iff_eq] at hb
    exact hb.imp_left Eq.symm
  refine ⟨hwritten.layout, hwritten.mapped, fun b hb => ?_, fun b hb => ?_, fun b hb x hx => ?_⟩
  · rcases hplaced hb with rfl | hb
    · exact haligned
    · exact hwritten.aligned b hb
  · rcases hplaced hb with rfl | hb
    · exact htext
    · exact hwritten.inText b hb
  · rcases hplaced hb with rfl | hb
    · obtain ⟨-, rfl⟩ := set_eq_ok_iff.1 hword
      exact (mem_bytes_write m b x (by simp)).2 (.inl (by simpa using hx))
    · exact hwritten.whole b hb x hx

theorem handle (h : m.Confined l) (hends : l.EndsWords) (request : Request σ) :
    (m.handle request).Confined l := by
  cases request with
  | set a v width => exact h.store hends a v width
  | setDouble a v => exact h.setDouble hends a v
  | setStatement a code s =>
    rw [Image.handle, storeStatement_eq]
    cases hset : m.setStatement a code s with
    | error e => exact h
    | ok m' => exact h.setStatement hends hset
  | reset =>
    rw [Image.handle, h.layout]
    exact confined_empty l

/-! ### Runs -/

theorem foldl_handle (h : m.Confined l) (hends : l.EndsWords) (requests : List (Request σ)) :
    (requests.foldl Image.handle m).Confined l := by
  induction requests generalizing m with
  | nil => exact h
  | cons request requests ih => exact ih (h.handle hends request)

end Confined

/-- Where every segment ends with a word, an image has no byte outside its segments whatever is
requested of it, and a statement lies at a multiple of four in a text segment, on four bytes that are
all written. -/
theorem confined_of_requests {l : Layout} (hends : l.EndsWords) (requests : List (Request σ)) :
    let m := requests.foldl handle (empty l)
    (∀ x ∈ m.bytes, l.inText x = true ∨ l.inData x = true) ∧
      ∀ a s, m.statement a = some s →
        a.toNat % 4 = 0 ∧ l.inText a = true ∧ ∀ x, Covers a 4 x → x ∈ m.bytes := by
  intro m
  have hconfined : m.Confined l := (confined_empty l).foldl_handle hends requests
  refine ⟨fun x hx => ?_, fun a s hs => ?_⟩
  · have hmapped := hconfined.mapped x hx
    rwa [Layout.mapped, Bool.or_eq_true] at hmapped
  · have ha : a ∈ m.statements := by
      rw [Std.ExtTreeMap.mem_iff_isSome_getElem?]
      exact Option.isSome_of_eq_some hs
    exact ⟨hconfined.aligned a ha, hconfined.inText a ha, hconfined.whole a ha⟩

/-- Requests at the ends of segments: the last word of all, a doubleword there, which is refused half
way, the last word for statements, and a byte before a segment, which is refused. -/
def endRequests : List (Request Unit) :=
  [.set 0xfffffffc 1 1, .setDouble 0xfffffffc 0x0807060504030201, .setStatement 0x8ffffffc 0x73 (),
    .set 0x003fffff 1 1]

theorem confined_of_endRequests :
    ({} : Layout).EndsWords ∧
      let m := endRequests.foldl handle (empty {})
      (0xffffffff ∈ m.bytes ∧
        (({} : Layout).inText 0xffffffff = true ∨ ({} : Layout).inData 0xffffffff = true)) ∧
      m.statement 0x8ffffffc = some () ∧ ({} : Layout).inText 0x8ffffffc = true ∧
      ∀ x, Covers 0x8ffffffc 4 x → x ∈ m.bytes := by
  have hends : ({} : Layout).EndsWords := by decide
  obtain ⟨hbytes, hstatements⟩ := confined_of_requests hends endRequests
  have hlast : (0xffffffff : Address) ∈ (endRequests.foldl handle (empty {})).bytes := by
    decide +kernel
  have hplaced : (endRequests.foldl handle (empty {})).statement 0x8ffffffc = some () := by
    decide +kernel
  obtain ⟨-, htext, hwhole⟩ := hstatements _ _ hplaced
  exact ⟨hends, ⟨hlast, hbytes _ hlast⟩, hplaced, htext, hwhole⟩

end Image

end Rv32Assembler
