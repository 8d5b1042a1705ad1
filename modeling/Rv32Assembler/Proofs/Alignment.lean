import Mathlib.Order.Bounds.Defs
import Rv32Assembler.Isa.Rv32im
import Rv32Assembler.Proofs.Cursors
/-!
# Alignment

An alignment takes the cursor of the current segment to the least multiple that is not below it, takes
the labels at the old place along and leaves everything else alone. The multiples that an alignment can
ask for divide the address space, so the least one is at most the end of it. There the cursor goes
around to zero, and that is the only case in which it goes down (`isLeast_execute_align_iff`).
-/

namespace Rv32Assembler

/-- The least multiple of a positive number that is not below `n`. -/
def roundUp (multiple n : Nat) : Nat := n + (multiple - n % multiple) % multiple

theorem isLeast_roundUp {multiple : Nat} (hpos : 0 < multiple) (n : Nat) :
    IsLeast {m | multiple ∣ m ∧ n ≤ m} (roundUp multiple n) := by
  have hdivision := Nat.div_add_mod n multiple
  have hremainder := Nat.mod_lt n hpos
  constructor
  · refine ⟨?_, Nat.le_add_right ..⟩
    unfold roundUp
    by_cases hrest : n % multiple = 0
    · rw [hrest, Nat.sub_zero, Nat.mod_self, Nat.add_zero]
      exact Nat.dvd_of_mod_eq_zero hrest
    · rw [Nat.mod_eq_of_lt (by omega)]
      refine ⟨n / multiple + 1, ?_⟩
      rw [Nat.mul_add, Nat.mul_one]
      omega
  · rintro m ⟨⟨k, rfl⟩, hle⟩
    unfold roundUp
    by_cases hrest : n % multiple = 0
    · rwa [hrest, Nat.sub_zero, Nat.mod_self, Nat.add_zero]
    · rw [Nat.mod_eq_of_lt (by omega)]
      -- The multiple below `n` is not `n` itself, so `multiple * k` is at least one further.
      have hquotient : n / multiple < k := by
        refine Nat.lt_of_mul_lt_mul_left (a := multiple) ?_
        omega
      have hnext : multiple * (n / multiple + 1) ≤ multiple * k := Nat.mul_le_mul_left _ hquotient
      rw [Nat.mul_add, Nat.mul_one] at hnext
      omega

theorem roundUp_le {multiple n bound : Nat} (hpos : 0 < multiple) (hdvd : multiple ∣ bound)
    (h : n ≤ bound) : roundUp multiple n ≤ bound :=
  (isLeast_roundUp hpos n).2 ⟨hdvd, h⟩

/-- Below a bound that is a multiple itself, the numbers up to the multiple before it are those that stay
below when they are rounded up. -/
theorem roundUp_lt_iff {multiple n bound : Nat} (hpos : 0 < multiple) (hdvd : multiple ∣ bound)
    (hbound : 0 < bound) : roundUp multiple n < bound ↔ n ≤ bound - multiple := by
  have hfits : multiple ≤ bound := Nat.le_of_dvd hbound hdvd
  obtain ⟨⟨hmultiple, hle⟩, -⟩ := isLeast_roundUp hpos n
  constructor
  · intro hlt
    -- Two different multiples are a multiple apart.
    have hgap : multiple ≤ bound - roundUp multiple n :=
      Nat.le_of_dvd (by omega) (Nat.dvd_sub hdvd hmultiple)
    omega
  · intro h
    have hbefore := roundUp_le hpos (Nat.dvd_sub hdvd (Nat.dvd_refl multiple)) h
    omega

theorem toNat_alignUp {multiple : Nat} (hpos : 0 < multiple) (a : Address) :
    (alignUp a multiple).toNat = roundUp multiple a.toNat % 2 ^ 32 := by
  have ha : a.toNat < 2 ^ 32 := a.isLt
  have hremainder := Nat.mod_lt a.toNat hpos
  unfold alignUp roundUp
  split
  · rename_i hrest
    rw [hrest, Nat.sub_zero, Nat.mod_self, Nat.add_zero, Nat.mod_eq_of_lt ha]
  · have hstep : (multiple - a.toNat % multiple) % multiple = multiple - a.toNat % multiple :=
      Nat.mod_eq_of_lt (by omega)
    rw [hstep, BitVec.toNat_add, BitVec.toNat_ofNat, Nat.add_mod_mod]

theorem dvd_toNat_alignUp {multiple : Nat} (hpos : 0 < multiple) (hdvd : multiple ∣ 2 ^ 32)
    (a : Address) : multiple ∣ (alignUp a multiple).toNat := by
  rw [toNat_alignUp hpos, Nat.dvd_mod_iff hdvd]
  exact (isLeast_roundUp hpos a.toNat).1.1

theorem alignUp_eq_zero_of_lt {multiple : Nat} (hpos : 0 < multiple) (hdvd : multiple ∣ 2 ^ 32)
    {a : Address} (h : 2 ^ 32 - multiple < a.toNat) : alignUp a multiple = 0 := by
  have hend : roundUp multiple a.toNat = 2 ^ 32 := by
    refine Nat.le_antisymm (roundUp_le hpos hdvd a.isLt.le) (Nat.le_of_not_lt fun hlt => ?_)
    exact absurd ((roundUp_lt_iff hpos hdvd (by decide)).1 hlt) (by omega)
  exact BitVec.eq_of_toNat_eq (by rw [toNat_alignUp hpos, hend]; rfl)

theorem isLeast_alignUp_iff {multiple : Nat} (hpos : 0 < multiple) (hdvd : multiple ∣ 2 ^ 32)
    (a : Address) :
    (IsLeast {m | multiple ∣ m ∧ a.toNat ≤ m} (alignUp a multiple).toNat ↔
        a.toNat ≤ 2 ^ 32 - multiple) ∧
      (a.toNat ≤ (alignUp a multiple).toNat ↔ a.toNat ≤ 2 ^ 32 - multiple) := by
  by_cases hroom : a.toNat ≤ 2 ^ 32 - multiple
  · have hlt := (roundUp_lt_iff hpos hdvd (by decide)).2 hroom
    have hleast := isLeast_roundUp hpos a.toNat
    rw [toNat_alignUp hpos, Nat.mod_eq_of_lt hlt]
    exact ⟨iff_of_true hleast hroom, iff_of_true hleast.1.2 hroom⟩
  · have hbelow : ¬ a.toNat ≤ (alignUp a multiple).toNat := by
      rw [alignUp_eq_zero_of_lt hpos hdvd (Nat.lt_of_not_le hroom)]
      change ¬ a.toNat ≤ 0
      omega
    exact ⟨iff_of_false (fun hleast => hbelow hleast.1.2) hroom, iff_of_false hbelow hroom⟩

/-! ### The state -/

theorem Cursors.set_get (c : Cursors) (s : Segment) : c.set s (c.get s) = c := by
  obtain ⟨isData, isKernel⟩ := s
  cases isData <;> cases isKernel <;> rfl

theorem Cursors.get_set (c : Cursors) (s : Segment) (a : Address) : (c.set s a).get s = a := by
  obtain ⟨isData, isKernel⟩ := s
  cases isData <;> cases isKernel <;> rfl

@[simp] theorem Cursors.segment_set (c : Cursors) (s : Segment) (a : Address) :
    (c.set s a).segment = c.segment := by
  obtain ⟨isData, isKernel⟩ := s
  cases isData <;> cases isKernel <;> rfl

theorem SymbolTable.move_self (t : SymbolTable) (a : Address) : t.move a a = t := by
  obtain ⟨entries, _⟩ := t
  have hsame : (fun s : Symbol => if s.address = a then { s with address := a } else s) = id := by
    funext s
    split
    · rename_i hs
      exact congrArg (Symbol.mk s.name · s.isData) hs.symm
    · rfl
  simp only [move, hsame, List.map_id]

namespace Reading

/-- An alignment always is a move of the cursor and of the labels at it, perhaps to where they are. -/
theorem align_eq (r : Reading) (s : Segment) (multiple : Nat) :
    r.align s multiple =
      { r with
        cursors := r.cursors.set s (alignUp (r.cursors.get s) multiple)
        labels := r.labels.move (r.cursors.get s) (alignUp (r.cursors.get s) multiple) } := by
  unfold align
  simp only
  split
  · rename_i hsame
    rw [hsame, Cursors.set_get, SymbolTable.move_self]
  · rfl

/-- The directive aligns the current segment, after a warning where it asks for less than a word. -/
theorem execute_align {r : Reading} {note : Text} {index : Int} {directive operand : Token} {n : Nat}
    (hname : Directive.ofName? directive.text = some .align) (hplain : r.pool.isDefining = false)
    (hinteger : operand.kind.isInteger = true) (hvalue : operand.value = n) (hmax : n ≤ 31)
    (hdata : r.cursors.segment.isData = true → 1 ≤ n) :
    r.execute note index directive [operand] =
      (if r.cursors.segment.isData || decide (2 ≤ n) then r
        else r.report note operand (.alignRounded n)).align r.cursors.segment
        (2 ^ if r.cursors.segment.isData then n else max n 2) := by
  have hrange : ¬ maxAlign < n := by
    unfold maxAlign
    omega
  have hexponent : (max (n : Int) 2).toNat = max n 2 := by omega
  simp only [execute, hname, hplain, executePlain, executeAlign, hinteger, hvalue, hrange,
    Nat.one_shiftLeft, hexponent]
  cases hkind : r.cursors.segment.isData with
  | false =>
    have hsegment : r.cursors.textSegment = r.cursors.segment := by
      rw [Cursors.textSegment, ← hkind]
    by_cases hword : 2 ≤ n
    · have hword' : ¬ (n : Int) < 2 := by omega
      simp [hword, hword', hsegment]
    · have hword' : (n : Int) < 2 := by omega
      have hkept : (r.report note operand (.alignRounded n)).cursors = r.cursors := rfl
      simp [hword, hword', hkept, hsegment]
  | true =>
    have hsegment : r.cursors.dataSegment = r.cursors.segment := by
      rw [Cursors.dataSegment, ← hkind]
    have hzero : n ≠ 0 := by
      have := hdata hkind
      omega
    simp [hzero, hsegment]

/-- The directive takes the cursor of the current segment to the least multiple that is not below it,
and thus never down, exactly if there is such a multiple below the end of the address space; otherwise
it takes the cursor to zero. The labels of the file at the old place go along, and nothing else changes,
but for a warning where less than a word is asked for in a text segment. -/
theorem isLeast_execute_align_iff {r : Reading} {note : Text} {index : Int}
    {directive operand : Token} {n : Nat}
    (hname : Directive.ofName? directive.text = some .align) (hplain : r.pool.isDefining = false)
    (hinteger : operand.kind.isInteger = true) (hvalue : operand.value = n) (hmax : n ≤ 31)
    (hdata : r.cursors.segment.isData = true → 1 ≤ n) :
    let boundary := 2 ^ if r.cursors.segment.isData then n else max n 2
    let old := r.cursors.here
    let after := r.execute note index directive [operand]
    let new := after.cursors.here
    (IsLeast {m | boundary ∣ m ∧ old.toNat ≤ m} new.toNat ↔ old.toNat ≤ 2 ^ 32 - boundary) ∧
      (old.toNat ≤ new.toNat ↔ old.toNat ≤ 2 ^ 32 - boundary) ∧
      boundary ∣ new.toNat ∧
      (2 ^ 32 - boundary < old.toNat → new = 0) ∧
      after.labels.entries = (r.labels.entries.map fun s =>
        if s.address = old then { s with address := new } else s) ∧
      after.log = (if r.cursors.segment.isData || decide (2 ≤ n) then r.log
        else r.log.add ((Problem.alignRounded n).about operand note)) ∧
      after = { r with
        cursors := r.cursors.set r.cursors.segment new
        labels := after.labels
        log := after.log } := by
  intro boundary old after new
  have hpos : 0 < boundary := Nat.pow_pos (by decide)
  have hdvd : boundary ∣ 2 ^ 32 := Nat.pow_dvd_pow 2 (by split <;> omega)
  have hafter : after = _ :=
    (execute_align hname hplain hinteger hvalue hmax hdata).trans (align_eq _ _ boundary)
  -- The warning, if there is one, leaves the cursors and the labels.
  have hnew : new = alignUp old boundary := by
    change after.cursors.here = _
    rw [hafter, Cursors.here, Cursors.segment_set]
    split <;> exact Cursors.get_set ..
  obtain ⟨hleast, hup⟩ := isLeast_alignUp_iff hpos hdvd old
  refine ⟨hnew ▸ hleast, hnew ▸ hup, hnew ▸ dvd_toNat_alignUp hpos hdvd old,
    fun h => hnew ▸ alignUp_eq_zero_of_lt hpos hdvd h, ?_, ?_, ?_⟩
  · rw [hafter, hnew]
    split <;> rfl
  · rw [hafter]
    split <;> rfl
  · rw [hnew, hafter]
    split <;> rfl

/-- Two labels in the data segment of the kernel, one of them at its cursor, which is three bytes below
the end of the address space. -/
def topReading : Reading :=
  { Reading.start (.ofConfig {}) "a.s" with
    cursors :=
      { Cursors.ofLayout {} with kernelData := 0xfffffffd, segment := ⟨true, true⟩ }
    labels := { entries := [⟨"w", 0xfffffffc, true⟩, ⟨"x", 0xfffffffd, true⟩] } }

/-- The next word would start at the end of the address space, so the cursor goes to zero, and the label
at it goes along. -/
theorem isLeast_execute_align_iff_top :
    let directive : Token := ⟨.directive, ".align", "a.s", 3, 1, 0, 0, 0⟩
    let word : Token := ⟨.integer5, "2", "a.s", 3, 8, 7, 2, 0⟩
    let after := topReading.execute [] 2 directive [word]
    topReading.cursors.here = 0xfffffffd ∧ after.cursors.here = 0 ∧
      ¬ IsLeast {m | 2 ^ 2 ∣ m ∧ topReading.cursors.here.toNat ≤ m} after.cursors.here.toNat ∧
      after.labels.entries = [⟨"w", 0xfffffffc, true⟩, ⟨"x", 0, true⟩] := by
  intro directive word after
  have hhere : topReading.cursors.here = 0xfffffffd := rfl
  obtain ⟨hleast, -, -, hzero, hlabels, -, -⟩ :=
    @isLeast_execute_align_iff topReading [] 2 directive word 2 (by decide +kernel) rfl rfl rfl
      (by decide) (by decide)
  have hnew : after.cursors.here = 0 := hzero (by decide)
  refine ⟨hhere, hnew, fun h => absurd (hleast.1 h) (by decide), ?_⟩
  rw [hlabels, hnew]
  decide

end Reading

end Rv32Assembler
