import Mathlib.Algebra.Group.Int.Defs
import Rv32Assembler.Proofs.Glyphs
/-!
# Decimal numerals

A number that is written in decimal and read again is the same number, as far as 64 bits hold it:
as a literal (`integer_decimal`) and as a token of a line (`number_decimal`).
-/

namespace Rv32Assembler

namespace Text

def asciiGlyph (b : UInt8) : Glyph := ⟨Char.ofNat b.toNat, [b]⟩

theorem toNat_asciiGlyph (b : UInt8) : (asciiGlyph b).char.toNat = b.toNat := by
  have hvalid : b.toNat.isValidChar := .inl (by have := b.toNat_lt; omega)
  change (Char.ofNat b.toNat).toNat = b.toNat
  rw [Char.ofNat, dif_pos hvalid]
  rfl

theorem asciiGlyph_char_inj {b x : UInt8} (h : (asciiGlyph b).char = (asciiGlyph x).char) : b = x := by
  rw [← UInt8.toNat_inj, ← toNat_asciiGlyph b, h, toNat_asciiGlyph x]

theorem glyphs_ascii_append {s : Text} (h : ∀ b ∈ s, b < 0x80) (tail : Text) :
    glyphs (s ++ tail) = s.map asciiGlyph ++ glyphs tail := by
  induction s with
  | nil => rfl
  | cons b s ih =>
    rw [List.cons_append, glyphs_cons_ascii (h b (List.mem_cons_self ..)),
      ih fun x hx => h x (List.mem_cons_of_mem _ hx)]
    rfl

theorem glyphs_ascii {s : Text} (h : ∀ b ∈ s, b < 0x80) : glyphs s = s.map asciiGlyph := by
  have happend := glyphs_ascii_append h []
  simpa [glyphs] using happend

theorem ofGlyphs_map_asciiGlyph (s : Text) : ofGlyphs (s.map asciiGlyph) = s := by
  simp [ofGlyphs, asciiGlyph, List.flatMap_map]

/-! ### Digits -/

def IsDigit (b : UInt8) : Prop := ∃ d < 10, b = digit d

theorem isDigit_of_mem_digits {n : Nat} {b : UInt8} (h : b ∈ digits 10 n) : IsDigit b := by
  induction n using Nat.strongRecOn with
  | ind n ih =>
    rw [digits] at h
    split at h
    · rename_i hsmall
      rw [List.mem_singleton] at h
      exact ⟨n, by omega, h⟩
    · rename_i hlarge
      rcases List.mem_append.1 h with h | h
      · exact ih (n / 10) (by omega) h
      · rw [List.mem_singleton] at h
        exact ⟨n % 10, by omega, h⟩

theorem digits_ne_nil (n : Nat) : digits 10 n ≠ [] := by
  rw [digits]
  split <;> simp

theorem head?_digits {n : Nat} (h : 0 < n) : ∃ b rest, digits 10 n = b :: rest ∧ b ≠ 0x30 := by
  have hdigit : ∀ d < 10, 0 < d → digit d ≠ 0x30 := by decide
  induction n using Nat.strongRecOn with
  | ind n ih =>
    rw [digits]
    split
    · rename_i hsmall
      exact ⟨digit n, [], rfl, hdigit n (by omega) h⟩
    · rename_i hlarge
      obtain ⟨b, rest, hdigits, hb⟩ := ih (n / 10) (by omega) (by omega)
      exact ⟨b, rest ++ [digit (n % 10)], by rw [hdigits]; rfl, hb⟩

theorem IsDigit.lt_ascii {b : UInt8} (h : IsDigit b) : b < 0x80 := by
  obtain ⟨d, hd, rfl⟩ := h
  revert d
  decide

theorem IsDigit.isDecimalDigit {b : UInt8} (h : IsDigit b) :
    isDecimalDigit (asciiGlyph b).char = true := by
  obtain ⟨d, hd, rfl⟩ := h
  revert d
  decide

theorem IsDigit.not_blank {b : UInt8} (h : IsDigit b) :
    isBlank (asciiGlyph b).char = false := by
  obtain ⟨d, hd, rfl⟩ := h
  revert d
  decide

theorem IsDigit.ne {b : UInt8} (h : IsDigit b) :
    b ≠ 0x2b ∧ b ≠ 0x2d ∧ b ≠ 0x2e ∧ b ≠ 0x65 ∧ b ≠ 0x45 := by
  obtain ⟨d, hd, rfl⟩ := h
  revert d
  decide

theorem isDigit_of_mem_decimal {v : Int} {b : UInt8} (h : b ∈ decimal v) :
    b = 0x2d ∨ IsDigit b := by
  unfold decimal at h
  split at h
  · rcases List.mem_cons.1 h with h | h
    · exact .inl h
    · exact .inr (isDigit_of_mem_digits h)
  · exact .inr (isDigit_of_mem_digits h)

theorem decimal_lt_ascii {v : Int} {b : UInt8} (h : b ∈ decimal v) : b < 0x80 := by
  rcases isDigit_of_mem_decimal h with rfl | hdigit
  · decide
  · exact hdigit.lt_ascii

theorem trim_decimal (v : Int) : trim (decimal v) = decimal v := by
  have hblank {g : Glyph} (hg : g ∈ (decimal v).map asciiGlyph) : isBlank g.char = false := by
    obtain ⟨b, hb, rfl⟩ := List.mem_map.1 hg
    rcases isDigit_of_mem_decimal hb with rfl | hdigit
    · decide
    · exact hdigit.not_blank
  have hglyphs := glyphs_ascii fun b hb => decimal_lt_ascii (v := v) (b := b) hb
  have htrim := trim_ofGlyphs (.of_glyphs (decimal v))
    (fun g hg => hblank (hglyphs ▸ List.mem_of_mem_head? hg))
    (fun g hg => hblank (hglyphs ▸ List.mem_of_mem_getLast? hg))
  rwa [ofGlyphs_glyphs] at htrim

end Text

/-! ### Literals -/

namespace Literal

open Text (decimal digit IsDigit)

theorem digitValue?_digit {d : Nat} (h : d < 10) : digitValue? (digit d) = some d := by
  revert d
  decide

theorem digitsFrom_append (base limit acc : Nat) (s t : Text) :
    digitsFrom base limit acc (s ++ t)
      = (digitsFrom base limit acc s).bind fun n => digitsFrom base limit n t := by
  induction s generalizing acc with
  | nil => rfl
  | cons b s ih =>
    rw [List.cons_append, digitsFrom, digitsFrom]
    cases digitValue? b with
    | none => rfl
    | some d =>
      by_cases hbase : d < base
      · by_cases hlimit : acc * base + d < limit
        · simp only [hbase, hlimit, if_true]
          exact ih _
        · simp [hbase, hlimit, Except.bind]
      · simp [hbase, Except.bind]

theorem digitsFrom_digits {limit n : Nat} (h : n < limit) :
    digitsFrom 10 limit 0 (Text.digits 10 n) = .ok n := by
  induction n using Nat.strongRecOn with
  | ind n ih =>
    rw [Text.digits]
    split
    · rename_i hsmall
      have hn : n < 10 := by omega
      simp [digitsFrom, digitValue?_digit hn, hn, h]
    · rename_i hlarge
      have hlast : n % 10 < 10 := Nat.mod_lt n (by decide)
      have hvalue : n / 10 * 10 + n % 10 = n := by omega
      rw [digitsFrom_append, ih (n / 10) (by omega) (by omega)]
      simp [Except.bind, digitsFrom, digitValue?_digit hlast, hlast, hvalue, h]

theorem digits_digits {limit n : Nat} (h : n < limit) :
    digits 10 limit (Text.digits 10 n) = .ok n := by
  have hvalue := digitsFrom_digits h
  cases hdigits : Text.digits 10 n with
  | nil => exact absurd hdigits (Text.digits_ne_nil n)
  | cons b rest =>
    rw [hdigits] at hvalue
    exact hvalue

theorem splitBase_digits (n : Nat) : splitBase (Text.digits 10 n) = (10, Text.digits 10 n) := by
  rcases Nat.eq_zero_or_pos n with rfl | hpos
  · decide +kernel
  · obtain ⟨b, rest, hdigits, hb⟩ := Text.head?_digits hpos
    rw [hdigits]
    unfold splitBase
    split
    · rename_i heq
      exact absurd (List.cons.inj heq).1 hb
    · rename_i heq
      exact absurd (List.cons.inj heq).1 hb
    · rfl

theorem splitSign_decimal (v : Int) :
    splitSign (decimal v) = (decide (v < 0), Text.digits 10 v.natAbs) := by
  unfold decimal
  by_cases hneg : v < 0
  · simp [hneg, splitSign]
  · obtain ⟨b, rest, hdigits⟩ := List.exists_cons_of_ne_nil (Text.digits_ne_nil v.natAbs)
    have hdigit : IsDigit b :=
      Text.isDigit_of_mem_digits (by rw [hdigits]; exact List.mem_cons_self ..)
    rw [if_neg hneg, hdigits]
    unfold splitSign
    split
    · rename_i heq
      exact absurd (List.cons.inj heq).1 hdigit.ne.1
    · rename_i heq
      exact absurd (List.cons.inj heq).1 hdigit.ne.2.1
    · simp [hneg]

theorem wrap64_eq_self {v : Int} (hlow : -2 ^ 63 ≤ v) (hhigh : v < 2 ^ 63) : wrap64 v = v := by
  rw [wrap64, Nat.one_shiftLeft, Int.bmod_def]
  split <;> omega

theorem integer_decimal {v : Int} (hlow : -2 ^ 63 ≤ v) (hhigh : v < 2 ^ 63) :
    integer (decimal v) = .ok v := by
  have hsign := splitSign_decimal v
  have hrange : v.natAbs < 1 <<< 64 := by
    rw [Nat.one_shiftLeft]
    omega
  unfold integer
  rw [Text.trim_decimal]
  cases hdecimal : decimal v with
  | nil =>
    rw [hdecimal] at hsign
    exact absurd (congrArg Prod.snd hsign).symm (Text.digits_ne_nil _)
  | cons b rest =>
    rw [hdecimal] at hsign
    simp only [hsign, splitBase_digits, digits_digits hrange]
    have habs : (if decide (v < 0) = true then -(v.natAbs : Int) else v.natAbs) = v := by
      by_cases hneg : v < 0 <;> simp only [hneg, decide_true, decide_false, if_true, if_false,
        Bool.false_eq_true] <;> omega
    have hfits : ¬ ((10 == 10 && (decide (1 <<< 63 < v.natAbs) ||
        (v.natAbs == 1 <<< 63 && !decide (v < 0)))) = true) := by
      simp only [Nat.one_shiftLeft, beq_self_eq_true, Bool.true_and, Bool.or_eq_true,
        decide_eq_true_eq, Bool.and_eq_true, beq_iff_eq, Bool.not_eq_true', decide_eq_false_iff_not]
      omega
    rw [if_neg hfits, habs, wrap64_eq_self hlow hhigh]

end Literal

/-! ### Tokens -/

namespace Lexeme

open Text

theorem looksReal_decimal (v : Int) : looksReal (decimal v) = false := by
  have hplain {b : UInt8} (hb : b ∈ (decimal v).dropWhile fun b => b == 0x2b || b == 0x2d) :
      (b == 0x2e || b == 0x65 || b == 0x45) = false := by
    have hmem := (List.dropWhile_sublist _).subset hb
    rcases isDigit_of_mem_decimal hmem with rfl | hdigit
    · decide
    · simp [hdigit.ne]
  unfold looksReal
  simp only [Bool.and_eq_false_iff, List.any_eq_false]
  right
  intro b hb
  simp [hplain hb]

/-- A signed 64-bit number is the token of its decimal numeral. -/
theorem number_decimal {v : Int} (hlow : -2 ^ 63 ≤ v) (hhigh : v < 2 ^ 63) (extra : Nat) :
    number (decimal v) extra = { kind := .classify v, extra := extra, value := v } := by
  unfold number
  rw [looksReal_decimal, Literal.integer_decimal hlow hhigh]
  rfl

theorem isNumberPart_of_isDigit {b : UInt8} (h : IsDigit b) :
    isNumberPart (asciiGlyph b).char = true ∧
      ((asciiGlyph b).char == 'e' || (asciiGlyph b).char == 'E') = false ∧
      ((asciiGlyph b).char == 'x' || (asciiGlyph b).char == 'X') = false := by
  obtain ⟨d, hd, rfl⟩ := h
  revert d
  decide

theorem numberLength_digits {s : Text} (hs : ∀ b ∈ s, IsDigit b) {last : Char}
    (hlast : (last == 'e' || last == 'E') = false) {gs : List Glyph}
    (hgs : ∀ g ∈ gs.head?, isNumberPart g.char = false) :
    numberLength false last (s.map asciiGlyph ++ gs) = s.length := by
  induction s generalizing last with
  | nil =>
    cases gs with
    | nil => rfl
    | cons g gs => simp [numberLength, hgs g rfl, hlast]
  | cons b s ih =>
    obtain ⟨hpart, hexponent, hhexadecimal⟩ := isNumberPart_of_isDigit (hs b (List.mem_cons_self ..))
    have hrest := ih (fun x hx => hs x (List.mem_cons_of_mem _ hx)) hexponent
    rw [List.map_cons, List.cons_append, numberLength]
    simp [hpart, hhexadecimal, hrest]

end Lexeme

end Rv32Assembler
