import Mathlib.Data.Nat.Digits.Defs
import Rv32Assembler.Isa.Rv32im
import Rv32Assembler.Proofs.StringData
import Rv32Assembler.Proofs.TokensInPlace
/-!
# Integer literals

Which texts are integers and what number each of them is, said without the reader: a sign perhaps, and
digits of a base, which may be named in front of them (`Denotes`). The reader takes the sign and the
base off by turns. What each of these steps leaves is a lemma (`exists_of_splitSign`, `isPattern_iff`,
`isPlain_iff`, `digits_eq_ok_iff`), and the literals are put together from them
(`integer_eq_ok_iff_denotes`).
-/

namespace Rv32Assembler

open Text

namespace Text

/-- The byte is the digit `d` of the base. -/
def IsDigitOf (base : Nat) (b : UInt8) (d : Nat) : Prop := IsHex b d ∧ d < base

/-- The text is a number in digits of the base, the most significant first. -/
def IsNumeral (base : Nat) (s : Text) (n : Nat) : Prop :=
  s ≠ [] ∧ ∃ ds, List.Forall₂ (IsDigitOf base) s ds ∧ n = Nat.ofDigits base ds.reverse

/-- The letters that name a base behind a zero. -/
def baseLetters : List (UInt8 × Nat) :=
  [(0x78, 16), (0x58, 16), (0x62, 2), (0x42, 2), (0x6f, 8), (0x4f, 8)]

/-- The text is a pattern of 64 bits: digits behind the name of their base, or octal digits behind a
zero. -/
inductive IsPattern : Text → Nat → Prop
  | based {letter : UInt8} {base n : Nat} {s : Text} (hletter : (letter, base) ∈ baseLetters)
      (hnumeral : s.IsNumeral base n) (hfits : n < 2 ^ 64) : IsPattern (0x30 :: letter :: s) n
  | octal {n : Nat} {s : Text} (hnumeral : s.IsNumeral 8 n) (hfits : n < 2 ^ 64) :
      IsPattern (0x30 :: s) n

/-- The text is a number in decimal digits without a leading zero. -/
structure IsPlain (s : Text) (n : Nat) : Prop where
  numeral : s.IsNumeral 10 n
  leading : s.head? = some 0x30 → s = [0x30]

/-- The signs, one of which is none, and the units that they stand for. -/
def signs : List (Text × Int) := [([], 1), ([0x2b], 1), ([0x2d], -1)]

/-- The text is an integer literal for the number. Patterns of 64 bits are as large as their bits allow,
decimal numbers are in the range of signed ones. -/
inductive Denotes : Text → Int → Prop
  | pattern {sign s : Text} {unit : Int} {n : Nat} (hsign : (sign, unit) ∈ signs) (h : s.IsPattern n) :
      Denotes (sign ++ s) (unit * n)
  | plain {sign s : Text} {unit : Int} {n : Nat} (hsign : (sign, unit) ∈ signs) (h : s.IsPlain n)
      (hlow : -2 ^ 63 ≤ unit * n) (hhigh : unit * n < 2 ^ 63) : Denotes (sign ++ s) (unit * n)

end Text

namespace Literal

/-! ### Digits -/

theorem digitValue?_eq_some_iff {b : UInt8} {d : Nat} (hd : d < 16) :
    digitValue? b = some d ↔ IsHex b d := by
  refine ⟨fun h => ?_, digitValue?_of_isHex⟩
  have hall : ∀ code < 256, ∀ d < 16, digitValue? (UInt8.ofNat code) = some d →
      IsHex (UInt8.ofNat code) d := by
    decide +kernel
  have hbyte := hall b.toNat b.toNat_lt d hd
  rw [UInt8.ofNat_toNat] at hbyte
  exact hbyte h

theorem digitsFrom_cons_eq_ok_iff {base limit acc : Nat} (hbase : base ≤ 16) {b : UInt8} {rest : Text}
    {n : Nat} :
    digitsFrom base limit acc (b :: rest) = .ok n ↔
      ∃ d, IsDigitOf base b d ∧ acc * base + d < limit ∧
        digitsFrom base limit (acc * base + d) rest = .ok n := by
  rw [digitsFrom]
  cases hvalue : digitValue? b with
  | none =>
    refine ⟨fun h => (by cases h), ?_⟩
    rintro ⟨d, ⟨hd, -⟩, -⟩
    rw [digitValue?_of_isHex hd] at hvalue
    cases hvalue
  | some d =>
    have hunique {d' : Nat} (h : IsHex b d') : d' = d := by
      rw [digitValue?_of_isHex h] at hvalue
      exact Option.some_inj.1 hvalue
    by_cases hlt : d < base
    · have hhex : IsHex b d := (digitValue?_eq_some_iff (by omega)).1 hvalue
      by_cases hfits : acc * base + d < limit
      · simp only [hlt, hfits, if_true]
        refine ⟨fun h => ⟨d, ⟨hhex, hlt⟩, hfits, h⟩, ?_⟩
        rintro ⟨d', ⟨hd', -⟩, -, h⟩
        rwa [hunique hd'] at h
      · simp only [hlt, hfits, if_true, if_false]
        refine ⟨fun h => (by cases h), ?_⟩
        rintro ⟨d', ⟨hd', -⟩, hfits', -⟩
        exact absurd (hunique hd' ▸ hfits') hfits
    · simp only [hlt, if_false]
      refine ⟨fun h => (by cases h), ?_⟩
      rintro ⟨d', ⟨hd', hlt'⟩, -⟩
      exact absurd (hunique hd' ▸ hlt') hlt

/-- The number that digits make behind others of a value. -/
def valueFrom (base acc : Nat) (ds : List Nat) : Nat := ds.foldl (fun value d => d + base * value) acc

theorem valueFrom_zero (base : Nat) (ds : List Nat) :
    valueFrom base 0 ds = Nat.ofDigits base ds.reverse := by
  rw [Nat.ofDigits_eq_foldr, List.foldr_reverse]
  rfl

theorem le_valueFrom {base : Nat} (hpos : 0 < base) (acc : Nat) (ds : List Nat) :
    acc ≤ valueFrom base acc ds := by
  induction ds generalizing acc with
  | nil => exact Nat.le_refl acc
  | cons d ds ih =>
    calc acc ≤ base * acc := Nat.le_mul_of_pos_left acc hpos
      _ ≤ d + base * acc := Nat.le_add_left ..
      _ ≤ valueFrom base (d + base * acc) ds := ih _

/-- Digits are read if they belong to the base and their number is below the limit; whether it was
below all the way makes no difference. -/
theorem digitsFrom_eq_ok_iff {base limit acc : Nat} (hbase : base ≤ 16) (hpos : 0 < base)
    (hacc : acc < limit) {s : Text} {n : Nat} :
    digitsFrom base limit acc s = .ok n ↔
      ∃ ds, List.Forall₂ (IsDigitOf base) s ds ∧ n = valueFrom base acc ds ∧ n < limit := by
  induction s generalizing acc with
  | nil =>
    constructor
    · rintro ⟨⟩
      exact ⟨[], .nil, rfl, hacc⟩
    · rintro ⟨ds, hdigits, rfl, -⟩
      cases hdigits
      rfl
  | cons b rest ih =>
    rw [digitsFrom_cons_eq_ok_iff hbase]
    have hcomm (d : Nat) : acc * base + d = d + base * acc := by rw [Nat.add_comm, Nat.mul_comm]
    constructor
    · rintro ⟨d, hd, hfits, hrest⟩
      obtain ⟨ds, hds, rfl, hn⟩ := (ih hfits).1 hrest
      exact ⟨d :: ds, .cons hd hds, by rw [hcomm]; rfl, hn⟩
    · rintro ⟨_, hdigits, rfl, hn⟩
      cases hdigits with
      | @cons _ d _ ds hd hds =>
        have hfits : acc * base + d < limit := by
          rw [hcomm]
          exact Nat.lt_of_le_of_lt (le_valueFrom hpos _ ds) hn
        exact ⟨d, hd, hfits, (ih hfits).2 ⟨ds, hds, by rw [hcomm]; rfl, hn⟩⟩

/-- A run of digits is read just if it is a number in the base, and below the limit. -/
theorem digits_eq_ok_iff {base limit : Nat} (hbase : base ≤ 16) (hpos : 0 < base) (hlimit : 0 < limit)
    {s : Text} {n : Nat} : digits base limit s = .ok n ↔ s.IsNumeral base n ∧ n < limit := by
  cases s with
  | nil =>
    refine ⟨fun h => (by cases h), ?_⟩
    rintro ⟨⟨hne, -⟩, -⟩
    exact absurd rfl hne
  | cons b rest =>
    have hdigits : digits base limit (b :: rest) = digitsFrom base limit 0 (b :: rest) := rfl
    rw [hdigits, digitsFrom_eq_ok_iff hbase hpos hlimit]
    simp only [valueFrom_zero]
    constructor
    · rintro ⟨ds, hds, hvalue, hn⟩
      exact ⟨⟨List.cons_ne_nil _ _, ds, hds, hvalue⟩, hn⟩
    · rintro ⟨⟨-, ds, hds, hvalue⟩, hn⟩
      exact ⟨ds, hds, hvalue, hn⟩

/-! ### Bases -/

theorem prefixBase?_eq_some_iff {letter : UInt8} {base : Nat} :
    prefixBase? letter = some base ↔ (letter, base) ∈ baseLetters := by
  simp only [prefixBase?, baseLetters, Bool.or_eq_true, beq_iff_eq, List.mem_cons, Prod.mk.injEq,
    List.not_mem_nil, or_false]
  repeat' split
  all_goals grind

theorem bounds_of_mem_baseLetters {letter : UInt8} {base : Nat} (h : (letter, base) ∈ baseLetters) :
    0 < base ∧ base ≤ 16 ∧ base ≠ 10 := by
  have hall : baseLetters.all (fun p => 0 < p.2 ∧ p.2 ≤ 16 ∧ p.2 ≠ 10) = true := by decide
  exact of_decide_eq_true (List.all_eq_true.1 hall _ h)

theorem splitBase_letter {letter b : UInt8} {base : Nat} (h : (letter, base) ∈ baseLetters) (rest : Text) :
    splitBase (0x30 :: letter :: b :: rest) = (base, b :: rest) := by
  rw [splitBase, prefixBase?_eq_some_iff.2 h]

theorem splitBase_zero {b : UInt8} (h : prefixBase? b = none) (rest : Text) :
    splitBase (0x30 :: b :: rest) = (8, b :: rest) := by
  cases rest with
  | nil => rfl
  | cons c rest => rw [splitBase, h]

theorem splitBase_plain {s : Text} (h : s.head? = some 0x30 → s = [0x30]) : splitBase s = (10, s) := by
  fun_cases splitBase s with
  | case1 | case2 | case3 => simp at h
  | case4 => rfl

theorem splitBase_cases (s : Text) :
    (∃ letter base b rest, (letter, base) ∈ baseLetters ∧ s = 0x30 :: letter :: b :: rest ∧
        splitBase s = (base, b :: rest)) ∨
      (∃ b rest, s = 0x30 :: b :: rest ∧ splitBase s = (8, b :: rest)) ∨
      (s.head? = some 0x30 → s = [0x30]) ∧ splitBase s = (10, s) := by
  fun_cases splitBase s with
  | case1 letter b rest base h =>
    exact .inl ⟨letter, base, b, rest, prefixBase?_eq_some_iff.1 h, rfl, rfl⟩
  | case2 b c rest => exact .inr (.inl ⟨b, c :: rest, rfl, rfl⟩)
  | case3 b => exact .inr (.inl ⟨b, [], rfl, rfl⟩)
  | case4 s hlong hshort =>
    refine .inr (.inr ⟨fun hzero => ?_, rfl⟩)
    obtain _ | ⟨x, _ | ⟨b, rest⟩⟩ := s
    · cases hzero
    · rw [Option.some_inj.1 hzero]
    · obtain rfl : x = 0x30 := Option.some_inj.1 hzero
      cases rest with
      | nil => exact (hshort b rfl).elim
      | cons c rest => exact (hlong b c rest rfl).elim

end Literal

theorem Text.IsNumeral.exists_cons {base n : Nat} {s : Text} (h : s.IsNumeral base n) :
    ∃ b rest d, s = b :: rest ∧ IsDigitOf base b d := by
  obtain ⟨hne, ds, hdigits, -⟩ := h
  cases hdigits with
  | nil => exact absurd rfl hne
  | cons hd _ => exact ⟨_, _, _, rfl, hd⟩

namespace Literal

theorem prefixBase?_of_isDigitOf {b : UInt8} {d : Nat} (h : IsDigitOf 8 b d) : prefixBase? b = none := by
  have hoctal : ∀ d < 8, prefixBase? (digit d) = none := by decide
  obtain ⟨⟨-, rfl | ⟨hletter, -⟩⟩, hd⟩ := h
  · exact hoctal d hd
  · omega

theorem isPattern_iff {s : Text} {n : Nat} :
    s.IsPattern n ↔
      (splitBase s).1 ≠ 10 ∧ digits (splitBase s).1 (2 ^ 64) (splitBase s).2 = .ok n := by
  constructor
  · rintro (⟨hletter, hnumeral, hfits⟩ | ⟨hnumeral, hfits⟩)
    · obtain ⟨hpos, hbase, hten⟩ := bounds_of_mem_baseLetters hletter
      obtain ⟨b, rest, -, rfl, -⟩ := hnumeral.exists_cons
      rw [splitBase_letter hletter]
      exact ⟨hten, (digits_eq_ok_iff hbase hpos (by decide)).2 ⟨hnumeral, hfits⟩⟩
    · obtain ⟨b, rest, d, rfl, hd⟩ := hnumeral.exists_cons
      simp only [splitBase_zero (prefixBase?_of_isDigitOf hd)]
      exact ⟨by decide, (digits_eq_ok_iff (by decide) (by decide) (by decide)).2 ⟨hnumeral, hfits⟩⟩
  · rintro ⟨hten, hdigits⟩
    obtain ⟨letter, base, b, rest, hletter, rfl, hsplit⟩ | ⟨b, rest, rfl, hsplit⟩ | ⟨-, hsplit⟩ :=
      splitBase_cases s
    · obtain ⟨hpos, hbase, -⟩ := bounds_of_mem_baseLetters hletter
      rw [hsplit, digits_eq_ok_iff hbase hpos (by decide)] at hdigits
      exact .based hletter hdigits.1 hdigits.2
    · simp only [hsplit] at hdigits
      rw [digits_eq_ok_iff (by decide) (by decide) (by decide)] at hdigits
      exact .octal hdigits.1 hdigits.2
    · exact absurd (congrArg Prod.fst hsplit) hten

theorem isPlain_iff {s : Text} {n : Nat} :
    s.IsPlain n ∧ n < 2 ^ 64 ↔
      (splitBase s).1 = 10 ∧ digits (splitBase s).1 (2 ^ 64) (splitBase s).2 = .ok n := by
  constructor
  · rintro ⟨⟨hnumeral, hleading⟩, hfits⟩
    simp only [splitBase_plain hleading, true_and]
    exact (digits_eq_ok_iff (by decide) (by decide) (by decide)).2 ⟨hnumeral, hfits⟩
  · rintro ⟨hten, hdigits⟩
    obtain ⟨letter, base, b, rest, hletter, rfl, hsplit⟩ | ⟨b, rest, rfl, hsplit⟩ | ⟨hleading, hsplit⟩ :=
      splitBase_cases s
    · rw [hsplit] at hten
      exact absurd hten (bounds_of_mem_baseLetters hletter).2.2
    · rw [hsplit] at hten
      cases hten
    · simp only [hsplit] at hdigits
      rw [digits_eq_ok_iff (by decide) (by decide) (by decide)] at hdigits
      exact ⟨⟨hdigits.1, hleading⟩, hdigits.2⟩

/-! ### Signs -/

/-- The reader makes of a magnitude what the unit does. -/
def HasUnit (negative : Bool) (unit : Int) : Prop :=
  ∀ n : Int, (if negative = true then -n else n) = unit * n

theorem exists_of_splitSign {s t : Text} {negative : Bool} (h : splitSign s = (negative, t)) :
    ∃ sign unit, (sign, unit) ∈ signs ∧ s = sign ++ t ∧ HasUnit negative unit := by
  revert h
  fun_cases splitSign s with
  | case1 rest =>
    rintro ⟨⟩
    exact ⟨[0x2b], 1, by decide, rfl, fun n => (Int.one_mul n).symm⟩
  | case2 rest =>
    rintro ⟨⟩
    exact ⟨[0x2d], -1, by decide, rfl, fun n => Int.neg_eq_neg_one_mul n⟩
  | case3 =>
    rintro ⟨⟩
    exact ⟨[], 1, by decide, rfl, fun n => (Int.one_mul n).symm⟩

/-- A sign is taken off a text in front of which no other one stands. -/
theorem exists_splitSign {sign t : Text} {unit : Int} (hsign : (sign, unit) ∈ signs)
    (ht : ∀ b ∈ t.head?, b ≠ 0x2b ∧ b ≠ 0x2d) :
    ∃ negative, splitSign (sign ++ t) = (negative, t) ∧ HasUnit negative unit := by
  simp only [signs, List.mem_cons, Prod.mk.injEq, List.not_mem_nil, or_false] at hsign
  obtain ⟨rfl, rfl⟩ | ⟨rfl, rfl⟩ | ⟨rfl, rfl⟩ := hsign
  · refine ⟨false, ?_, fun n => (Int.one_mul n).symm⟩
    rw [List.nil_append]
    fun_cases splitSign t with
    | case1 => simp at ht
    | case2 => simp at ht
    | case3 => rfl
  · exact ⟨false, rfl, fun n => (Int.one_mul n).symm⟩
  · exact ⟨true, rfl, fun n => Int.neg_eq_neg_one_mul n⟩

end Literal

namespace Text

theorem IsPattern.head?_eq {s : Text} {n : Nat} (h : s.IsPattern n) : s.head? = some 0x30 := by
  cases h <;> rfl

theorem IsPlain.isDigit_of_head? {s : Text} {n : Nat} (h : s.IsPlain n) {b : UInt8} (hb : b ∈ s.head?) :
    IsDigit b := by
  obtain ⟨x, rest, d, rfl, ⟨-, rfl | ⟨hletter, -⟩⟩, hd⟩ := h.numeral.exists_cons
  · exact ⟨d, hd, (Option.some_inj.1 hb).symm⟩
  · omega

end Text

namespace Literal

/-! ### Literals -/

/-- The reader takes the sign and the base off and reads the digits that are left. -/
theorem integer_eq_ok_iff {s : Text} {w : Int} :
    integer s = .ok w ↔ ∃ negative numeral base text n value,
      splitSign s.trim = (negative, numeral) ∧ splitBase numeral = (base, text) ∧
      digits base (2 ^ 64) text = .ok n ∧ (if negative = true then -(n : Int) else n) = value ∧
      (base = 10 → -2 ^ 63 ≤ value ∧ value < 2 ^ 63) ∧ w = wrap64 value := by
  unfold integer
  cases s.trim with
  | nil =>
    refine ⟨fun h => (by cases h), ?_⟩
    rintro ⟨_, _, _, _, n, _, ⟨⟩, ⟨⟩, hdigits, -⟩
    cases hdigits
  | cons b rest =>
    rcases hsign : splitSign (b :: rest) with ⟨negative, numeral⟩
    rcases hbase : splitBase numeral with ⟨base, text⟩
    -- The test that the reader makes of a decimal magnitude is one of the signed value.
    have hrange (n : Nat) : (base == 10 && (decide (2 ^ 63 < n) || n == 2 ^ 63 && !negative)) = false ↔
        (base = 10 → -2 ^ 63 ≤ (if negative = true then -(n : Int) else n) ∧
          (if negative = true then -(n : Int) else n) < 2 ^ 63) := by
      cases negative <;> simp <;> omega
    simp only [hsign, hbase, Nat.one_shiftLeft]
    constructor
    · intro h
      cases hdigits : digits base (2 ^ 64) text with
      | error e =>
        simp only [hdigits] at h
        cases h
      | ok n =>
        simp only [hdigits] at h
        split at h
        · cases h
        · rename_i hfits
          cases h
          exact ⟨negative, numeral, base, text, n, _, rfl, hbase, hdigits, rfl,
            (hrange n).1 (Bool.eq_false_iff.2 hfits), rfl⟩
    · rintro ⟨_, _, _, _, n, _, ⟨⟩, hbase', hdigits, rfl, hfits, rfl⟩
      cases hbase.symm.trans hbase'
      simp only [hdigits, (hrange n).2 hfits, Bool.false_eq_true, if_false]

/-- A text is an integer just if it denotes a number without the white space around it, and the integer
has the bits of the number. -/
theorem integer_eq_ok_iff_denotes {s : Text} {n : Int} :
    integer s = .ok n ↔ ∃ w, s.trim.Denotes w ∧ n = (BitVec.ofInt 64 w).toInt := by
  have hwrap (w : Int) : wrap64 w = (BitVec.ofInt 64 w).toInt := by
    rw [BitVec.toInt_ofInt]
    rfl
  simp only [integer_eq_ok_iff, hwrap]
  constructor
  · rintro ⟨negative, numeral, base, text, m, _, hsplit, hbase, hdigits, rfl, hrange, rfl⟩
    obtain ⟨sign, unit, hsign, htrim, hunit⟩ := exists_of_splitSign hsplit
    rw [htrim]
    rw [hunit m] at hrange ⊢
    refine ⟨unit * m, ?_, rfl⟩
    by_cases hten : base = 10
    · have hplain : numeral.IsPlain m ∧ m < 2 ^ 64 := by
        rw [isPlain_iff, hbase]
        exact ⟨hten, hdigits⟩
      exact .plain hsign hplain.1 (hrange hten).1 (hrange hten).2
    · have hpattern : numeral.IsPattern m := by
        rw [isPattern_iff, hbase]
        exact ⟨hten, hdigits⟩
      exact .pattern hsign hpattern
  · rintro ⟨w, hdenotes, rfl⟩
    generalize htrim : s.trim = t at hdenotes
    cases hdenotes with
    | @pattern sign s unit m hsign h =>
      have hzero : ∀ b ∈ s.head?, b ≠ 0x2b ∧ b ≠ 0x2d := by
        rw [h.head?_eq]
        rintro b ⟨⟩
        decide
      obtain ⟨negative, hsplit, hunit⟩ := exists_splitSign hsign hzero
      obtain ⟨hten, hdigits⟩ := isPattern_iff.1 h
      exact ⟨negative, s, _, _, m, _, hsplit, rfl, hdigits, hunit m, fun h => absurd h hten, rfl⟩
    | @plain sign s unit m hsign h hlow hhigh =>
      have hdigit : ∀ b ∈ s.head?, b ≠ 0x2b ∧ b ≠ 0x2d := fun b hb =>
        ⟨(h.isDigit_of_head? hb).ne.1, (h.isDigit_of_head? hb).ne.2.1⟩
      obtain ⟨negative, hsplit, hunit⟩ := exists_splitSign hsign hdigit
      -- The digits reach further than the range, so they are read to their end.
      have hfits : m < 2 ^ 64 := by
        simp only [signs, List.mem_cons, Prod.mk.injEq, List.not_mem_nil, or_false] at hsign
        obtain ⟨-, rfl⟩ | ⟨-, rfl⟩ | ⟨-, rfl⟩ := hsign <;> omega
      obtain ⟨hten, hdigits⟩ := isPlain_iff.1 ⟨h, hfits⟩
      exact ⟨negative, s, _, _, m, _, hsplit, rfl, hdigits, hunit m, fun _ => ⟨hlow, hhigh⟩, rfl⟩

end Literal

/-! ### Decimal numerals in a line -/

theorem Text.not_mem_separators_of_mem_decimal {n : Int} {b : UInt8} (h : b ∈ decimal n) :
    b ∉ separators := by
  have hdigit : ∀ d < 10, digit d ∉ separators := by decide
  rcases isDigit_of_mem_decimal h with rfl | ⟨d, hd, rfl⟩
  · decide
  · exact hdigit d hd

theorem Text.decimal_ne_nil (n : Int) : decimal n ≠ [] := by
  unfold decimal
  split
  · exact List.cons_ne_nil _ _
  · exact digits_ne_nil _

namespace Vocabulary

variable {v : Vocabulary} {line : SourceLine}

/-- A decimal numeral behind a separator, where the number does not go on, is a token. -/
theorem exists_token_decimal {front rest : Text} {b : UInt8} {n : Int} (hlow : -2 ^ 63 ≤ n)
    (hhigh : n < 2 ^ 63) (htext : line.text = front ++ b :: (decimal n ++ rest))
    (hfree : ∀ t ∈ (v.tokenize line).1.tokens, ¬t.Covers front.length)
    (hrest : ∀ g ∈ (glyphs rest).head?, Lexeme.isNumberPart g.char = false) :
    ∃ t ∈ (v.tokenize line).1.tokens, t.offset = front.length + 1 ∧ t.text = decimal n ∧
      t.kind = .classify n ∧ t.value = n := by
  have hlength : (front ++ [b]).length = front.length + 1 := List.length_append
  have hdrop : line.text.drop (front.length + 1) = decimal n ++ rest := by
    rw [htext, ← List.singleton_append, ← List.append_assoc]
    exact List.drop_left' hlength
  obtain ⟨x, xs, hcons⟩ := List.exists_cons_of_ne_nil (decimal_ne_nil n)
  have hx : x ∉ separators := not_mem_separators_of_mem_decimal (hcons ▸ List.mem_cons_self ..)
  have hsplit : line.text = (front ++ [b]) ++ x :: (xs ++ rest) := by
    rw [htext, hcons, List.append_assoc]
    rfl
  obtain ⟨t, ht, hoffset⟩ : ∃ t ∈ (v.tokenize line).1.tokens, t.offset = (front ++ [b]).length := by
    refine exists_token_at hsplit hx fun t ht hbefore => ?_
    by_contra hreaches
    exact hfree t ht ⟨by omega, by omega⟩
  rw [hlength] at hoffset
  obtain ⟨g, behind, l, hglyphs, hread, hgives⟩ := exists_read_of_free ht hoffset hfree
  obtain ⟨g', gs, hnumeral, hdecimal⟩ := v.read_decimal hlow hhigh hrest
  rw [hdrop, glyphs_ascii_append fun b hb => decimal_lt_ascii hb, hnumeral, List.cons_append] at hglyphs
  obtain ⟨rfl, rfl⟩ := List.cons.inj hglyphs
  obtain rfl := Option.some_inj.1 (hread.symm.trans hdecimal)
  refine ⟨t, ht, hoffset, ?_, hgives.kind, hgives.value⟩
  rw [hgives.text, List.take_left, ← hnumeral, ofGlyphs_map_asciiGlyph]

/-- The integer literals are the texts that denote a number, and a literal is the signed 64-bit number
with the bits of what it denotes. A signed 64-bit number is read from its decimal numeral, and where
this stands in a line behind a separator it is the token of that number. -/
theorem reads_integers (v : Vocabulary) :
    (∀ s n, Literal.integer s = .ok n ↔ ∃ w, s.trim.Denotes w ∧ n = (BitVec.ofInt 64 w).toInt) ∧
    ∀ n, -2 ^ 63 ≤ n → n < 2 ^ 63 →
      Literal.integer (decimal n) = .ok n ∧
      ∀ (line : SourceLine) (front rest : Text) (b : UInt8),
        line.text = front ++ b :: (decimal n ++ rest) →
        (∀ t ∈ (v.tokenize line).1.tokens, ¬t.Covers front.length) →
        (∀ g ∈ (glyphs rest).head?, Lexeme.isNumberPart g.char = false) →
        ∃ t ∈ (v.tokenize line).1.tokens, t.offset = front.length + 1 ∧ t.text = decimal n ∧
          t.kind = .classify n ∧ t.value = n :=
  ⟨fun _ _ => Literal.integer_eq_ok_iff_denotes, fun _ hlow hhigh =>
    ⟨Literal.integer_decimal hlow hhigh, fun _ _ _ _ htext hfree hrest =>
      exists_token_decimal hlow hhigh htext hfree hrest⟩⟩

/-- All bits set and then negated, a digit that is not octal behind a zero, and the least of the signed
numbers in front of a sum. -/
theorem reads_integers_edges :
    let v := Rv32im.registry.vocabulary true
    let line : SourceLine := ⟨"li t0,-9223372036854775808+1", "a.s", 1⟩
    Literal.integer "\t-0XFFFFFFFFFFFFFFFF " = .ok 1 ∧ (¬∃ w, Denotes "-018" w) ∧
      ∃ t ∈ (v.tokenize line).1.tokens, t.offset = 6 ∧ t.text = "-9223372036854775808" ∧
        t.kind = .classify (-2 ^ 63) ∧ t.value = -2 ^ 63 := by
  intro v line
  obtain ⟨hliterals, hdecimal⟩ := reads_integers v
  refine ⟨?_, ?_, ?_⟩
  · have htrim : ("\t-0XFFFFFFFFFFFFFFFF " : Text).trim
        = [0x2d] ++ 0x30 :: 0x58 :: List.replicate 16 0x46 := by
      decide +kernel
    have hdigit : IsDigitOf 16 0x46 15 := ⟨by decide, by decide⟩
    have hnumeral : IsNumeral 16 (List.replicate 16 0x46) (2 ^ 64 - 1) :=
      ⟨by decide, List.replicate 16 15, by simp [List.replicate, hdigit], by decide⟩
    refine (hliterals _ _).2 ⟨-1 * (2 ^ 64 - 1 : Nat), ?_, by decide⟩
    rw [htrim]
    exact .pattern (by decide) (.based (by decide) hnumeral (by decide))
  · rintro ⟨w, hw⟩
    have htrim : ("-018" : Text).trim = "-018" := by decide +kernel
    have hrefused : (Literal.integer "-018").isOk = false := by decide +kernel
    have hread := (hliterals "-018" _).2 ⟨w, htrim.symm ▸ hw, rfl⟩
    rw [hread] at hrefused
    cases hrefused
  · have hvalue : decimal (-2 ^ 63) = "-9223372036854775808" := by decide +kernel
    obtain ⟨-, htoken⟩ := hdecimal (-2 ^ 63) (by decide) (by decide)
    rw [hvalue] at htoken
    exact htoken line "li t0" "+1" 0x2c (by decide +kernel) (by simp only [Token.Covers]; decide +kernel)
      (by decide +kernel)

end Vocabulary

end Rv32Assembler
