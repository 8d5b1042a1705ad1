import Rv32Assembler.Proofs.Substitution
/-!
# Where lexemes end

What a lexeme takes of a line is decided by the characters in it and, at most, the one behind it. So
it is the same in front of other characters that no word goes on into (`Lexeme.read_take_append`). Two
sorts are not so tame: a sign looks at what stands before it, and a number goes on over a sign when it
stops with an `e`. A number that comes in from elsewhere ends where one does that begins here, or in
front of a sign in that one (`Lexeme.numberLength_of_flag`).
-/

namespace Rv32Assembler

open Text

namespace Lexeme

/-! ### Characters of words and numbers -/

theorem isWordPart_of_isNumberPart {c : Char} (h : isNumberPart c = true) : isWordPart c = true := by
  simp only [isNumberPart, isWordPart, isWordStart, Bool.or_eq_true, beq_iff_eq] at h ⊢
  tauto

theorem isWordStart_of_isNumberPart {c : Char} (h : isNumberPart c = true)
    (hdigit : isDecimalDigit c = false) : isWordStart c = true := by
  simp only [isNumberPart, isWordStart, hdigit, Bool.or_eq_true, beq_iff_eq] at h ⊢
  tauto

theorem isWordStart_of_isWordPart {c : Char} (h : isWordPart c = true)
    (hnumber : isNumberPart c = false) : isWordStart c = true := by
  simp only [isNumberPart, isWordPart, Bool.or_eq_true, Bool.or_eq_false_iff] at h hnumber
  exact h.resolve_right (by simp [hnumber.1.1.1])

/-- A character that is neither white space nor stands for a stray byte. -/
def IsSolid (c : Char) : Prop := isBlank c = false ∧ c ≠ replacement

instance (c : Char) : Decidable (IsSolid c) := inferInstanceAs (Decidable (_ ∧ _))

theorem not_isBlank_of_isWordPart {c : Char} (h : isWordPart c = true) : isBlank c = false := by
  have hblanks : ∀ n ∈ [9, 10, 11, 12, 13, 0x20, 0x85, 0xa0, 0x1680, 0x2000, 0x2001, 0x2002, 0x2003,
      0x2004, 0x2005, 0x2006, 0x2007, 0x2008, 0x2009, 0x200a, 0x2028, 0x2029, 0x202f, 0x205f, 0x3000],
      isWordPart (Char.ofNat n) = false := by
    decide +kernel
  rw [← Bool.not_eq_true]
  intro hblank
  have hchar := hblanks c.toNat (by
    simp only [isBlank, Bool.or_eq_true, Bool.and_eq_true, decide_eq_true_eq, beq_iff_eq] at hblank
    simp only [List.mem_cons, List.not_mem_nil, or_false]
    omega)
  rw [Char.ofNat_toNat, h] at hchar
  cases hchar

theorem isSolid_of_isWordPart {c : Char} (h : isWordPart c = true) : IsSolid c :=
  ⟨not_isBlank_of_isWordPart h, ne_replacement_of_isWordPart h⟩

theorem isSolid_of_isSign {c : Char} (h : isSign c = true) : IsSolid c := by
  simp only [isSign, Bool.or_eq_true, beq_iff_eq] at h
  rcases h with rfl | rfl <;> decide

theorem isWordPart_of_isDecimalDigit {c : Char} (h : isDecimalDigit c = true) :
    isWordPart c = true := by
  simp [isWordPart, h]

theorem isNumberPart_of_isDecimalDigit {c : Char} (h : isDecimalDigit c = true) :
    isNumberPart c = true := by
  simp [isNumberPart, h]

theorem not_isWordPart_of_isSign {c : Char} (h : isSign c = true) : isWordPart c = false := by
  simp only [isSign, Bool.or_eq_true, beq_iff_eq] at h
  rcases h with rfl | rfl <;> decide

theorem not_isNumberPart_of_not_isWordPart {c : Char} (h : isWordPart c = false) :
    isNumberPart c = false :=
  Bool.eq_false_iff.2 fun hpart => Bool.eq_false_iff.1 h (isWordPart_of_isNumberPart hpart)

theorem not_isDecimalDigit_of_not_isNumberPart {c : Char} (h : isNumberPart c = false) :
    isDecimalDigit c = false :=
  Bool.eq_false_iff.2 fun hdigit => Bool.eq_false_iff.1 h (isNumberPart_of_isDecimalDigit hdigit)

theorem not_isDecimalDigit_of_not_isWordPart {c : Char} (h : isWordPart c = false) :
    isDecimalDigit c = false :=
  not_isDecimalDigit_of_not_isNumberPart (not_isNumberPart_of_not_isWordPart h)

theorem isWordPart_of_mem_take_wordLength {gs : List Glyph} {g : Glyph}
    (h : g ∈ gs.take (wordLength gs)) : isWordPart g.char = true := by
  have htake : gs.take (wordLength gs) = gs.takeWhile fun g => isWordPart g.char :=
    (List.prefix_iff_eq_take.1 (List.takeWhile_prefix _)).symm
  rw [htake] at h
  exact List.all_eq_true.1 List.all_takeWhile g h

/-! ### Where numbers end -/

/-- The character continues a number after `last`. -/
def continues (hexadecimal : Bool) (last : Char) (g : Glyph) : Bool :=
  isNumberPart g.char || (isSign g.char && (last == 'e' || last == 'E') && !hexadecimal)

theorem numberLength_cons (hexadecimal : Bool) (last : Char) (g : Glyph) (rest : List Glyph) :
    numberLength hexadecimal last (g :: rest) =
      if continues hexadecimal last g then
        numberLength (hexadecimal || (last == '0' && (g.char == 'x' || g.char == 'X'))) g.char rest + 1
      else 0 := rfl

/-- What is read after part of a number depends on that part by two things only. -/
theorem numberLength_append (hexadecimal : Bool) (last : Char) (a : List Glyph) :
    (numberLength hexadecimal last a < a.length ∧
      ∀ b, numberLength hexadecimal last (a ++ b) = numberLength hexadecimal last a) ∨
    ∃ hexadecimal' last', ∀ b,
      numberLength hexadecimal last (a ++ b) = a.length + numberLength hexadecimal' last' b := by
  induction a generalizing hexadecimal last with
  | nil => exact .inr ⟨hexadecimal, last, fun b => by simp⟩
  | cons g a ih =>
    by_cases hg : continues hexadecimal last g = true
    · rcases ih (hexadecimal || (last == '0' && (g.char == 'x' || g.char == 'X'))) g.char with
        ⟨hlt, hsame⟩ | ⟨hexadecimal', last', hrest⟩
      · refine .inl ⟨?_, fun b => ?_⟩
        · rw [numberLength_cons, if_pos hg, List.length_cons]
          omega
        · rw [List.cons_append, numberLength_cons, if_pos hg, hsame, numberLength_cons, if_pos hg]
      · refine .inr ⟨hexadecimal', last', fun b => ?_⟩
        rw [List.cons_append, numberLength_cons, if_pos hg, hrest, List.length_cons]
        omega
    · refine .inl ⟨?_, fun b => ?_⟩
      · rw [numberLength_cons, if_neg hg]
        exact Nat.succ_pos _
      · rw [List.cons_append, numberLength_cons, if_neg hg, numberLength_cons, if_neg hg]

/-- What is read of a number does not depend on what follows. -/
theorem numberLength_take_append (hexadecimal : Bool) (last : Char) (gs : List Glyph) :
    ∃ hexadecimal' last', ∀ b,
      numberLength hexadecimal last (gs.take (numberLength hexadecimal last gs) ++ b) =
        numberLength hexadecimal last gs + numberLength hexadecimal' last' b := by
  have hle := numberLength_le hexadecimal last gs
  generalize hn : numberLength hexadecimal last gs = n at *
  rcases numberLength_append hexadecimal last (gs.take n) with ⟨hlt, hsame⟩ | ⟨hexadecimal', last', hmore⟩
  · have hall := hsame (gs.drop n)
    rw [List.take_append_drop, hn] at hall
    rw [List.length_take_of_le hle] at hlt
    omega
  · refine ⟨hexadecimal', last', fun b => ?_⟩
    rw [hmore b, List.length_take_of_le hle]

theorem isSolid_of_mem_take_numberLength {hexadecimal : Bool} {last : Char} {gs : List Glyph} {g : Glyph}
    (h : g ∈ gs.take (numberLength hexadecimal last gs)) : IsSolid g.char := by
  induction gs generalizing hexadecimal last with
  | nil => simp at h
  | cons x gs ih =>
    rw [numberLength_cons] at h
    split at h
    · rename_i hx
      rw [List.take_succ_cons] at h
      rcases List.mem_cons.1 h with rfl | h
      · rw [continues, Bool.or_eq_true] at hx
        rcases hx with hpart | hsign
        · exact isSolid_of_isWordPart (isWordPart_of_isNumberPart hpart)
        · simp only [Bool.and_eq_true] at hsign
          exact isSolid_of_isSign hsign.1.1
      · exact ih h
    · simp at h

theorem numberLength_eq_zero {hexadecimal : Bool} {last : Char} {g : Glyph} (rest : List Glyph)
    (hpart : isNumberPart g.char = false) (hsign : isSign g.char = false) :
    numberLength hexadecimal last (g :: rest) = 0 := by
  rw [numberLength_cons, continues, hpart, hsign]
  rfl

theorem numberLength_eq_zero_of_head? {hexadecimal : Bool} {last : Char} {gs ns : List Glyph}
    (hhead : gs.head? = ns.head?) (h : numberLength hexadecimal last gs = 0) :
    numberLength hexadecimal last ns = 0 := by
  cases gs with
  | nil =>
    cases ns with
    | nil => rfl
    | cons n ns => cases hhead
  | cons g gs =>
    cases ns with
    | nil => cases hhead
    | cons n ns =>
      cases hhead
      rw [numberLength_cons] at h ⊢
      split at h
      · cases h
      · rename_i hg
        rw [if_neg hg]

theorem numberLength_take_append_of_split {hexadecimal : Bool} {last : Char} {gs xs ys : List Glyph}
    (hsplit : gs.drop (numberLength hexadecimal last gs) = xs ++ ys) :
    numberLength hexadecimal last (gs.take (numberLength hexadecimal last gs) ++ xs)
      = numberLength hexadecimal last gs := by
  obtain ⟨hexadecimal', last', hmore⟩ := numberLength_take_append hexadecimal last gs
  have hzero : numberLength hexadecimal' last' (xs ++ ys) = 0 := by
    have hall := hmore (xs ++ ys)
    rw [← hsplit, List.take_append_drop] at hall
    rw [← hsplit]
    omega
  rw [hmore xs]
  cases xs with
  | nil => rfl
  | cons x xs =>
    have hhead : (x :: xs ++ ys).head? = (x :: xs).head? := rfl
    rw [numberLength_eq_zero_of_head? hhead hzero, Nat.add_zero]

theorem numberLength_digit {hexadecimal : Bool} {last : Char} {d : Glyph} (rest : List Glyph)
    (hd : isDecimalDigit d.char = true) :
    numberLength hexadecimal last (d :: rest) = numberLength hexadecimal d.char rest + 1 := by
  have hmark : (d.char == 'x' || d.char == 'X') = false := by
    simp only [← Bool.not_eq_true, Bool.or_eq_true, beq_iff_eq]
    rintro (h | h) <;>
    · rw [h] at hd
      revert hd
      decide
  rw [numberLength_cons, continues, isNumberPart_of_isDecimalDigit hd, Bool.true_or, if_pos rfl, hmark,
    Bool.and_false, Bool.or_false]

/-- Only a number without a hexadecimal prefix goes on over a sign. -/
theorem numberLength_sign {hexadecimal : Bool} {last : Char} {s : Glyph} {rest : List Glyph}
    (hs : isSign s.char = true) (h : numberLength hexadecimal last (s :: rest) ≠ 0) :
    numberLength hexadecimal last (s :: rest) = numberLength false s.char rest + 1 := by
  have hpart := not_isNumberPart_of_not_isWordPart (not_isWordPart_of_isSign hs)
  rw [numberLength_cons] at h ⊢
  split at h
  · rename_i hcontinues
    rw [if_pos hcontinues]
    rw [continues, hpart, hs] at hcontinues
    simp only [Bool.false_or, Bool.true_and, Bool.and_eq_true, Bool.or_eq_true, beq_iff_eq,
      Bool.not_eq_true'] at hcontinues
    obtain ⟨rfl | rfl, rfl⟩ := hcontinues <;> rfl
  · exact absurd rfl h

/-- A number goes on over a sign and a digit just as one that begins with the digit. -/
theorem numberLength_sign_digit {hexadecimal : Bool} {last : Char} {s d : Glyph} {rest : List Glyph}
    (hs : isSign s.char = true) (hd : isDecimalDigit d.char = true)
    (h : numberLength hexadecimal last (s :: d :: rest) ≠ 0) :
    numberLength hexadecimal last (s :: d :: rest) = numberLength false d.char rest + 2 := by
  rw [numberLength_sign hs h, numberLength_digit rest hd]

/-- A number that comes in goes as far as one that begins here and on from there, or it stops before
that, in front of a sign. -/
theorem numberLength_of_flag {own incoming : Bool} (h : own = true → incoming = true) (last : Char)
    (gs : List Glyph) :
    (∃ j s rest hexadecimal' last', gs.drop j = s :: rest ∧ isSign s.char = true ∧
        numberLength hexadecimal' last' (s :: rest) ≠ 0 ∧
        numberLength own last gs = j + numberLength hexadecimal' last' (s :: rest) ∧
        ∀ b, numberLength incoming last (gs.take (numberLength own last gs) ++ b) = j) ∨
      ∃ hexadecimal' last', ∀ b, numberLength incoming last (gs.take (numberLength own last gs) ++ b)
        = numberLength own last gs + numberLength hexadecimal' last' b := by
  induction gs generalizing own incoming last with
  | nil => exact .inr ⟨incoming, last, fun b => by simp [numberLength]⟩
  | cons g gs ih =>
    by_cases hown : continues own last g = true
    · have hlength : numberLength own last (g :: gs) = numberLength
          (own || (last == '0' && (g.char == 'x' || g.char == 'X'))) g.char gs + 1 := by
        rw [numberLength_cons, if_pos hown]
      by_cases hincoming : continues incoming last g = true
      · have hmore (b : List Glyph) : numberLength incoming last (g :: b) = numberLength
            (incoming || (last == '0' && (g.char == 'x' || g.char == 'X'))) g.char b + 1 := by
          rw [numberLength_cons, if_pos hincoming]
        have hflag : (own || (last == '0' && (g.char == 'x' || g.char == 'X'))) = true →
            (incoming || (last == '0' && (g.char == 'x' || g.char == 'X'))) = true := by
          simp only [Bool.or_eq_true]
          exact Or.imp_left h
        rw [hlength, List.take_succ_cons]
        rcases ih hflag g.char with
          ⟨j, s, rest, hexadecimal', last', hdrop, hs, hne, hsum, hstop⟩ | ⟨hexadecimal', last', hover⟩
        · refine .inl ⟨j + 1, s, rest, hexadecimal', last', hdrop, hs, hne, by omega, fun b => ?_⟩
          rw [List.cons_append, hmore, hstop]
        · refine .inr ⟨hexadecimal', last', fun b => ?_⟩
          rw [List.cons_append, hmore, hover]
          omega
      · -- Only a sign continues the one number and not the other.
        have hsign : isSign g.char = true := by
          simp only [continues, Bool.or_eq_true, Bool.and_eq_true, not_or] at hown hincoming
          exact (hown.resolve_left hincoming.1).1.1
        refine .inl ⟨0, g, gs, own, last, rfl, hsign, by omega, by omega, fun b => ?_⟩
        rw [hlength, List.take_succ_cons, List.cons_append, numberLength_cons, if_neg hincoming]
    · have hzero : numberLength own last (g :: gs) = 0 := by rw [numberLength_cons, if_neg hown]
      rw [hzero]
      exact .inr ⟨incoming, last, fun b => by simp⟩

theorem not_isNumberPart_of_numberLength (hexadecimal : Bool) (last : Char) (gs : List Glyph) :
    ∀ g ∈ (gs.drop (numberLength hexadecimal last gs)).head?, isNumberPart g.char = false := by
  induction gs generalizing hexadecimal last with
  | nil => simp
  | cons g gs ih =>
    rw [numberLength_cons]
    split
    · rw [List.drop_succ_cons]
      exact ih _ _
    · rename_i hg
      rintro _ ⟨⟩
      rw [continues, Bool.or_eq_true, not_or, Bool.not_eq_true] at hg
      exact hg.1

theorem ne_identifier_number (text : Text) (extra : Nat) : (number text extra).kind ≠ .identifier := by
  unfold number Kind.classify
  repeat' split
  all_goals simp [wrong]

theorem read_of_isDecimalDigit {v : Vocabulary} {after : Bool} {g : Glyph} (rest : List Glyph)
    (h : isDecimalDigit g.char = true) :
    read v after g rest = some (number (ofGlyphs (g :: rest.take (numberLength false g.char rest)))
      (numberLength false g.char rest)) := by
  have hspecial : isSpecial g.char = false := by
    rw [← Bool.not_eq_true]
    intro hspecial
    simp only [isSpecial, isSeparator, isSign, Bool.or_eq_true, beq_iff_eq, or_assoc] at hspecial
    rcases hspecial with hc | hc | hc | hc | hc | hc | hc | hc | hc | hc <;>
    · rw [hc] at h
      revert h
      decide
  simp only [isSpecial, Bool.or_eq_false_iff] at hspecial
  obtain ⟨⟨⟨⟨⟨hseparator, hcomment⟩, hquote⟩, hcharacter⟩, hparameter⟩, -⟩ := hspecial
  simp [read, hseparator, hcomment, hquote, hcharacter, hparameter, h]

/-- A sign is a token of its own behind a value. -/
theorem read_of_isSign {v : Vocabulary} {after : Bool} {g : Glyph} (rest : List Glyph)
    (h : isSign g.char = true) :
    read v after g rest = some (if after then { kind := if g.char == '-' then .minus else .plus, extra := 0 }
      else signed g rest) := by
  simp only [isSign, Bool.or_eq_true, beq_iff_eq] at h
  have hdigit : isDecimalDigit '-' = false ∧ isDecimalDigit '+' = false := by decide
  rcases h with hc | hc <;> cases after <;> simp [read, hc, isSeparator, isSign, hdigit]

/-! ### Where quotes are closed -/

theorem closing?_take_append {mark : Char} {gs : List Glyph} {n : Nat} (h : closing? mark gs = some n)
    (rest : List Glyph) : closing? mark (gs.take n ++ rest) = some n := by
  fun_induction closing? mark gs generalizing n with
  | case1 => cases h
  | case2 => cases h
  | case3 g hescape next gs ih =>
    obtain ⟨m, hm, rfl⟩ := Option.map_eq_some_iff.1 h
    rw [List.take_succ_cons, List.take_succ_cons, List.cons_append, List.cons_append, closing?.eq_def]
    simp only [hescape, if_true, ih hm, Option.map_some]
  | case4 g gs hescape hmark =>
    cases h
    rw [List.take_succ_cons, List.cons_append, closing?.eq_def]
    simp only [hescape, hmark, if_true, if_false, Bool.false_eq_true]
  | case5 g gs hescape hmark ih =>
    obtain ⟨m, hm, rfl⟩ := Option.map_eq_some_iff.1 h
    rw [List.take_succ_cons, List.cons_append, closing?.eq_def]
    simp only [hescape, hmark, if_false, Bool.false_eq_true, ih hm, Option.map_some]

theorem exists_getLast?_of_closing? {mark : Char} {gs : List Glyph} {n : Nat}
    (h : closing? mark gs = some n) : ∃ g, (gs.take n).getLast? = some g ∧ g.char = mark := by
  fun_induction closing? mark gs generalizing n with
  | case1 => cases h
  | case2 => cases h
  | case3 g _ next gs ih =>
    obtain ⟨m, hm, rfl⟩ := Option.map_eq_some_iff.1 h
    obtain ⟨x, hx, hmark⟩ := ih hm
    exact ⟨x, by simp [List.getLast?_cons, hx], hmark⟩
  | case4 g _ _ hmark =>
    cases h
    exact ⟨g, rfl, eq_of_beq hmark⟩
  | case5 g gs _ _ ih =>
    obtain ⟨m, hm, rfl⟩ := Option.map_eq_some_iff.1 h
    obtain ⟨x, hx, hmark⟩ := ih hm
    exact ⟨x, by simp [List.getLast?_cons, hx], hmark⟩

theorem extra_character {rest : List Glyph} {n : Nat} (h : closing? '\'' rest = some n) :
    (character rest).extra = n := by
  unfold character
  rw [h]
  simp only
  split <;> rfl

theorem signed_of_not_digit {g : Glyph} {rest : List Glyph}
    (h : ∀ d ∈ rest.head?, isDecimalDigit d.char = false) :
    signed g rest = { kind := if g.char == '-' then .minus else .plus, extra := 0 } := by
  cases rest with
  | nil => rfl
  | cons d rest => simp [signed, h d rfl]

theorem signed_of_digit {g d : Glyph} (rest : List Glyph) (h : isDecimalDigit d.char = true) :
    signed g (d :: rest) = number (ofGlyphs (g :: d :: rest.take (numberLength false d.char rest)))
      (numberLength false d.char rest + 1) := by
  simp [signed, h]

/-- A sign is a token of its own unless a digit follows. -/
theorem signed_cases (g : Glyph) (gs : List Glyph) :
    (∃ d rest, gs = d :: rest ∧ isDecimalDigit d.char = true ∧
      signed g gs = number (ofGlyphs (g :: d :: rest.take (numberLength false d.char rest)))
        (numberLength false d.char rest + 1)) ∨
    signed g gs = { kind := if g.char == '-' then .minus else .plus, extra := 0 } := by
  by_cases hnumber : ∃ d ∈ gs.head?, isDecimalDigit d.char = true
  · obtain ⟨d, hhead, hd⟩ := hnumber
    obtain ⟨rest, rfl⟩ : ∃ rest, gs = d :: rest := List.head?_eq_some_iff.1 hhead
    exact .inl ⟨d, rest, rfl, hd, signed_of_digit rest hd⟩
  · refine .inr (signed_of_not_digit fun d hd => ?_)
    exact Bool.eq_false_iff.2 fun hdigit => hnumber ⟨d, hd, hdigit⟩

theorem cases_of_isSign {v : Vocabulary} {after : Bool} {g : Glyph} {gs : List Glyph} {l : Lexeme}
    (hsign : isSign g.char = true) (hread : read v after g gs = some l) :
    (after = false ∧ ∃ d rest, gs = d :: rest ∧ isDecimalDigit d.char = true ∧
      l = number (ofGlyphs (g :: d :: rest.take (numberLength false d.char rest)))
        (numberLength false d.char rest + 1)) ∨
    l = { kind := if g.char == '-' then .minus else .plus, extra := 0 } := by
  rw [read_of_isSign gs hsign] at hread
  obtain rfl := Option.some_inj.1 hread
  cases after with
  | true => exact .inr rfl
  | false =>
    rw [if_neg Bool.false_ne_true]
    exact (signed_cases g gs).imp_left fun h => ⟨rfl, h⟩

theorem quoted_take_append {gs ns : List Glyph}
    (hend : (quoted gs).kind = .error → gs.drop (quoted gs).extra = [] → ns = []) :
    quoted (gs.take (quoted gs).extra ++ ns) = quoted gs := by
  cases hclosing : closing? '"' gs with
  | none =>
    have hopen : quoted gs = wrong gs.length .openString := by rw [quoted, hclosing]
    have hnone : ns = [] := hend (by rw [hopen]; rfl) (by rw [hopen]; exact List.drop_length)
    have htake : gs.take (quoted gs).extra ++ ns = gs := by
      rw [hopen, hnone, List.append_nil]
      exact List.take_length
    rw [htake]
  | some n =>
    have hquoted : quoted gs = { kind := .quotedString, extra := n } := by rw [quoted, hclosing]
    rw [hquoted, quoted, closing?_take_append hclosing]

theorem character_take_append {gs ns : List Glyph}
    (hend : (character gs).kind = .error → gs.drop (character gs).extra = [] → ns = []) :
    character (gs.take (character gs).extra ++ ns) = character gs := by
  cases hclosing : closing? '\'' gs with
  | none =>
    have hopen : character gs = wrong gs.length .openCharacter := by rw [character, hclosing]
    have hnone : ns = [] := hend (by rw [hopen]; rfl) (by rw [hopen]; exact List.drop_length)
    have htake : gs.take (character gs).extra ++ ns = gs := by
      rw [hopen, hnone, List.append_nil]
      exact List.take_length
    rw [htake]
  | some n =>
    have hbounds := of_closing? hclosing
    have htake : (gs.take n ++ ns).take (n - 1) = gs.take (n - 1) := by
      rw [List.take_append_of_le_length (by rw [List.length_take]; omega), List.take_take,
        Nat.min_eq_left (Nat.sub_le ..)]
    rw [extra_character hclosing, character, closing?_take_append hclosing, character, hclosing]
    simp only [htake]

/-- A lexeme other than a number or a sign is the same in front of other characters, if they do not go on
with a word; where a comment or an error ends the line, there must be none. -/
theorem read_take_append {v : Vocabulary} {after : Bool} {g : Glyph} {gs ns : List Glyph} {l : Lexeme}
    (hread : read v after g gs = some l) (hsign : isSign g.char = false)
    (hdigit : isDecimalDigit g.char = false)
    (hend : l.kind = .comment ∨ l.kind = .error → gs.drop l.extra = [] → ns = [])
    (hword : (∀ x ∈ (gs.drop l.extra).head?, isWordPart x.char = false) →
      ∀ x ∈ ns.head?, isWordPart x.char = false) (after' : Bool) :
    read v after' g (gs.take l.extra ++ ns) = some l := by
  have hlength (h : l.extra = wordLength gs) :
      wordLength (gs.take (wordLength gs) ++ ns) = wordLength gs := by
    rw [wordLength_append (fun x hx => isWordPart_of_mem_take_wordLength hx) (hword ?_),
      List.length_take_of_le (wordLength_le gs)]
    rw [h]
    exact not_part_of_wordLength gs
  revert hread
  fun_cases read v after g gs with
  | case1 => rintro ⟨⟩
  | case2 _ hseparator hcomment =>
    rintro ⟨⟩
    rw [hend (.inl rfl) (List.drop_length ..), List.take_length, List.append_nil, read,
      if_neg hseparator, if_pos hcomment]
  | case3 _ hseparator hcomment hquote =>
    rintro ⟨⟩
    rw [read, if_neg hseparator, if_neg hcomment, if_pos hquote,
      quoted_take_append fun h => hend (.inr h)]
  | case4 _ hseparator hcomment hquote hmark =>
    rintro ⟨⟩
    rw [read, if_neg hseparator, if_neg hcomment, if_neg hquote, if_pos hmark,
      character_take_append fun h => hend (.inr h)]
  | case5 _ hseparator hcomment hquote hmark hpercent extra =>
    rintro ⟨⟩
    rw [read, if_neg hseparator, if_neg hcomment, if_neg hquote, if_neg hmark, if_pos hpercent]
    have hextra : (if extra == 0 then wrong 0 .parameter
        else ({ kind := .macroParameter, extra := extra } : Lexeme)).extra = extra := by
      split
      · rename_i hzero
        exact (eq_of_beq hzero).symm
      · rfl
    have hsame : wordLength (gs.take extra ++ ns) = extra := hlength hextra
    simp only [hextra, hsame]
  | case6 _ _ _ _ _ _ h => exact absurd h (by simpa using hdigit)
  | case7 _ _ _ _ _ _ _ h | case8 _ _ _ _ _ _ _ h => exact absurd h (by simpa using hsign)
  | case9 _ hseparator hcomment hquote hmark hpercent hnumber hnosign hstart extra =>
    rintro ⟨⟩
    have hsame : wordLength (gs.take extra ++ ns) = extra := hlength rfl
    have htake : (gs.take extra ++ ns).take extra = gs.take extra :=
      List.take_left' (List.length_take_of_le (wordLength_le gs))
    rw [read_of_isWordStart hstart, hsame, htake]
  | case10 _ hseparator hcomment hquote hmark hpercent hnumber hnosign hstart hchar =>
    rintro ⟨⟩
    rw [read, if_neg hseparator, if_neg hcomment, if_neg hquote, if_neg hmark, if_neg hpercent,
      if_neg hnumber, if_neg hnosign, if_neg hstart, if_pos hchar]
  | case11 _ hseparator hcomment hquote hmark hpercent hnumber hnosign hstart hleft hchar =>
    rintro ⟨⟩
    rw [read, if_neg hseparator, if_neg hcomment, if_neg hquote, if_neg hmark, if_neg hpercent,
      if_neg hnumber, if_neg hnosign, if_neg hstart, if_neg hleft, if_pos hchar]
  | case12 _ hseparator hcomment hquote hmark hpercent hnumber hnosign hstart hleft hright hchar =>
    rintro ⟨⟩
    rw [read, if_neg hseparator, if_neg hcomment, if_neg hquote, if_neg hmark, if_neg hpercent,
      if_neg hnumber, if_neg hnosign, if_neg hstart, if_neg hleft, if_neg hright, if_pos hchar]
  | case13 _ hseparator hcomment hquote hmark hpercent hnumber hnosign hstart hleft hright hcolon =>
    rintro ⟨⟩
    rw [read, if_neg hseparator, if_neg hcomment, if_neg hquote, if_neg hmark, if_neg hpercent,
      if_neg hnumber, if_neg hnosign, if_neg hstart, if_neg hleft, if_neg hright, if_neg hcolon]

end Lexeme

end Rv32Assembler
