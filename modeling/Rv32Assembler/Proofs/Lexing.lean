import Rv32Assembler.Proofs.Decimal
/-!
# Tokens and the text they are read from

Two directions. The kind of a token agrees with its text or its value, whatever line it was read
from (`lexed_of_mem_scan`). And a text that is put together from words, decimal numerals, parentheses
and separators is read as exactly these (`tokenize_of_spells`), so what the assembler writes itself it
reads as it meant it.
-/

namespace Rv32Assembler

open Text

/-- A text that is one word. -/
def Text.isWord (s : Text) : Bool :=
  match glyphs s with
  | [] => false
  | g :: gs => Lexeme.isWordStart g.char && gs.all fun g => Lexeme.isWordPart g.char

namespace Lexeme

theorem isWordPart_of_isWordStart {c : Char} (h : isWordStart c = true) : isWordPart c = true := by
  simp [isWordPart, h]

theorem ne_replacement_of_isWordPart {c : Char} (h : isWordPart c = true) : c ≠ replacement := by
  rintro rfl
  have hnone : isWordPart replacement = false := by decide +kernel
  rw [hnone] at h
  cases h

theorem isWhole_of_isWordPart {s : Text} {g : Glyph} (hg : g ∈ glyphs s)
    (hpart : isWordPart g.char = true) : g.IsWhole :=
  isWhole_of_mem_glyphs hg (ne_replacement_of_isWordPart hpart)

end Lexeme

theorem Text.isWord_iff {s : Text} :
    s.isWord = true ↔ ∃ g gs, glyphs s = g :: gs ∧ Lexeme.isWordStart g.char = true ∧
      ∀ x ∈ gs, Lexeme.isWordPart x.char = true := by
  unfold Text.isWord
  cases glyphs s with
  | nil => simp
  | cons g gs =>
    simp only [Bool.and_eq_true, List.all_eq_true, List.cons.injEq]
    constructor
    · intro h
      exact ⟨g, gs, ⟨rfl, rfl⟩, h⟩
    · rintro ⟨_, _, ⟨rfl, rfl⟩, h⟩
      exact h

theorem Text.glyphs_word_append {w : Text} (hw : w.isWord = true) (tail : Text) :
    glyphs (w ++ tail) = glyphs w ++ glyphs tail := by
  obtain ⟨g, gs, hglyphs, hstart, hparts⟩ := isWord_iff.1 hw
  have hwhole : ∀ x ∈ glyphs w, x.IsWhole := by
    intro x hx
    refine Lexeme.isWhole_of_isWordPart hx ?_
    rw [hglyphs] at hx
    rcases List.mem_cons.1 hx with rfl | hx
    · exact Lexeme.isWordPart_of_isWordStart hstart
    · exact hparts x hx
  have happend := glyphs_ofGlyphs_append hwhole tail
  rwa [ofGlyphs_glyphs] at happend

/-! ### Kinds -/

namespace Kind

theorem isInteger_classify (v : Int) : (classify v).isInteger = true := by
  unfold classify
  repeat' split
  all_goals rfl

theorem not_isWord_of_isInteger {k : Kind} (h : k.isInteger = true) :
    k.isLabel = false ∧ k.isRegister = false := by
  revert h
  cases k <;> decide

end Kind

theorem Vocabulary.isInteger_classify (v : Vocabulary) (word : Text) :
    (v.classify word).isInteger = false := by
  unfold Vocabulary.classify
  repeat' split
  all_goals rfl

/-- The kind of a token agrees with its text, if it is a word, and with its value, if it is a
number. -/
structure Token.Lexed (v : Vocabulary) (t : Token) : Prop where
  word : t.kind.isLabel = true ∨ t.kind.isRegister = true →
    t.text.isWord = true ∧ t.kind = v.classify t.text
  integer : t.kind.isInteger = true → t.kind = .classify t.value

namespace Lexeme

/-- What the kind of a lexeme says of it. -/
structure Agrees (v : Vocabulary) (g : Glyph) (rest : List Glyph) (l : Lexeme) : Prop where
  word : l.kind.isLabel = true ∨ l.kind.isRegister = true →
    isWordStart g.char = true ∧ l.extra = wordLength rest ∧
      l.kind = v.classify (ofGlyphs (g :: rest.take l.extra))
  integer : l.kind.isInteger = true → l.kind = .classify l.value

variable {v : Vocabulary} {g : Glyph} {rest : List Glyph}

theorem agrees_of_plain {l : Lexeme} (hlabel : l.kind.isLabel = false)
    (hregister : l.kind.isRegister = false) (hinteger : l.kind.isInteger = false) :
    l.Agrees v g rest := by
  refine ⟨?_, ?_⟩
  · rintro (h | h)
    · rw [hlabel] at h
      cases h
    · rw [hregister] at h
      cases h
  · intro h
    rw [hinteger] at h
    cases h

theorem agrees_of_integer {l : Lexeme} (h : l.kind = .classify l.value) : l.Agrees v g rest := by
  have hplain := Kind.not_isWord_of_isInteger (Kind.isInteger_classify l.value)
  rw [← h] at hplain
  refine ⟨?_, fun _ => h⟩
  rintro (hword | hword)
  · rw [hplain.1] at hword
    cases hword
  · rw [hplain.2] at hword
    cases hword

theorem agrees_number (text : Text) (extra : Nat) : (number text extra).Agrees v g rest := by
  unfold number
  split
  · split
    · exact agrees_of_plain rfl rfl rfl
    · exact agrees_of_plain rfl rfl rfl
  · split
    · exact agrees_of_integer rfl
    · exact agrees_of_plain rfl rfl rfl

theorem agrees_sign :
    ({ kind := if g.char == '-' then .minus else .plus, extra := 0 } : Lexeme).Agrees v g rest := by
  cases hminus : g.char == '-' <;> exact agrees_of_plain rfl rfl rfl

theorem agrees_signed : (signed g rest).Agrees v g rest := by
  cases rest with
  | nil => exact agrees_sign
  | cons d more =>
    by_cases hdigit : isDecimalDigit d.char = true
    · simp only [signed, hdigit, if_true]
      exact agrees_number _ _
    · simp only [signed, hdigit, if_false, Bool.false_eq_true]
      exact agrees_sign

theorem agrees_word (h : isWordStart g.char = true) :
    ({ kind := v.classify (ofGlyphs (g :: rest.take (wordLength rest))),
       extra := wordLength rest } : Lexeme).Agrees v g rest := by
  refine ⟨fun _ => ⟨h, rfl, rfl⟩, ?_⟩
  intro hinteger
  rw [Vocabulary.isInteger_classify] at hinteger
  cases hinteger

/-- Every lexeme is what its kind says. -/
theorem agrees_of_read {after : Bool} {l : Lexeme} (h : read v after g rest = some l) :
    l.Agrees v g rest := by
  revert h
  fun_cases read v after g rest with
  | case1 =>
    rintro ⟨⟩
  | case3 =>
    rintro ⟨⟩
    unfold quoted
    split <;> exact agrees_of_plain rfl rfl rfl
  | case4 =>
    rintro ⟨⟩
    unfold character
    split
    · split
      · exact agrees_of_integer rfl
      · exact agrees_of_plain rfl rfl rfl
    · exact agrees_of_plain rfl rfl rfl
  | case5 =>
    rintro ⟨⟩
    split <;> exact agrees_of_plain rfl rfl rfl
  | case6 =>
    rintro ⟨⟩
    exact agrees_number _ _
  | case7 =>
    rintro ⟨⟩
    exact agrees_sign
  | case8 =>
    rintro ⟨⟩
    exact agrees_signed
  | case9 _ _ _ _ _ _ _ _ hstart =>
    rintro ⟨⟩
    exact agrees_word hstart
  | case2 | case10 | case11 | case12 | case13 =>
    rintro ⟨⟩
    exact agrees_of_plain rfl rfl rfl

theorem isWord_ofGlyphs
    (hwhole : ∀ x ∈ g :: rest, isWordPart x.char = true → x.IsWhole)
    (hstart : isWordStart g.char = true) {extra : Nat} (hextra : extra = wordLength rest) :
    (ofGlyphs (g :: rest.take extra)).isWord = true := by
  have htake : rest.take extra = rest.takeWhile fun x => isWordPart x.char := by
    rw [hextra, wordLength]
    exact (List.prefix_iff_eq_take.1 (List.takeWhile_prefix _)).symm
  have hparts : ∀ x ∈ rest.take extra, isWordPart x.char = true := by
    rw [htake]
    exact List.all_eq_true.1 List.all_takeWhile
  refine isWord_iff.2 ⟨g, rest.take extra, glyphs_ofGlyphs ?_, hstart, hparts⟩
  intro x hx
  rcases List.mem_cons.1 hx with rfl | hx
  · exact hwhole x (List.mem_cons_self ..) (isWordPart_of_isWordStart hstart)
  · exact hwhole x (List.mem_cons_of_mem _ (List.mem_of_mem_take hx)) (hparts x hx)

end Lexeme

/-- The tokens of a line are what their kinds say. -/
theorem Vocabulary.lexed_of_mem_scan {v : Vocabulary} {line : SourceLine} {after : Bool}
    {offset column : Nat} {gs : List Glyph}
    (hwhole : ∀ g ∈ gs, Lexeme.isWordPart g.char = true → g.IsWhole) {p : Token × Option LexicalError}
    (hp : p ∈ v.scan line after offset column gs) : p.1.Lexed v := by
  fun_induction Vocabulary.scan v line after offset column gs with
  | case1 => cases hp
  | case2 after offset column g rest hread ih =>
    exact ih (fun x hx => hwhole x (List.mem_cons_of_mem _ hx)) hp
  | case3 after offset column g rest lexeme hread text token ih =>
    rcases List.mem_cons.1 hp with rfl | hp
    · have hagrees := Lexeme.agrees_of_read hread
      refine ⟨?_, hagrees.integer⟩
      intro hkind
      obtain ⟨hstart, hextra, hclassify⟩ := hagrees.word hkind
      refine ⟨Lexeme.isWord_ofGlyphs hwhole hstart hextra, hclassify⟩
    · refine ih (fun x hx => hwhole x ?_) hp
      exact List.mem_cons_of_mem _ (List.mem_of_mem_drop hx)

theorem Vocabulary.lexed_of_mem_tokenizeText {v : Vocabulary} {text : Text} {line : SourceLine}
    {t : Token} (ht : t ∈ (v.tokenizeText text line).1.tokens) : t.Lexed v := by
  obtain ⟨p, hp, rfl⟩ := List.mem_map.1 ht
  exact lexed_of_mem_scan (fun g hg => Lexeme.isWhole_of_isWordPart hg) hp

/-! ### Texts that spell tokens -/

/-- What a token says, without its place. -/
def Token.content (t : Token) : Kind × Text × Int := (t.kind, t.text, t.value)

/-- A word or a number may end in front of the text. -/
def Text.endsWord (rest : Text) : Bool :=
  match rest with
  | [] => true
  | b :: _ => b == 0x20 || b == 0x2c || b == 0x28 || b == 0x29

/-- The text is put together from the tokens; `after` says that a value ends right before it. -/
inductive Spells (v : Vocabulary) : Bool → Text → List (Kind × Text × Int) → Prop
  | nil (after : Bool) : Spells v after [] []
  | blank {after : Bool} {rest : Text} {ts : List (Kind × Text × Int)} (h : Spells v false rest ts) :
      Spells v after (0x20 :: rest) ts
  | comma {after : Bool} {rest : Text} {ts : List (Kind × Text × Int)} (h : Spells v false rest ts) :
      Spells v after (0x2c :: rest) ts
  | left {after : Bool} {rest : Text} {ts : List (Kind × Text × Int)} (h : Spells v false rest ts) :
      Spells v after (0x28 :: rest) ((.leftParen, [0x28], 0) :: ts)
  | right {after : Bool} {rest : Text} {ts : List (Kind × Text × Int)} (h : Spells v true rest ts) :
      Spells v after (0x29 :: rest) ((.rightParen, [0x29], 0) :: ts)
  | word {after : Bool} {w rest : Text} {ts : List (Kind × Text × Int)} (hword : w.isWord = true)
      (hend : rest.endsWord = true) (h : Spells v (v.classify w).isValue rest ts) :
      Spells v after (w ++ rest) ((v.classify w, w, 0) :: ts)
  | number {n : Int} {rest : Text} {ts : List (Kind × Text × Int)} (hlow : -2 ^ 63 ≤ n)
      (hhigh : n < 2 ^ 63) (hend : rest.endsWord = true) (h : Spells v true rest ts) :
      Spells v false (decimal n ++ rest) ((.classify n, decimal n, n) :: ts)

/-- The character at the end of a word or a number goes on with neither. -/
theorem Text.not_part_of_endsWord {rest : Text} (h : rest.endsWord = true) {g : Glyph}
    (hg : g ∈ (glyphs rest).head?) :
    Lexeme.isWordPart g.char = false ∧ Lexeme.isNumberPart g.char = false := by
  cases rest with
  | nil =>
    rw [glyphs] at hg
    cases hg
  | cons b rest =>
    simp only [endsWord, Bool.or_eq_true, beq_iff_eq, or_assoc] at h
    rcases h with rfl | rfl | rfl | rfl <;>
    · rw [glyphs_cons_ascii (by decide)] at hg
      cases hg
      decide

namespace Lexeme

theorem not_isDecimalDigit_of_isLetter {c : Char} (h : isLetter c = true) :
    isDecimalDigit c = false := by
  have hascii : ∀ n < 128, (Char.ofNat n).isAlpha = true → (Char.ofNat n).isDigit = false := by
    decide
  have htables : (letterRanges.all fun l => digitRanges.all fun d =>
      l.2.blt d.1 || d.2.blt l.1) = true := by
    decide +kernel
  unfold isLetter at h
  unfold isDecimalDigit
  split at h
  · rename_i hlow
    rw [if_pos hlow]
    have hchar := hascii c.toNat hlow
    rw [Char.ofNat_toNat] at hchar
    exact hchar h
  · rename_i hhigh
    rw [if_neg hhigh]
    obtain ⟨l, hl, hin⟩ := List.any_eq_true.1 h
    refine List.any_eq_false.2 fun d hd => ?_
    have hapart := List.all_eq_true.1 (List.all_eq_true.1 htables l hl) d hd
    rw [Bool.or_eq_true, Nat.blt_eq, Nat.blt_eq] at hapart
    simp only [Bool.and_eq_true, decide_eq_true_eq] at hin ⊢
    omega

/-- A character with a meaning of its own in a line. -/
def isSpecial (c : Char) : Bool :=
  isSeparator c || c == '#' || c == '"' || c == '\'' || c == '%' || isSign c

theorem not_isSpecial_of_isWordStart {c : Char} (h : isWordStart c = true) :
    isSpecial c = false := by
  have hascii : ∀ n < 128, isWordStart (Char.ofNat n) = true → isSpecial (Char.ofNat n) = false := by
    decide
  by_cases hlow : c.toNat < 128
  · have hchar := hascii c.toNat hlow
    rw [Char.ofNat_toNat] at hchar
    exact hchar h
  · have hne {x : Char} (hx : x.toNat < 128) : (c == x) = false := by
      rw [beq_eq_false_iff_ne]
      rintro rfl
      exact hlow hx
    simp [isSpecial, isSeparator, isSign, hne]

theorem not_isDecimalDigit_of_isWordStart {c : Char} (h : isWordStart c = true) :
    isDecimalDigit c = false := by
  simp only [isWordStart, Bool.or_eq_true, beq_iff_eq, or_assoc] at h
  rcases h with h | rfl | rfl | rfl
  · exact not_isDecimalDigit_of_isLetter h
  all_goals decide

theorem read_of_isWordStart {v : Vocabulary} {after : Bool} {g : Glyph} {rest : List Glyph}
    (h : isWordStart g.char = true) :
    read v after g rest
      = some { kind := v.classify (ofGlyphs (g :: rest.take (wordLength rest))),
               extra := wordLength rest } := by
  have hspecial := not_isSpecial_of_isWordStart h
  simp only [isSpecial, Bool.or_eq_false_iff] at hspecial
  obtain ⟨⟨⟨⟨⟨hseparator, hcomment⟩, hquote⟩, hcharacter⟩, hparameter⟩, hsign⟩ := hspecial
  simp [read, hseparator, hcomment, hquote, hcharacter, hparameter, hsign,
    not_isDecimalDigit_of_isWordStart h, h]

theorem read_of_isDigit {v : Vocabulary} {after : Bool} {b : UInt8} {rest : List Glyph}
    (h : IsDigit b) :
    read v after (asciiGlyph b) rest
      = some (number
          (ofGlyphs (asciiGlyph b :: rest.take (numberLength false (asciiGlyph b).char rest)))
          (numberLength false (asciiGlyph b).char rest)) := by
  have hspecial : isSpecial (asciiGlyph b).char = false := by
    obtain ⟨d, hd, rfl⟩ := h
    revert d
    decide
  simp only [isSpecial, Bool.or_eq_false_iff] at hspecial
  obtain ⟨⟨⟨⟨⟨hseparator, hcomment⟩, hquote⟩, hcharacter⟩, hparameter⟩, -⟩ := hspecial
  simp [read, hseparator, hcomment, hquote, hcharacter, hparameter, h.isDecimalDigit]

theorem wordLength_append {gs rest : List Glyph} (hgs : ∀ g ∈ gs, isWordPart g.char = true)
    (hrest : ∀ g ∈ rest.head?, isWordPart g.char = false) :
    wordLength (gs ++ rest) = gs.length := by
  have hstop : rest.takeWhile (fun g => isWordPart g.char) = [] := by
    cases rest with
    | nil => rfl
    | cons g rest => simp [hrest g rfl]
  rw [wordLength, List.takeWhile_append_of_pos hgs, hstop, List.append_nil]

end Lexeme

namespace Vocabulary

variable {v : Vocabulary} {line : SourceLine} {after : Bool} {g : Glyph} {rest : List Glyph}

/-- The glyphs are read as tokens with the given contents. -/
def ReadsAs (v : Vocabulary) (line : SourceLine) (after : Bool) (gs : List Glyph)
    (ts : List (Kind × Text × Int)) : Prop :=
  ∀ offset column, ∃ tokens : List Token, tokens.map Token.content = ts ∧
    v.scan line after offset column gs = tokens.map fun t => (t, none)

theorem readsAs_of_none {ts : List (Kind × Text × Int)} (h : Lexeme.read v after g rest = none)
    (hrest : v.ReadsAs line false rest ts) : v.ReadsAs line after (g :: rest) ts := by
  intro offset column
  obtain ⟨tokens, hcontent, hscan⟩ := hrest (offset + g.bytes.length) (column + 1)
  refine ⟨tokens, hcontent, ?_⟩
  rw [scan]
  simp only [h, hscan]

theorem readsAs_of_some {kind : Kind} {value : Int} {gs : List Glyph}
    {ts : List (Kind × Text × Int)}
    (h : Lexeme.read v after g (gs ++ rest)
      = some { kind := kind, extra := gs.length, value := value })
    (hrest : v.ReadsAs line kind.isValue rest ts) :
    v.ReadsAs line after (g :: gs ++ rest) ((kind, ofGlyphs (g :: gs), value) :: ts) := by
  intro offset column
  obtain ⟨tokens, hcontent, hscan⟩ := hrest
    (offset + (ofGlyphs (g :: gs)).length) (column + 1 + gs.length)
  rw [List.cons_append, scan]
  simp only [h, List.take_left, List.drop_left, hscan]
  exact ⟨_ :: tokens, by rw [List.map_cons, hcontent]; rfl, rfl⟩

theorem read_decimal {n : Int} (hlow : -2 ^ 63 ≤ n) (hhigh : n < 2 ^ 63) {rest : List Glyph}
    (hrest : ∀ g ∈ rest.head?, Lexeme.isNumberPart g.char = false) :
    ∃ g gs, (decimal n).map asciiGlyph = g :: gs ∧
      Lexeme.read v false g (gs ++ rest)
        = some { kind := .classify n, extra := gs.length, value := n } := by
  obtain ⟨b, bs, hdigits⟩ := List.exists_cons_of_ne_nil (digits_ne_nil n.natAbs)
  have hall : ∀ x ∈ b :: bs, IsDigit x := by
    rw [← hdigits]
    exact fun x hx => isDigit_of_mem_digits hx
  have hb := hall b (List.mem_cons_self ..)
  have hbs : ∀ x ∈ bs, IsDigit x := fun x hx => hall x (List.mem_cons_of_mem _ hx)
  obtain ⟨-, hexponent, -⟩ := Lexeme.isNumberPart_of_isDigit hb
  have hlength := Lexeme.numberLength_digits hbs hexponent hrest
  have htext : ofGlyphs (asciiGlyph b :: bs.map asciiGlyph) = b :: bs :=
    ofGlyphs_map_asciiGlyph (b :: bs)
  by_cases hneg : n < 0
  · have hdecimal : decimal n = 0x2d :: b :: bs := by rw [decimal, if_pos hneg, hdigits]
    refine ⟨asciiGlyph 0x2d, (b :: bs).map asciiGlyph, by rw [hdecimal]; rfl, ?_⟩
    have hsigned : Lexeme.read v false (asciiGlyph 0x2d) ((b :: bs).map asciiGlyph ++ rest)
        = some (Lexeme.signed (asciiGlyph 0x2d) ((b :: bs).map asciiGlyph ++ rest)) := rfl
    have htake : ((b :: bs).map asciiGlyph ++ rest).take (bs.length + 1)
        = (b :: bs).map asciiGlyph := List.take_left' (by simp)
    have hwhole : ofGlyphs (asciiGlyph 0x2d :: (b :: bs).map asciiGlyph) = decimal n := by
      rw [hdecimal]
      exact ofGlyphs_map_asciiGlyph (0x2d :: b :: bs)
    rw [hsigned]
    simp only [Lexeme.signed, List.map_cons, List.cons_append, hb.isDecimalDigit, if_true, hlength]
    rw [← List.cons_append, ← List.map_cons, htake, hwhole, Lexeme.number_decimal hlow hhigh]
    simp
  · have hdecimal : decimal n = b :: bs := by rw [decimal, if_neg hneg, hdigits]
    refine ⟨asciiGlyph b, bs.map asciiGlyph, by rw [hdecimal]; rfl, ?_⟩
    have htake : (bs.map asciiGlyph ++ rest).take bs.length = bs.map asciiGlyph :=
      List.take_left' (by simp)
    rw [Lexeme.read_of_isDigit hb, hlength, htake, htext, ← hdecimal,
      Lexeme.number_decimal hlow hhigh]
    simp

theorem readsAs_word {w text : Text} {ts : List (Kind × Text × Int)} (hword : w.isWord = true)
    (hend : ∀ x ∈ (glyphs text).head?, Lexeme.isWordPart x.char = false)
    (h : v.ReadsAs line (v.classify w).isValue (glyphs text) ts) :
    v.ReadsAs line after (glyphs (w ++ text)) ((v.classify w, w, 0) :: ts) := by
  obtain ⟨g, gs, hglyphs, hstart, hparts⟩ := isWord_iff.1 hword
  have hlength := Lexeme.wordLength_append hparts hend
  have htext : ofGlyphs (g :: gs) = w := by rw [← hglyphs, ofGlyphs_glyphs]
  have hread : Lexeme.read v after g (gs ++ glyphs text)
      = some { kind := v.classify w, extra := gs.length } := by
    rw [Lexeme.read_of_isWordStart hstart, hlength, List.take_left, htext]
  have htoken := readsAs_of_some hread h
  rwa [htext, ← hglyphs, ← glyphs_word_append hword] at htoken

/-- A text is read as the tokens that it is put together from. -/
theorem readsAs_of_spells {text : Text} {ts : List (Kind × Text × Int)}
    (h : Spells v after text ts) : v.ReadsAs line after (glyphs text) ts := by
  induction h with
  | nil after =>
    intro offset column
    refine ⟨[], rfl, ?_⟩
    rw [glyphs, scan]
    rfl
  | blank _ ih | comma _ ih =>
    rw [glyphs_cons_ascii (by decide)]
    exact readsAs_of_none rfl ih
  | @left after rest _ _ ih =>
    have hread : Lexeme.read v after (asciiGlyph 0x28) ([] ++ glyphs rest)
        = some { kind := .leftParen, extra := 0 } := rfl
    rw [glyphs_cons_ascii (by decide)]
    exact readsAs_of_some hread ih
  | @right after rest _ _ ih =>
    have hread : Lexeme.read v after (asciiGlyph 0x29) ([] ++ glyphs rest)
        = some { kind := .rightParen, extra := 0 } := rfl
    rw [glyphs_cons_ascii (by decide)]
    exact readsAs_of_some hread ih
  | word hword hend _ ih =>
    exact readsAs_word hword (fun x hx => (not_part_of_endsWord hend hx).1) ih
  | @number n rest ts hlow hhigh hend _ ih =>
    obtain ⟨g, gs, hglyphs, hread⟩ := read_decimal hlow hhigh fun x hx =>
      (not_part_of_endsWord hend hx).2
    have hvalue : (Kind.classify n).isValue = true := by
      simp [Kind.isValue, Kind.isInteger_classify]
    rw [← hvalue] at ih
    have htoken := readsAs_of_some hread ih
    rwa [← hglyphs, ofGlyphs_map_asciiGlyph,
      ← glyphs_ascii_append fun b hb => decimal_lt_ascii hb] at htoken

theorem tokenize_of_readsAs {ts : List (Kind × Text × Int)}
    (h : v.ReadsAs line false (glyphs line.text) ts) :
    ∃ tokens : List Token, tokens.map Token.content = ts ∧
      v.tokenize line = (⟨tokens, line.text, line⟩, []) := by
  obtain ⟨tokens, hcontent, hscan⟩ := h 0 0
  refine ⟨tokens, hcontent, ?_⟩
  simp [tokenize, tokenizeText, hscan, Function.comp_def]

theorem tokenize_of_spells {line : SourceLine} {ts : List (Kind × Text × Int)}
    (h : Spells v false line.text ts) :
    ∃ tokens : List Token, tokens.map Token.content = ts ∧
      v.tokenize line = (⟨tokens, line.text, line⟩, []) :=
  tokenize_of_readsAs (readsAs_of_spells h)

end Vocabulary

end Rv32Assembler
