import Rv32Assembler.Isa.Rv32im
import Rv32Assembler.Proofs.Emission
import Rv32Assembler.Proofs.Lexing
/-!
# String data

A byte string can be spelled between double quotes in many ways (`Spelled`). Whatever the spelling, the
characters of it end at the closing quote and nowhere before (`closing?_of_quotable`), although bytes
that are no part of UTF-8 may stand in front of it; the escapes in it give the bytes back
(`unescape_of_spelled`); and these are stored one by one. So a line with a string directive stores the
byte strings that it spells (`execute_strings`).
-/

namespace Rv32Assembler

open Text

/-! ### Spellings -/

/-- The escapes of one letter or sign and the bytes that they name. -/
def namedEscapes : List (UInt8 × UInt8) :=
  [(0x6e, 0x0a), (0x74, 0x09), (0x72, 0x0d), (0x62, 0x08), (0x66, 0x0c), (0x5c, 0x5c), (0x22, 0x22),
   (0x27, 0x27)]

/-- The byte is the hexadecimal digit for `d` in either case. -/
def IsHex (b : UInt8) (d : Nat) : Prop := d < 16 ∧ (b = digit d ∨ 10 ≤ d ∧ b = UInt8.ofNat (55 + d))

instance (b : UInt8) (d : Nat) : Decidable (IsHex b d) := inferInstanceAs (Decidable (_ ∧ _))

/-- Two octal digits come first. -/
def Text.startsOctal : Text → Bool
  | x :: y :: _ => Literal.isOctal x && Literal.isOctal y
  | _ => false

/-- The first text, between quotes, is a way to write the second. -/
inductive Spelled : Text → Text → Prop
  | nil : Spelled [] []
  | raw {b : UInt8} {s bytes : Text} (hquote : b ≠ 0x22) (hescape : b ≠ 0x5c) (hline : b ≠ 0x0a)
      (h : Spelled s bytes) : Spelled (b :: s) (b :: bytes)
  | named {c b : UInt8} {s bytes : Text} (hnamed : (c, b) ∈ namedEscapes) (h : Spelled s bytes) :
      Spelled (0x5c :: c :: s) (b :: bytes)
  | octal {x y z : Nat} {s bytes : Text} (hx : x < 8) (hy : y < 8) (hz : z < 8)
      (hbyte : 64 * x + 8 * y + z < 256) (h : Spelled s bytes) :
      Spelled (0x5c :: digit x :: digit y :: digit z :: s) (UInt8.ofNat (64 * x + 8 * y + z) :: bytes)
  | null {s bytes : Text} (hnext : s.startsOctal = false) (h : Spelled s bytes) :
      Spelled (0x5c :: 0x30 :: s) (0 :: bytes)
  | code {c : Char} {b₃ b₂ b₁ b₀ : UInt8} {d₃ d₂ d₁ d₀ : Nat} {s bytes : Text} (h₃ : IsHex b₃ d₃)
      (h₂ : IsHex b₂ d₂) (h₁ : IsHex b₁ d₁) (h₀ : IsHex b₀ d₀)
      (hcode : c.toNat = 4096 * d₃ + 256 * d₂ + 16 * d₁ + d₀) (h : Spelled s bytes) :
      Spelled (0x5c :: 0x75 :: b₃ :: b₂ :: b₁ :: b₀ :: s) (encodeChar c ++ bytes)

/-! ### Decoding -/

namespace Literal

theorem of_mem_namedEscapes {p : UInt8 × UInt8} (h : p ∈ namedEscapes) :
    simpleEscape? p.1 = some p.2 ∧ p.1 < 0x80 := by
  have htable : namedEscapes.all (fun p => simpleEscape? p.1 = some p.2 ∧ p.1 < 0x80) = true := by decide
  exact of_decide_eq_true (List.all_eq_true.1 htable p h)

theorem escape_of_named {c b : UInt8} (h : (c, b) ∈ namedEscapes) (rest : Text) :
    escape c rest = ⟨[b], none, 0⟩ := by
  rw [escape, (of_mem_namedEscapes h).1]

theorem escape_digit {d : Nat} (h : d < 8) (rest : Text) :
    escape (digit d) rest = octalEscape (digit d) rest := by
  have htable : ∀ d < 8, simpleEscape? (digit d) = none ∧ isOctal (digit d) = true := by decide
  rw [escape, (htable d h).1]
  simp only [(htable d h).2, if_true]

theorem escape_octal {x y z : Nat} (hx : x < 8) (hy : y < 8) (hz : z < 8)
    (hbyte : 64 * x + 8 * y + z < 256) (rest : Text) :
    escape (digit x) (digit y :: digit z :: rest)
      = ⟨[UInt8.ofNat (64 * x + 8 * y + z)], none, 2⟩ := by
  have hoctal : ∀ d < 8, isOctal (digit d) = true := by decide
  have hvalue : digits 8 256 [digit x, digit y, digit z] = .ok (64 * x + 8 * y + z) := by
    have hfirst : 0 * 8 + x < 256 := by omega
    have hsecond : (0 * 8 + x) * 8 + y < 256 := by omega
    have hsum : ((0 * 8 + x) * 8 + y) * 8 + z = 64 * x + 8 * y + z := by omega
    simp only [digits, digitsFrom, digitValue?_digit (Nat.lt_trans hx (by decide : 8 < 10)),
      digitValue?_digit (Nat.lt_trans hy (by decide : 8 < 10)),
      digitValue?_digit (Nat.lt_trans hz (by decide : 8 < 10)), hx, hy, hz, hfirst, hsecond, hsum,
      hbyte, if_true]
  rw [escape_digit hx, octalEscape]
  simp only [hoctal y hy, hoctal z hz, Bool.and_self, if_true, hvalue]

theorem escape_null {rest : Text} (h : rest.startsOctal = false) : escape 0x30 rest = ⟨[0], none, 0⟩ := by
  have hdigit : (0x30 : UInt8) = digit 0 := rfl
  rw [hdigit, escape_digit (by decide)]
  rcases rest with _ | ⟨x, _ | ⟨y, rest⟩⟩
  · rfl
  · rfl
  · have hnot : (isOctal x && isOctal y) = false := h
    rw [octalEscape]
    simp only [hnot, Bool.false_eq_true, if_false]
    rfl

theorem digitValue?_of_isHex {b : UInt8} {d : Nat} (h : IsHex b d) : digitValue? b = some d := by
  have hlower : ∀ d < 16, digitValue? (digit d) = some d := by decide
  have hupper : ∀ d < 16, 10 ≤ d → digitValue? (UInt8.ofNat (55 + d)) = some d := by decide
  obtain ⟨hd, rfl | ⟨hletter, rfl⟩⟩ := h
  · exact hlower d hd
  · exact hupper d hd hletter

theorem escape_code {c : Char} {b₃ b₂ b₁ b₀ : UInt8} {d₃ d₂ d₁ d₀ : Nat} (h₃ : IsHex b₃ d₃)
    (h₂ : IsHex b₂ d₂) (h₁ : IsHex b₁ d₁) (h₀ : IsHex b₀ d₀)
    (hcode : c.toNat = 4096 * d₃ + 256 * d₂ + 16 * d₁ + d₀) (rest : Text) :
    escape 0x75 (b₃ :: b₂ :: b₁ :: b₀ :: rest) = ⟨encodeChar c, none, 4⟩ := by
  have hvalue : digits 16 (1 <<< 32) [b₃, b₂, b₁, b₀] = .ok c.toNat := by
    have := h₃.1
    have := h₂.1
    have := h₁.1
    have := h₀.1
    have hlimit : (1 <<< 32 : Nat) = 4294967296 := rfl
    simp only [digits, digitsFrom, digitValue?_of_isHex h₃, digitValue?_of_isHex h₂,
      digitValue?_of_isHex h₁, digitValue?_of_isHex h₀, h₃.1, h₂.1, h₁.1, h₀.1, if_true, hlimit]
    repeat' rw [if_pos (by omega)]
    rw [hcode]
    exact congrArg _ (by omega)
  have hvalid : c.toNat.isValidChar := c.valid
  have hencode : encodeCode c.toNat = encodeChar c := by
    rw [encodeCode, if_pos hvalid, Char.ofNat_toNat]
  have hshort : ¬ (b₃ :: b₂ :: b₁ :: b₀ :: rest).length < 4 := by simp
  have hescape : escape 0x75 (b₃ :: b₂ :: b₁ :: b₀ :: rest)
      = codeEscape 0x75 (b₃ :: b₂ :: b₁ :: b₀ :: rest) := rfl
  rw [hescape, codeEscape, if_neg hshort]
  simp only [List.take_succ_cons, List.take_zero, hvalue, hencode]

theorem unescapeFrom_raw (body : Text) {b : UInt8} (hb : b ≠ 0x5c) (rest : Text) :
    unescapeFrom body (b :: rest)
      = (b :: (unescapeFrom body rest).1, (unescapeFrom body rest).2) := by
  have hraw : (b == 0x5c) = false := by simpa using hb
  rw [unescapeFrom.eq_def]
  simp only [hraw, if_false, Bool.false_eq_true]

theorem unescapeFrom_escape (body : Text) (c : UInt8) (rest : Text) :
    unescapeFrom body (0x5c :: c :: rest)
      = ((escape c rest).bytes ++ (unescapeFrom body (rest.drop (escape c rest).extra)).1,
        (escape c rest).problem.or (unescapeFrom body (rest.drop (escape c rest).extra)).2) := by
  rw [unescapeFrom.eq_def]
  rfl

end Literal

theorem unescape_of_spelled {s bytes : Text} (h : Spelled s bytes) :
    Literal.unescape s = (bytes, none) := by
  suffices hfrom : ∀ body, Literal.unescapeFrom body s = (bytes, none) from hfrom s
  intro body
  induction h with
  | nil => rw [Literal.unescapeFrom]
  | raw _ hescape _ _ ih => rw [Literal.unescapeFrom_raw body hescape, ih]
  | named hnamed _ ih =>
    rw [Literal.unescapeFrom_escape, Literal.escape_of_named hnamed, List.drop_zero, ih]
    rfl
  | octal hx hy hz hbyte _ ih =>
    rw [Literal.unescapeFrom_escape, Literal.escape_octal hx hy hz hbyte]
    simp only [List.drop_succ_cons, List.drop_zero, ih]
    rfl
  | null hnext _ ih =>
    rw [Literal.unescapeFrom_escape, Literal.escape_null hnext, List.drop_zero, ih]
    rfl
  | code h₃ h₂ h₁ h₀ hcode _ ih =>
    rw [Literal.unescapeFrom_escape, Literal.escape_code h₃ h₂ h₁ h₀ hcode]
    simp only [List.drop_succ_cons, List.drop_zero, ih]
    rfl

/-! ### Reading the quotes -/

/-- A text in which a quote stands behind a backslash only, and a backslash before a byte of ASCII. -/
inductive Quotable : Text → Prop
  | nil : Quotable []
  | raw {b : UInt8} {s : Text} (hquote : b ≠ 0x22) (hescape : b ≠ 0x5c) (h : Quotable s) :
      Quotable (b :: s)
  | escaped {c : UInt8} {s : Text} (hc : c < 0x80) (h : Quotable s) : Quotable (0x5c :: c :: s)

namespace Quotable

theorem append {s t : Text} (hs : Quotable s) (ht : Quotable t) : Quotable (s ++ t) := by
  induction hs with
  | nil => exact ht
  | raw hquote hescape _ ih => exact .raw hquote hescape ih
  | escaped hc _ ih => exact .escaped hc ih

theorem drop {s : Text} (h : Quotable s) {n : Nat} (hn : ∀ x ∈ s.take n, isTail x = true) :
    Quotable (s.drop n) := by
  induction n generalizing s with
  | zero => exact h
  | succ n ih =>
    cases h with
    | nil => exact .nil
    | raw _ _ h =>
      rw [List.take_succ_cons, List.forall_mem_cons] at hn
      exact ih h hn.2
    | escaped _ _ =>
      rw [List.take_succ_cons, List.forall_mem_cons] at hn
      exact absurd hn.1 (by decide)

end Quotable

theorem IsHex.plain {b : UInt8} {d : Nat} (h : IsHex b d) : b ≠ 0x22 ∧ b ≠ 0x5c := by
  have hlower : ∀ d < 16, digit d ≠ 0x22 ∧ digit d ≠ 0x5c := by decide
  have hupper : ∀ d < 16, UInt8.ofNat (55 + d) ≠ 0x22 ∧ UInt8.ofNat (55 + d) ≠ 0x5c := by decide
  obtain ⟨hd, rfl | ⟨-, rfl⟩⟩ := h
  · exact hlower d hd
  · exact hupper d hd

theorem Spelled.quotable {s bytes : Text} (h : Spelled s bytes) : Quotable s := by
  have hoctal : ∀ d < 8, digit d ≠ 0x22 ∧ digit d ≠ 0x5c ∧ digit d < 0x80 := by decide
  induction h with
  | nil => exact .nil
  | raw hquote hescape _ _ ih => exact .raw hquote hescape ih
  | named hnamed _ ih => exact .escaped (Literal.of_mem_namedEscapes hnamed).2 ih
  | octal hx hy hz _ _ ih =>
    obtain ⟨hyquote, hyescape, -⟩ := hoctal _ hy
    obtain ⟨hzquote, hzescape, -⟩ := hoctal _ hz
    exact .escaped (hoctal _ hx).2.2 (.raw hyquote hyescape (.raw hzquote hzescape ih))
  | null _ _ ih => exact .escaped (by decide) ih
  | code h₃ h₂ h₁ h₀ _ _ ih =>
    exact .escaped (by decide) (.raw h₃.plain.1 h₃.plain.2 (.raw h₂.plain.1 h₂.plain.2
      (.raw h₁.plain.1 h₁.plain.2 (.raw h₀.plain.1 h₀.plain.2 ih))))

namespace Text

variable {b x : UInt8} {rest : Text}

theorem firstGlyph_of_ascii (hb : b < 0x80) (rest : Text) : firstGlyph b rest = (asciiGlyph b, 0) := by
  simp [firstGlyph, sequence?, hb, asciiGlyph]

theorem firstGlyph_char_iff (hx : x < 0x80) :
    (firstGlyph b rest).1.char = (asciiGlyph x).char ↔ b = x := by
  by_cases hb : b < 0x80
  · rw [firstGlyph_of_ascii hb]
    exact ⟨asciiGlyph_char_inj, fun h => by rw [h]⟩
  · refine ⟨fun h => ?_, fun h => absurd (h ▸ hx) hb⟩
    have hcode := (firstGlyph_of_not_ascii hb rest).1
    rw [h, toNat_asciiGlyph] at hcode
    exact absurd (UInt8.lt_iff_toNat_lt.1 hx) (Nat.not_lt.2 hcode)

theorem isTail_of_mem_firstGlyph (hx : x ∈ rest.take (firstGlyph b rest).2) : isTail x = true := by
  by_cases hb : b < 0x80
  · rw [firstGlyph_of_ascii hb] at hx
    cases hx
  · exact (firstGlyph_of_not_ascii hb rest).2 x hx

end Text

namespace Lexeme

theorem closing?_cons {mark : Char} {g : Glyph} (hescape : g.char ≠ '\\') (hmark : g.char ≠ mark)
    (rest : List Glyph) : closing? mark (g :: rest) = (closing? mark rest).map (· + 1) := by
  rw [closing?.eq_def]
  simp [hescape, hmark]

theorem closing?_escape {mark : Char} {g : Glyph} (hescape : g.char = '\\') (c : Glyph)
    (rest : List Glyph) : closing? mark (g :: c :: rest) = (closing? mark rest).map (· + 2) := by
  rw [closing?.eq_def]
  simp [hescape]

theorem closing?_mark {g : Glyph} (hescape : g.char ≠ '\\') (rest : List Glyph) :
    closing? g.char (g :: rest) = some 1 := by
  rw [closing?.eq_def]
  simp [hescape]

theorem closing?_of_quotable {s : Text} (h : Quotable s) (rest : List Glyph) :
    closing? '"' (glyphs s ++ asciiGlyph 0x22 :: rest) = some ((glyphs s).length + 1) := by
  induction hn : s.length using Nat.strongRecOn generalizing s with
  | ind n ih =>
    cases h with
    | nil =>
      rw [glyphs, List.nil_append]
      exact closing?_mark (g := asciiGlyph 0x22) (by decide) rest
    | @raw b s hquote hescape h =>
      have hrest := ih (s.drop (firstGlyph b s).2).length
        (by rw [← hn, List.length_drop, List.length_cons]; omega)
        (h.drop fun x hx => isTail_of_mem_firstGlyph hx) rfl
      rw [glyphs]
      exact (closing?_cons (mt (firstGlyph_char_iff (x := 0x5c) (by decide)).1 hescape)
        (mt (firstGlyph_char_iff (x := 0x22) (by decide)).1 hquote) _).trans
        (congrArg (Option.map (· + 1)) hrest)
    | @escaped c s hc h =>
      have hrest := ih s.length (by rw [← hn, List.length_cons, List.length_cons]; omega) h rfl
      rw [glyphs_cons_ascii (by decide), glyphs_cons_ascii hc, List.cons_append, List.cons_append,
        closing?_escape rfl, hrest, Option.map_some, List.length_cons, List.length_cons]

/-- A text between quotes is one string, whatever follows. -/
theorem read_quoted {v : Vocabulary} {after : Bool} {s : Text} (h : Quotable s) (rest : List Glyph) :
    read v after (asciiGlyph 0x22) (glyphs s ++ asciiGlyph 0x22 :: rest)
      = some { kind := .quotedString, extra := (glyphs s).length + 1 } := by
  have hquoted : read v after (asciiGlyph 0x22) (glyphs s ++ asciiGlyph 0x22 :: rest)
      = some (quoted (glyphs s ++ asciiGlyph 0x22 :: rest)) := rfl
  rw [hquoted, quoted, closing?_of_quotable h]

end Lexeme

/-! ### Operands -/

/-- A byte string as it is written between double quotes. -/
structure Quotation where
  spelling : Text
  bytes : Text
  spelled : Spelled spelling bytes

def Quotation.text (q : Quotation) : Text := 0x22 :: q.spelling ++ [0x22]

/-- What the token of a string says. -/
def Quotation.content (q : Quotation) : Kind × Text × Int := (.quotedString, q.text, 0)

def Text.isSeparator (b : UInt8) : Bool := b == 0x20 || b == 0x09 || b == 0x0d || b == 0x2c

/-- The text lists the quotations, with separators before, between and behind them. -/
inductive Lists : Text → List Quotation → Prop
  | nil : Lists [] []
  | separator {b : UInt8} {text : Text} {qs : List Quotation} (hb : isSeparator b = true)
      (h : Lists text qs) : Lists (b :: text) qs
  | quotation {text : Text} {qs : List Quotation} (q : Quotation) (h : Lists text qs) :
      Lists (q.text ++ text) (q :: qs)

namespace Vocabulary

variable {v : Vocabulary} {line : SourceLine} {after : Bool}

theorem readsAs_quotation (q : Quotation) {text : Text} {ts : List (Kind × Text × Int)}
    (h : v.ReadsAs line true (glyphs text) ts) :
    v.ReadsAs line after (glyphs (q.text ++ text)) (q.content :: ts) := by
  have hsplit : q.text ++ text = 0x22 :: (q.spelling ++ 0x22 :: text) := by
    simp [Quotation.text]
  have hglyphs : glyphs (q.text ++ text)
      = asciiGlyph 0x22 :: (glyphs q.spelling ++ [asciiGlyph 0x22]) ++ glyphs text := by
    rw [hsplit, glyphs_cons_ascii (by decide), glyphs_append_of_not_tail (by decide),
      glyphs_cons_ascii (by decide), List.cons_append, List.append_assoc]
    rfl
  have hbytes : ofGlyphs (asciiGlyph 0x22 :: (glyphs q.spelling ++ [asciiGlyph 0x22])) = q.text := by
    rw [ofGlyphs, List.flatMap_cons, List.flatMap_append, ← ofGlyphs, ofGlyphs_glyphs]
    rfl
  have hread : Lexeme.read v after (asciiGlyph 0x22)
        (glyphs q.spelling ++ [asciiGlyph 0x22] ++ glyphs text)
      = some { kind := .quotedString, extra := (glyphs q.spelling ++ [asciiGlyph 0x22]).length } := by
    rw [List.append_assoc, List.length_append]
    exact Lexeme.read_quoted q.spelled.quotable _
  have htoken := readsAs_of_some hread h
  rwa [← hglyphs, hbytes] at htoken

theorem readsAs_separator {b : UInt8} (hb : isSeparator b = true) {text : Text}
    {ts : List (Kind × Text × Int)} (h : v.ReadsAs line false (glyphs text) ts) :
    v.ReadsAs line after (glyphs (b :: text)) ts := by
  have hread : b < 0x80 ∧ Lexeme.isSeparator (asciiGlyph b).char = true := by
    simp only [isSeparator, Bool.or_eq_true, beq_iff_eq, or_assoc] at hb
    rcases hb with rfl | rfl | rfl | rfl <;> decide
  rw [glyphs_cons_ascii hread.1]
  refine readsAs_of_none ?_ h
  change Lexeme.read v after (asciiGlyph b) (glyphs text) = none
  simp only [Lexeme.read, hread.2, if_true]

theorem readsAs_of_lists {text : Text} {qs : List Quotation} (h : Lists text qs) :
    v.ReadsAs line after (glyphs text) (qs.map Quotation.content) := by
  induction h generalizing after with
  | nil =>
    intro offset column
    refine ⟨[], rfl, ?_⟩
    rw [List.map_nil, glyphs, scan]
  | separator hb _ ih => exact readsAs_separator hb ih
  | quotation q _ ih => exact readsAs_quotation q ih

theorem not_isWordPart_of_lists {text : Text} {qs : List Quotation} (h : Lists text qs) :
    ∀ x ∈ (glyphs text).head?, Lexeme.isWordPart x.char = false := by
  intro x hx
  cases h with
  | nil =>
    rw [glyphs] at hx
    cases hx
  | separator hb _ =>
    simp only [isSeparator, Bool.or_eq_true, beq_iff_eq, or_assoc] at hb
    rcases hb with rfl | rfl | rfl | rfl <;>
    · rw [glyphs_cons_ascii (by decide)] at hx
      cases hx
      decide
  | quotation q _ =>
    rw [Quotation.text, List.cons_append, List.cons_append, glyphs_cons_ascii (by decide)] at hx
    cases hx
    decide

/-- A word and the strings behind it are read as they stand on a line. -/
theorem tokenize_of_lists {lead word operands : Text} {qs : List Quotation}
    (htext : line.text = lead ++ word ++ operands) (hlead : ∀ b ∈ lead, isSeparator b = true)
    (hword : word.isWord = true) (hlists : Lists operands qs) :
    ∃ first tokens, v.tokenize line = (⟨first :: tokens, line.text, line⟩, []) ∧
      first.content = (v.classify word, word, 0) ∧
      tokens.map Token.content = qs.map Quotation.content := by
  have hreads : v.ReadsAs line false (glyphs line.text)
      ((v.classify word, word, 0) :: qs.map Quotation.content) := by
    rw [htext, List.append_assoc]
    clear htext
    induction lead with
    | nil =>
      exact readsAs_word hword (not_isWordPart_of_lists hlists) (readsAs_of_lists hlists)
    | cons b lead ih =>
      obtain ⟨hb, hlead⟩ := List.forall_mem_cons.1 hlead
      exact readsAs_separator hb (ih hlead)
  obtain ⟨tokens, hcontent, htokenize⟩ := tokenize_of_readsAs hreads
  obtain ⟨first, tokens, rfl, hfirst, hstrings⟩ := List.map_eq_cons_iff.1 hcontent
  exact ⟨first, tokens, htokenize, hfirst, hstrings⟩

end Vocabulary

/-! ### Storing -/

/-- The bytes of a string in a directive: all directives but one add a zero. -/
def Quotation.stored (d : Directive) (q : Quotation) : List UInt8 :=
  if d == .ascii then q.bytes else q.bytes ++ [0]

theorem Quotation.stringBody_text (q : Quotation) : Reading.stringBody q.text = q.spelling := by
  simp [Reading.stringBody, text]

namespace Reading

variable {r : Reading} {d : Directive}

theorem storeStrings_of_room {note : Text} {qs : List Quotation} {tokens : List Token}
    (htokens : tokens.map Token.content = qs.map Quotation.content)
    (h : r.Room (qs.flatMap (Quotation.stored d)).length) :
    r.storeStrings note d tokens = r.emit (qs.flatMap (Quotation.stored d)) := by
  induction qs generalizing r tokens with
  | nil =>
    obtain rfl := List.map_eq_nil_iff.1 htokens
    exact (emit_nil r).symm
  | cons q qs ih =>
    obtain ⟨t, tokens, rfl, ht, hrest⟩ := List.map_eq_cons_iff.1 htokens
    obtain ⟨hkind, htext⟩ : t.kind = .quotedString ∧ t.text = q.text := by
      simp only [Token.content, Quotation.content, Prod.mk.injEq] at ht
      exact ⟨ht.1, ht.2.1⟩
    have hbody : Literal.unescape (stringBody t.text) = (q.bytes, none) := by
      rw [htext, q.stringBody_text, unescape_of_spelled q.spelled]
    rw [List.flatMap_cons, List.length_append] at h
    have hstore : r.storeBytes (if d == .ascii then q.bytes else q.bytes ++ [0])
        = (r.emit (q.stored d), none) := storeBytes_of_room (h.mono (Nat.le_add_right ..))
    have hstring : (t.kind != .quotedString) = false := by rw [hkind]; rfl
    rw [storeStrings, hstring, hbody, List.flatMap_cons, ← emit_append]
    simp only [Bool.false_eq_true, if_false, hstore]
    exact ih hrest h.emit

/-- A line with a string directive and strings, however they are spelled, is read as just these tokens,
and in a data segment it stores the bytes of all strings from the cursor on, each with a zero behind it
if the directive adds one, takes the cursor behind them and reports nothing. -/
theorem execute_strings {v : Vocabulary} {line : SourceLine} {lead word operands note : Text}
    {index : Int} {qs : List Quotation} (htext : line.text = lead ++ word ++ operands)
    (hlead : ∀ b ∈ lead, isSeparator b = true) (hword : word.isWord = true)
    (hkind : v.classify word = .directive) (hname : Directive.ofName? word = some d)
    (hstring : d.isString = true) (hlists : Lists operands qs) (hplain : r.pool.isDefining = false)
    (hdata : r.cursors.segment.isData = true)
    (hmapped : ∀ i < (qs.flatMap (Quotation.stored d)).length,
      r.image.layout.mapped (r.dataCursor + BitVec.ofNat 32 i) = true) :
    ∃ directive tokens, v.tokenize line = (⟨directive :: tokens, line.text, line⟩, []) ∧
      directive.kind = .directive ∧ directive.text = word ∧
      tokens.map (fun t => (t.kind, t.text)) = qs.map (fun q => (Kind.quotedString, q.text)) ∧
      (r.execute note index directive tokens).image
        = r.image.write r.dataCursor (qs.flatMap (Quotation.stored d)) ∧
      (r.execute note index directive tokens).dataCursor
        = r.dataCursor + BitVec.ofNat 32 (qs.flatMap (Quotation.stored d)).length ∧
      (r.execute note index directive tokens).log = r.log := by
  obtain ⟨directive, tokens, htokenize, hfirst, htokens⟩ :=
    v.tokenize_of_lists htext hlead hword hlists
  obtain ⟨hdirective, hspelled⟩ : directive.kind = .directive ∧ directive.text = word := by
    simp only [Token.content, Prod.mk.injEq] at hfirst
    exact ⟨hfirst.1.trans hkind, hfirst.2.1⟩
  have hstrings : tokens.map (fun t => (t.kind, t.text))
      = qs.map (fun q => (Kind.quotedString, q.text)) := by
    have hcontents := congrArg (List.map fun c : Kind × Text × Int => (c.1, c.2.1)) htokens
    rw [List.map_map, List.map_map] at hcontents
    exact hcontents
  have hafter : r.execute note index directive tokens
      = ({ r with cursors := { r.cursors with directive := some d } } : Reading).emit
          (qs.flatMap (Quotation.stored d)) := by
    rw [execute_data (hspelled ▸ hname) (.inr hstring) hplain hdata, storeData, if_pos hstring]
    exact storeStrings_of_room htokens hmapped
  refine ⟨directive, tokens, htokenize, hdirective, hspelled, hstrings, ?_, ?_, ?_⟩
  · rw [hafter, image_emit]
    rfl
  · rw [hafter, dataCursor_emit]
    rfl
  · rw [hafter, log_emit]

/-- A byte that is no part of UTF-8, an escaped quote, a zero before a digit, and an octal escape. -/
def strayQuotation : Quotation where
  spelling := [0xc3, 0x5c, 0x22, 0x5c, 0x30, 0x37, 0x5c, 0x33, 0x30, 0x33]
  bytes := [0xc3, 0x22, 0x00, 0x37, 0xc3]
  spelled :=
    .raw (by decide) (by decide) (by decide) <| .named (by decide) <| .null (by decide) <|
      .raw (by decide) (by decide) (by decide) <|
      .octal (x := 3) (y := 0) (z := 3) (by decide) (by decide) (by decide) (by decide) .nil

/-- A code point whose digits are in both cases. -/
def codeQuotation : Quotation where
  spelling := "\\u01Ea"
  bytes := "Ǫ"
  spelled :=
    @Spelled.code 'Ǫ' _ _ _ _ 0 1 14 10 _ _ (by decide) (by decide) (by decide) (by decide) (by decide)
      .nil

def oddReading : Reading :=
  { Reading.start (.ofConfig {}) "a.s" with
    cursors := { Cursors.ofLayout {} with data := 0x10010001, segment := ⟨true, false⟩ } }

def oddOperands : Text := 0x20 :: (strayQuotation.text ++ (0x2c :: (codeQuotation.text ++ [])))

/-- Two strings on a line, with a comma between them, and a zero behind each. -/
theorem execute_strings_odd :
    let line : SourceLine := ⟨[0x09] ++ (".asciz" : Text) ++ oddOperands, "a.s", 1⟩
    ∃ directive tokens,
      (Rv32im.registry.vocabulary true).tokenize line = (⟨directive :: tokens, line.text, line⟩, []) ∧
      tokens.map Token.kind = [.quotedString, .quotedString] ∧
      (oddReading.execute [] 0 directive tokens).image
        = oddReading.image.write 0x10010001 [0xc3, 0x22, 0, 0x37, 0xc3, 0, 0xc7, 0xaa, 0] ∧
      (oddReading.execute [] 0 directive tokens).dataCursor = 0x1001000a := by
  intro line
  have hlead : ∀ b ∈ ([0x09] : Text), isSeparator b = true := by
    intro b hb
    rw [List.mem_singleton.1 hb]
    decide
  obtain ⟨directive, tokens, htokenize, -, -, hstrings, himage, hcursor, -⟩ :=
    @execute_strings oddReading .asciz (Rv32im.registry.vocabulary true) line _ _ _ [] 0
      [strayQuotation, codeQuotation] rfl hlead (by decide +kernel) (by decide +kernel)
      (by decide +kernel) rfl
      (.separator rfl <| .quotation strayQuotation <| .separator rfl <| .quotation codeQuotation .nil)
      rfl rfl (by decide +kernel)
  have hkinds := congrArg (List.map Prod.fst) hstrings
  rw [List.map_map] at hkinds
  exact ⟨directive, tokens, htokenize, hkinds, himage.trans rfl, hcursor.trans rfl⟩

end Reading

end Rv32Assembler
