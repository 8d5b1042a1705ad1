import Rv32Assembler.Isa.Rv32im
import Rv32Assembler.Proofs.StringData
import Rv32Assembler.Proofs.TokensInPlace
/-!
# Character literals

A character can be written between single quotes as it is or by an escape (`SpellsCharacter`). The
escapes are undone byte by byte, and the bytes that come out are then read as UTF-8. Both agree on what
a character is if the bytes are those of the character (`sequence?_encodeChar`), which they are but for
an octal escape beyond ASCII: it gives one byte, which is no character (`CharacterForm.IsByte`). So all
spellings but these stand for the code of the character.
-/

namespace Rv32Assembler

open Text

/-! ### Spellings -/

/-- The ways to write a character between single quotes. -/
inductive CharacterForm where
  | raw
  | named
  | octal
  | code
  deriving DecidableEq

/-- The escapes of one letter, digit or sign and the bytes that they name. -/
def characterEscapes : List (UInt8 × UInt8) := (0x30, 0x00) :: namedEscapes

/-- The text, between single quotes, is a way to write the character. -/
inductive SpellsCharacter : CharacterForm → Text → Char → Prop
  | raw {c : Char} (hquote : c ≠ '\'') (hescape : c ≠ '\\') (hline : c ≠ '\n') :
      SpellsCharacter .raw (encodeChar c) c
  | named {letter b : UInt8} {c : Char} (hnamed : (letter, b) ∈ characterEscapes)
      (hcode : c.toNat = b.toNat) : SpellsCharacter .named [0x5c, letter] c
  | octal {x y z : Nat} {c : Char} (hx : x < 8) (hy : y < 8) (hz : z < 8)
      (hcode : c.toNat = 64 * x + 8 * y + z) (hbyte : c.toNat < 256) :
      SpellsCharacter .octal [0x5c, digit x, digit y, digit z] c
  | code {b₃ b₂ b₁ b₀ : UInt8} {d₃ d₂ d₁ d₀ : Nat} {c : Char} (h₃ : IsHex b₃ d₃) (h₂ : IsHex b₂ d₂)
      (h₁ : IsHex b₁ d₁) (h₀ : IsHex b₀ d₀)
      (hcode : c.toNat = 4096 * d₃ + 256 * d₂ + 16 * d₁ + d₀) :
      SpellsCharacter .code [0x5c, 0x75, b₃, b₂, b₁, b₀] c

namespace CharacterForm

/-- The bytes that a spelling of the character gives. -/
def bytes (form : CharacterForm) (c : Char) : Text :=
  if form = .octal then [UInt8.ofNat c.toNat] else encodeChar c

/-- The bytes that a spelling of the character gives are not those of the character. -/
def IsByte (form : CharacterForm) (c : Char) : Prop := form = .octal ∧ 0x80 ≤ c.toNat

instance (form : CharacterForm) (c : Char) : Decidable (form.IsByte c) :=
  inferInstanceAs (Decidable (_ ∧ _))

/-- The number that a spelling of the character stands for. -/
def value (form : CharacterForm) (c : Char) : Int :=
  if form.IsByte c then replacement.toNat else c.toNat

end CharacterForm

/-! ### Values -/

namespace Literal

theorem unescapeFrom_of_not_mem (body : Text) {s : Text} (h : (0x5c : UInt8) ∉ s) :
    unescapeFrom body s = (s, none) := by
  induction s with
  | nil => rw [unescapeFrom]
  | cons b s ih =>
    rw [List.mem_cons, not_or] at h
    rw [unescapeFrom_raw body (Ne.symm h.1), ih h.2]

theorem escape_of_mem_characterEscapes {letter b : UInt8} (h : (letter, b) ∈ characterEscapes) :
    escape letter [] = ⟨[b], none, 0⟩ ∧ b < 0x80 := by
  rcases List.mem_cons.1 h with heq | h
  · cases heq
    exact ⟨rfl, by decide⟩
  · have hbytes : namedEscapes.all (fun p => p.2 < 0x80) = true := by decide
    exact ⟨escape_of_named h [], of_decide_eq_true (List.all_eq_true.1 hbytes _ h)⟩

theorem unescape_escape {letter : UInt8} {rest bytes : Text}
    (h : escape letter rest = ⟨bytes, none, rest.length⟩) :
    unescape (0x5c :: letter :: rest) = (bytes, none) := by
  rw [unescape, unescapeFrom_escape, h, List.drop_length, unescapeFrom, List.append_nil]
  rfl

/-- The escapes of a spelling give the bytes of the character, except that an octal escape gives one
byte in any case. -/
theorem unescape_of_spellsCharacter {form : CharacterForm} {s : Text} {c : Char}
    (h : SpellsCharacter form s c) : unescape s = (form.bytes c, none) := by
  cases h with
  | raw _ hescape _ =>
    refine unescapeFrom_of_not_mem _ fun hmem => hescape ?_
    exact eq_of_mem_encodeChar hmem (by decide)
  | @named letter b c hnamed hcode =>
    obtain ⟨hescape, hb⟩ := escape_of_mem_characterEscapes hnamed
    have hbytes : CharacterForm.named.bytes c = [b] := by
      have hencode : CharacterForm.named.bytes c = encodeChar c := rfl
      rw [hencode, encodeChar_of_ascii (by rw [hcode]; exact hb), hcode, UInt8.ofNat_toNat]
    rw [hbytes]
    exact unescape_escape hescape
  | @octal x y z c hx hy hz hcode hbyte =>
    have hbytes : CharacterForm.octal.bytes c = [UInt8.ofNat (64 * x + 8 * y + z)] := by
      rw [← hcode]
      rfl
    rw [hbytes]
    exact unescape_escape (escape_octal hx hy hz (hcode ▸ hbyte) [])
  | code h₃ h₂ h₁ h₀ hcode => exact unescape_escape (escape_code h₃ h₂ h₁ h₀ hcode [])

end Literal

namespace SpellsCharacter

variable {form : CharacterForm} {s : Text} {c : Char}

theorem lt_of_octal (h : SpellsCharacter .octal s c) : c.toNat < 256 := by
  cases h
  assumption

theorem exists_glyphs (h : SpellsCharacter form s c) :
    ∃ g, glyphs (form.bytes c) = [g] ∧ (g.char.toNat : Int) = form.value c := by
  by_cases hbyte : form.IsByte c
  · obtain ⟨rfl, hcode⟩ := hbyte
    have hlt := h.lt_of_octal
    have hnot : ¬UInt8.ofNat c.toNat < 0x80 := by
      rw [UInt8.lt_iff_toNat_lt, UInt8.toNat_ofNat_of_lt' hlt]
      exact Nat.not_lt.2 hcode
    refine ⟨_, glyphs_of_not_ascii hnot, ?_⟩
    rw [CharacterForm.value, if_pos ⟨rfl, hcode⟩]
  · have hbytes : form.bytes c = encodeChar c := by
      unfold CharacterForm.bytes
      split
      · rename_i hoctal
        have hascii : c.toNat < 0x80 := by
          by_contra hcode
          exact hbyte ⟨hoctal, Nat.le_of_not_lt hcode⟩
        rw [encodeChar_of_ascii hascii]
      · rfl
    rw [hbytes, CharacterForm.value, if_neg hbyte]
    exact ⟨_, glyphs_encodeChar c, rfl⟩

theorem character_eq (h : SpellsCharacter form s c) : Literal.character s = .ok (form.value c) := by
  obtain ⟨g, hglyphs, hvalue⟩ := h.exists_glyphs
  rw [Literal.character, Literal.unescape_of_spellsCharacter h]
  simp only [hglyphs, hvalue]

/-- The number is the code of the character unless the spelling gives a byte that is none. -/
theorem character_eq_code_iff (h : SpellsCharacter form s c) :
    Literal.character s = .ok (c.toNat : Int) ↔ ¬form.IsByte c := by
  rw [h.character_eq, Except.ok.injEq, CharacterForm.value]
  split
  · rename_i hbyte
    obtain rfl := hbyte.1
    have hlt := h.lt_of_octal
    have hreplacement : replacement.toNat = 0xfffd := rfl
    refine ⟨fun heq => ?_, fun hnot => absurd hbyte hnot⟩
    omega
  · rename_i hbyte
    exact ⟨fun _ => hbyte, fun _ => rfl⟩

end SpellsCharacter

/-! ### Quotes -/

/-- A byte of ASCII that neither starts an escape nor closes a character. -/
def Text.IsInner (b : UInt8) : Prop := b < 0x80 ∧ b ≠ 0x5c ∧ b ≠ 0x27

instance (b : UInt8) : Decidable (IsInner b) := inferInstanceAs (Decidable (_ ∧ _))

theorem IsHex.isInner {b : UInt8} {d : Nat} (h : IsHex b d) : IsInner b := by
  have hlower : ∀ d < 16, IsInner (digit d) := by decide
  have hupper : ∀ d < 16, IsInner (UInt8.ofNat (55 + d)) := by decide
  obtain ⟨hd, rfl | ⟨-, rfl⟩⟩ := h
  · exact hlower d hd
  · exact hupper d hd

theorem IsHex.digit {d : Nat} (h : d < 8) : IsHex (Text.digit d) d := ⟨Nat.lt_trans h (by decide), .inl rfl⟩

namespace Lexeme

theorem closing?_of_inner {s : Text} (h : ∀ b ∈ s, IsInner b) (rest : List Glyph) :
    closing? '\'' (glyphs s ++ asciiGlyph 0x27 :: rest) = some ((glyphs s).length + 1) := by
  induction s with
  | nil =>
    rw [glyphs, List.nil_append]
    exact closing?_mark (g := asciiGlyph 0x27) (by decide) rest
  | cons b s ih =>
    obtain ⟨⟨hb, hescape, hquote⟩, hs⟩ := List.forall_mem_cons.1 h
    rw [glyphs_cons_ascii hb]
    exact (closing?_cons (fun h => hescape (asciiGlyph_char_inj h))
      (fun h => hquote (asciiGlyph_char_inj h)) _).trans (congrArg (Option.map (· + 1)) (ih hs))

theorem closing?_of_escape {letter : UInt8} (hletter : letter < 0x80) {s : Text}
    (h : ∀ b ∈ s, IsInner b) (rest : List Glyph) :
    closing? '\'' (glyphs (0x5c :: letter :: s) ++ asciiGlyph 0x27 :: rest)
      = some ((glyphs (0x5c :: letter :: s)).length + 1) := by
  rw [glyphs_cons_ascii (by decide), glyphs_cons_ascii hletter, List.cons_append, List.cons_append,
    closing?_escape rfl, closing?_of_inner h, Option.map_some, List.length_cons, List.length_cons]

end Lexeme

namespace SpellsCharacter

variable {form : CharacterForm} {s : Text} {c : Char}

theorem closing?_eq (h : SpellsCharacter form s c) (rest : List Glyph) :
    Lexeme.closing? '\'' (glyphs s ++ asciiGlyph 0x27 :: rest) = some ((glyphs s).length + 1) := by
  cases h with
  | raw hquote hescape _ =>
    have hclose : Lexeme.closing? '\'' (asciiGlyph 0x27 :: rest) = some 1 :=
      Lexeme.closing?_mark (g := asciiGlyph 0x27) (by decide) rest
    rw [glyphs_encodeChar, List.singleton_append, Lexeme.closing?_cons hescape hquote, hclose]
    rfl
  | named hnamed _ =>
    have hletters : characterEscapes.all (fun p => p.1 < 0x80) = true := by decide
    have hletter := of_decide_eq_true (List.all_eq_true.1 hletters _ hnamed)
    exact Lexeme.closing?_of_escape hletter (by simp) rest
  | octal hx hy hz _ _ =>
    exact Lexeme.closing?_of_escape (IsHex.digit hx).isInner.1
      (by simp [(IsHex.digit hy).isInner, (IsHex.digit hz).isInner]) rest
  | code h₃ h₂ h₁ h₀ _ =>
    exact Lexeme.closing?_of_escape (by decide)
      (by simp [h₃.isInner, h₂.isInner, h₁.isInner, h₀.isInner]) rest

theorem read_eq (h : SpellsCharacter form s c) (v : Vocabulary) (after : Bool) (rest : List Glyph) :
    Lexeme.read v after (asciiGlyph 0x27) (glyphs s ++ [asciiGlyph 0x27] ++ rest)
      = some { kind := .classify (form.value c), extra := (glyphs s ++ [asciiGlyph 0x27]).length,
               value := form.value c } := by
  have hread : Lexeme.read v after (asciiGlyph 0x27) (glyphs s ++ asciiGlyph 0x27 :: rest)
      = some (Lexeme.character (glyphs s ++ asciiGlyph 0x27 :: rest)) := rfl
  rw [List.append_assoc, List.singleton_append, hread, Lexeme.character, h.closing?_eq]
  simp only [Nat.add_sub_cancel, List.take_left, ofGlyphs_glyphs, h.character_eq, List.length_append,
    List.length_singleton]

end SpellsCharacter

def Text.inQuotes (s : Text) : Text := 0x27 :: s ++ [0x27]

theorem Text.glyphs_inQuotes_append (s rest : Text) :
    glyphs (s.inQuotes ++ rest)
      = asciiGlyph 0x27 :: (glyphs s ++ [asciiGlyph 0x27]) ++ glyphs rest := by
  have hsplit : s.inQuotes ++ rest = 0x27 :: (s ++ 0x27 :: rest) := by simp [inQuotes]
  rw [hsplit, glyphs_cons_ascii (by decide), glyphs_append_of_not_tail (by decide),
    glyphs_cons_ascii (by decide), List.cons_append, List.append_assoc]
  rfl

theorem Text.ofGlyphs_inQuotes (s : Text) :
    ofGlyphs (asciiGlyph 0x27 :: (glyphs s ++ [asciiGlyph 0x27])) = s.inQuotes := by
  rw [ofGlyphs, List.flatMap_cons, List.flatMap_append, ← ofGlyphs, ofGlyphs_glyphs]
  rfl

namespace Vocabulary

variable {v : Vocabulary} {line : SourceLine} {form : CharacterForm} {s : Text} {c : Char}

theorem exists_token_character (h : SpellsCharacter form s c) {front rest : Text}
    (htext : line.text = front ++ (s.inQuotes ++ rest))
    (hfree : ∀ t ∈ (v.tokenize line).1.tokens, t.offset < front.length → t.stop ≤ front.length) :
    ∃ t ∈ (v.tokenize line).1.tokens, t.offset = front.length ∧
      t.content = (.classify (form.value c), s.inQuotes, form.value c) := by
  have hdrop : line.text.drop front.length = s.inQuotes ++ rest := by rw [htext, List.drop_left]
  have hsplit : line.text = front ++ 0x27 :: (s ++ [0x27] ++ rest) := htext
  obtain ⟨t, ht, hoffset⟩ : ∃ t ∈ (v.tokenize line).1.tokens, t.offset = front.length :=
    exists_token_at hsplit (by decide) hfree
  obtain ⟨g, behind, after, l, hglyphs, hread, hgives, -⟩ := exists_read_of_mem_tokenizeText ht
  rw [hoffset, hdrop, glyphs_inQuotes_append, List.cons_append] at hglyphs
  obtain ⟨rfl, rfl⟩ := List.cons.inj hglyphs
  obtain rfl := Option.some_inj.1 (hread.symm.trans (h.read_eq v after (glyphs rest)))
  have hspelled : t.text = s.inQuotes := by
    rw [hgives.text, List.take_left, ofGlyphs_inQuotes]
  exact ⟨t, ht, hoffset, by rw [Token.content, hgives.kind, hgives.value, hspelled]⟩

/-- A spelling between quotes alone is one token. -/
theorem exists_tokenize_character (h : SpellsCharacter form s c) (htext : line.text = s.inQuotes) :
    ∃ t, v.tokenize line = (⟨[t], line.text, line⟩, []) ∧
      t.content = (.classify (form.value c), s.inQuotes, form.value c) := by
  have hnil : v.ReadsAs line (Kind.classify (form.value c)).isValue [] [] := by
    intro offset column
    refine ⟨[], rfl, ?_⟩
    rw [scan]
    rfl
  have htoken := readsAs_of_some (h.read_eq v false []) hnil
  have hglyphs := glyphs_inQuotes_append s []
  rw [List.append_nil, glyphs] at hglyphs
  rw [ofGlyphs_inQuotes, ← hglyphs, ← htext] at htoken
  obtain ⟨tokens, hcontent, htokenize⟩ := tokenize_of_readsAs htoken
  obtain ⟨t, rfl, ht⟩ := List.map_eq_singleton_iff.1 hcontent
  rw [htext] at ht
  exact ⟨t, htokenize, ht⟩

/-- Every spelling of a character between single quotes stands for its code, except for octal escapes
beyond ASCII: these are bytes, and stand for the replacement character. Alone in a line, and wherever
in a line no token reaches into it, a spelling between quotes is one integer token of that value. -/
theorem reads_characters (v : Vocabulary) (h : SpellsCharacter form s c) :
    Literal.character s = .ok (form.value c) ∧
    (Literal.character s = .ok (c.toNat : Int) ↔ ¬form.IsByte c) ∧
    (∀ line : SourceLine, line.text = s.inQuotes →
      ∃ t, v.tokenize line = (⟨[t], line.text, line⟩, []) ∧
        t.content = (.classify (form.value c), s.inQuotes, form.value c)) ∧
    ∀ (line : SourceLine) (front rest : Text), line.text = front ++ (s.inQuotes ++ rest) →
      (∀ t ∈ (v.tokenize line).1.tokens, t.offset < front.length → t.stop ≤ front.length) →
      ∃ t ∈ (v.tokenize line).1.tokens, t.offset = front.length ∧
        t.content = (.classify (form.value c), s.inQuotes, form.value c) :=
  ⟨h.character_eq, h.character_eq_code_iff, fun _ htext => exists_tokenize_character h htext,
    fun _ _ _ htext hfree => exists_token_character h htext hfree⟩

/-- One character in four spellings, two of them in one line; the byte of the octal escape is none of
its characters. -/
theorem reads_characters_acute :
    let v := Rv32im.registry.vocabulary true
    let line : SourceLine := ⟨".half 'é','\\351'", "a.s", 1⟩
    Literal.character "é" = .ok 233 ∧ Literal.character "\\u00E9" = .ok 233 ∧
      Literal.character "\\'" = .ok 39 ∧ Literal.character "\\351" = .ok 0xfffd ∧
      ∃ t ∈ (v.tokenize line).1.tokens, t.offset = 11 ∧ t.text = "'\\351'" ∧ t.value = 0xfffd := by
  intro v line
  have hraw : SpellsCharacter .raw (encodeChar 'é') 'é' := .raw (by decide) (by decide) (by decide)
  have hcode : SpellsCharacter .code "\\u00E9" 'é' :=
    @SpellsCharacter.code _ _ _ _ 0 0 14 9 'é' (by decide) (by decide) (by decide) (by decide) (by decide)
  have hnamed : SpellsCharacter .named "\\'" '\'' :=
    @SpellsCharacter.named _ 0x27 '\'' (by decide) (by decide)
  have hoctal : SpellsCharacter .octal "\\351" 'é' :=
    @SpellsCharacter.octal 3 5 1 'é' (by decide) (by decide) (by decide) (by decide) (by decide)
  obtain ⟨hvalue, -, -, htoken⟩ := reads_characters v hoctal
  refine ⟨(reads_characters v hraw).1, (reads_characters v hcode).1, (reads_characters v hnamed).1, hvalue,
    ?_⟩
  obtain ⟨t, ht, hoffset, hcontent⟩ := htoken line ".half 'é'," [] (by decide +kernel) (by decide +kernel)
  exact ⟨t, ht, hoffset, congrArg (fun content => content.2.1) hcontent,
    congrArg (fun content => content.2.2) hcontent⟩

end Vocabulary

end Rv32Assembler
