import Mathlib.Data.List.Infix
import Rv32Assembler.Isa.Rv32im
import Rv32Assembler.Proofs.Partition
/-!
# Printed tokens

A list of tokens is printed with a blank between most neighbours, and read again it is the same list
(`tokenize_render`). A blank is left out only behind an opening parenthesis, which nothing goes on
from, and before a closing one or a colon, which nothing goes on over (`stops_renderAfter`). In front of
these a lexeme is read as it was read first (`read_again`), also a sign: it stands behind a value only
where it touches it, and printed it never does.
-/

namespace Rv32Assembler

open Text

/-- What a token says, without its place. -/
def Token.meaning (t : Token) : Kind × Text × Int × Binary64 := (t.kind, t.text, t.value, t.real)

/-! ### Lexemes -/

namespace Lexeme

/-- No word, number or sign goes on over the characters. -/
def Stops (gs : List Glyph) : Prop :=
  ∀ x ∈ gs.head?, isWordPart x.char = false ∧ isSign x.char = false

variable {v : Vocabulary} {after : Bool} {g : Glyph} {gs ns : List Glyph}

theorem Stops.not_isWordPart (h : Stops ns) : ∀ x ∈ ns.head?, isWordPart x.char = false :=
  fun x hx => (h x hx).1

theorem Stops.not_isDecimalDigit (h : Stops ns) : ∀ x ∈ ns.head?, isDecimalDigit x.char = false := by
  intro x hx
  rw [Bool.eq_false_iff]
  intro hdigit
  have hpart := h.not_isWordPart x hx
  rw [isWordPart_of_isDecimalDigit hdigit] at hpart
  cases hpart

theorem Stops.numberLength (h : Stops ns) (hexadecimal : Bool) (last : Char) :
    numberLength hexadecimal last ns = 0 := by
  cases ns with
  | nil => rfl
  | cons x ns =>
    obtain ⟨hpart, hsign⟩ := h x rfl
    refine numberLength_eq_zero ns ?_ hsign
    rw [Bool.eq_false_iff]
    intro hnumber
    rw [isWordPart_of_isNumberPart hnumber] at hpart
    cases hpart

theorem Stops.numberLength_take_append (h : Stops ns) (hexadecimal : Bool) (last : Char)
    (gs : List Glyph) :
    Lexeme.numberLength hexadecimal last (gs.take (Lexeme.numberLength hexadecimal last gs) ++ ns) =
      Lexeme.numberLength hexadecimal last gs := by
  obtain ⟨hexadecimal', last', hmore⟩ := Lexeme.numberLength_take_append hexadecimal last gs
  rw [hmore, h.numberLength, Nat.add_zero]

theorem Stops.take_take_append (hexadecimal : Bool) (last : Char) :
    (gs.take (Lexeme.numberLength hexadecimal last gs) ++ ns).take
      (Lexeme.numberLength hexadecimal last gs) = gs.take (Lexeme.numberLength hexadecimal last gs) :=
  List.take_left' (List.length_take_of_le (numberLength_le hexadecimal last gs))

/-- A sign that is no part of a number may only get one by touching it. -/
theorem signed_again {l : Lexeme} (h : Stops ns)
    (hread : (if after then { kind := if g.char == '-' then .minus else .plus, extra := 0 }
      else signed g gs) = l) : signed g (gs.take l.extra ++ ns) = l := by
  have halone (hl : l = { kind := if g.char == '-' then .minus else .plus, extra := 0 }) :
      signed g (gs.take l.extra ++ ns) = l := by
    rw [hl, List.take_zero, List.nil_append, signed_of_not_digit h.not_isDecimalDigit]
  cases after with
  | true => exact halone hread.symm
  | false =>
    obtain rfl : signed g gs = l := hread
    rcases signed_cases g gs with ⟨d, more, rfl, hdigit, hnumber⟩ | hsign
    · rw [hnumber, extra_number, List.take_succ_cons, List.cons_append, signed_of_digit _ hdigit,
        h.numberLength_take_append, Stops.take_take_append]
    · exact halone hsign

/-- A lexeme is read again in front of characters that stop it. -/
theorem read_again {l : Lexeme} (hread : read v after g gs = some l)
    (hkind : l.kind ≠ .error ∧ l.kind ≠ .comment) (h : Stops ns) {after' : Bool}
    (hafter : after' = true → isSign g.char = false) :
    read v after' g (gs.take l.extra ++ ns) = some l := by
  by_cases hdigit : isDecimalDigit g.char = true
  · obtain rfl := Option.some_inj.1 (hread.symm.trans (read_of_isDecimalDigit gs hdigit))
    rw [extra_number, read_of_isDecimalDigit _ hdigit, h.numberLength_take_append,
      Stops.take_take_append]
  · by_cases hsign : isSign g.char = true
    · have hfalse : after' = false := by
        rw [Bool.eq_false_iff]
        intro htrue
        rw [hafter htrue] at hsign
        cases hsign
      rw [read_of_isSign gs hsign, Option.some_inj] at hread
      rw [read_of_isSign _ hsign, hfalse, if_neg Bool.false_ne_true, signed_again h hread]
    · refine read_take_append hread (Bool.eq_false_iff.2 hsign) (Bool.eq_false_iff.2 hdigit) ?_
        (fun _ => h.not_isWordPart) after'
      rintro (hcomment | herror)
      · exact absurd hcomment hkind.2
      · exact absurd herror hkind.1

theorem read_leftParen (h : g.char = '(') :
    read v after g gs = some { kind := .leftParen, extra := 0 } := by
  have hdigit : isDecimalDigit '(' = false := by decide
  have hstart : isWordStart '(' = false := by decide
  simp [read, h, isSeparator, isSign, hdigit, hstart]

end Lexeme

/-! ### Tokens -/

/-- The text is empty or starts with a blank, a closing parenthesis or a colon. -/
def Text.Stops (s : Text) : Prop := ∀ b ∈ s.head?, b = 0x20 ∨ b = 0x29 ∨ b = 0x3a

theorem Text.Stops.glyphs {s : Text} (h : s.Stops) : Lexeme.Stops (glyphs s) := by
  cases s with
  | nil =>
    rw [Text.glyphs]
    simp [Lexeme.Stops]
  | cons b s =>
    rcases h b rfl with rfl | rfl | rfl <;>
    · rw [glyphs_cons_ascii (by decide)]
      rintro x ⟨⟩
      decide

theorem Text.Stops.glyphs_append {s : Text} (h : s.Stops) (front : Text) :
    Text.glyphs (front ++ s) = Text.glyphs front ++ Text.glyphs s := by
  cases s with
  | nil => rw [List.append_nil, Text.glyphs, List.append_nil]
  | cons b s =>
    refine glyphs_append_of_not_tail ?_ front s
    rcases h b rfl with rfl | rfl | rfl <;> decide

/-- The token is read from its text, by itself and in front of a text that stops it. -/
structure Token.Printable (v : Vocabulary) (t : Token) : Prop where
  mark : ∀ b, t.kind.mark? = some b → t.text = [b]
  read : ∃ g gs, glyphs t.text = g :: gs ∧ ∀ after ns,
    (after = true → t.kind = .rightParen ∨ t.kind = .colon) → t.kind = .leftParen ∨ Lexeme.Stops ns →
      Lexeme.read v after g (gs ++ ns) =
        some { kind := t.kind, extra := gs.length, value := t.value, real := t.real }

namespace Vocabulary

variable {v : Vocabulary} {line : SourceLine} {after : Bool} {offset column : Nat}

theorem printable_of_read {g : Glyph} {gs : List Glyph} (hlegible : Legible (g :: gs)) {l : Lexeme}
    (hread : Lexeme.read v after g gs = some l) {t : Token} (hkind : t.kind = l.kind)
    (htext : t.text = ofGlyphs (g :: gs.take l.extra)) (hvalue : t.value = l.value)
    (hreal : t.real = l.real) (hright : t.kind ≠ .error ∧ t.kind ≠ .comment) : t.Printable v := by
  have hmarked := Lexeme.marked_of_read hread
  have hglyphs : glyphs t.text = g :: gs.take l.extra := by
    have hall : Legible (g :: gs.take l.extra ++ gs.drop l.extra) := by
      rwa [List.cons_append, List.take_append_drop]
    rw [htext]
    exact hall.left
  have hlexeme : l =
      { kind := t.kind, extra := (gs.take l.extra).length, value := t.value, real := t.real } := by
    have hproblem : l.problem = none := by
      rw [← Option.isNone_iff_eq_none, ← Option.isSome_eq_false_iff, hmarked.problem, ← hkind]
      simpa using hright.1
    rw [List.length_take_of_le (Lexeme.extra_le_of_read hread), hkind, hvalue, hreal, ← hproblem]
  have hmark (b : UInt8) (hb : t.kind.mark? = some b) : g.char = (asciiGlyph b).char ∧ l.extra = 0 :=
    hmarked.mark b (hkind ▸ hb)
  constructor
  case mark =>
    intro b hb
    obtain ⟨hchar, hextra⟩ := hmark b hb
    have hmem : g ∈ glyphs (ofGlyphs (g :: gs)) := by
      rw [hlegible]
      exact List.mem_cons_self ..
    have hascii : g.char.toNat < 0x80 := by
      rw [hchar]
      revert hb
      cases t.kind <;> rintro ⟨⟩ <;> decide
    obtain ⟨x, -, rfl⟩ := exists_eq_asciiGlyph hmem hascii
    rw [htext, hextra, asciiGlyph_char_inj hchar]
    rfl
  case read =>
    refine ⟨g, gs.take l.extra, hglyphs, fun after' ns hafter hstops => ?_⟩
    rw [← hlexeme]
    rcases hstops with hleft | hstops
    · obtain ⟨hchar, -⟩ := hmark 0x28 (by rw [hleft]; rfl)
      obtain rfl := Option.some_inj.1 (hread.symm.trans (Lexeme.read_leftParen hchar))
      exact Lexeme.read_leftParen hchar
    · refine Lexeme.read_again hread (hkind ▸ hright) hstops fun htrue => ?_
      rcases hafter htrue with hkind | hkind
      · rw [(hmark 0x29 (by rw [hkind]; rfl)).1]
        rfl
      · rw [(hmark 0x3a (by rw [hkind]; rfl)).1]
        rfl

theorem printable_of_mem_scan {gs : List Glyph} (hlegible : Legible gs) {p : Token × Option LexicalError}
    (hp : p ∈ v.scan line after offset column gs) (hright : p.1.kind ≠ .error ∧ p.1.kind ≠ .comment) :
    p.1.Printable v := by
  fun_induction Vocabulary.scan v line after offset column gs with
  | case1 => cases hp
  | case2 after offset column g rest _ ih =>
    have hsplit : Legible ([g] ++ rest) := hlegible
    exact ih hsplit.right hp
  | case3 after offset column g rest lexeme hread text token =>
    rename_i ih
    rcases List.mem_cons.1 hp with rfl | hp
    · exact printable_of_read hlegible hread rfl rfl rfl rfl hright
    · have hsplit : Legible (g :: rest.take lexeme.extra ++ rest.drop lexeme.extra) := by
        rwa [List.cons_append, List.take_append_drop]
      exact ih hsplit.right hp

end Vocabulary

/-! ### Lists of tokens -/

/-- Behind a token other than an opening parenthesis stands what stops it. -/
theorem Token.stops_renderAfter {v : Vocabulary} (t : Token) {rest : List Token}
    (hrest : ∀ r ∈ rest, r.Printable v) : t.kind = .leftParen ∨ (t.renderAfter rest).Stops := by
  rw [or_iff_not_imp_left]
  intro hleft
  cases rest with
  | nil => simp [renderAfter, Text.Stops]
  | cons r rest =>
    rw [renderAfter]
    by_cases hspaced : spaced t r = true
    · rw [if_pos hspaced]
      rintro b ⟨⟩
      exact .inl rfl
    · rw [if_neg hspaced]
      have hmark := (hrest r (List.mem_cons_self ..)).mark
      have hkind : r.kind = .rightParen ∨ r.kind = .colon := by
        simp only [spaced, Bool.and_eq_true, bne_iff_ne] at hspaced
        tauto
      rcases hkind with hkind | hkind
      · rw [hmark 0x29 (by rw [hkind]; rfl)]
        rintro b ⟨⟩
        exact .inr (.inl rfl)
      · rw [hmark 0x3a (by rw [hkind]; rfl)]
        rintro b ⟨⟩
        exact .inr (.inr rfl)

namespace Vocabulary

variable {v : Vocabulary} {line : SourceLine} {after : Bool}

/-- The text is read as tokens that say the same, and without a problem. -/
def Rereads (v : Vocabulary) (line : SourceLine) (after : Bool) (s : Text) (ts : List Token) : Prop :=
  ∀ offset column, ∃ tokens : List Token, tokens.map Token.meaning = ts.map Token.meaning ∧
    v.scan line after offset column (glyphs s) = tokens.map fun t => (t, none)

theorem rereads_nil : v.Rereads line after [] [] := by
  intro offset column
  refine ⟨[], rfl, ?_⟩
  rw [glyphs, scan]
  rfl

theorem rereads_blank {s : Text} {ts : List Token} (h : v.Rereads line false s ts) :
    v.Rereads line after (0x20 :: s) ts := by
  intro offset column
  rw [glyphs_cons_ascii (by decide), scan, Lexeme.read_eq_none_iff.2 rfl]
  exact h _ _

theorem rereads_cons {t : Token} {ts : List Token} {s : Text} (ht : t.Printable v)
    (hafter : after = true → t.kind = .rightParen ∨ t.kind = .colon)
    (hstops : t.kind = .leftParen ∨ s.Stops) (h : v.Rereads line t.kind.isValue s ts) :
    v.Rereads line after (t.text ++ s) (t :: ts) := by
  obtain ⟨g, gs, hglyphs, hread⟩ := ht.read
  have hlexeme := hread after (glyphs s) hafter (hstops.imp_right fun h => h.glyphs)
  have hsplit : glyphs (t.text ++ s) = glyphs t.text ++ glyphs s := by
    rcases hstops with hleft | hstops
    · rw [ht.mark 0x28 (by rw [hleft]; rfl), glyphs_ascii_append (s := [0x28]) (by simp),
        glyphs_ascii (s := [0x28]) (by simp)]
    · exact hstops.glyphs_append t.text
  have htext : ofGlyphs (g :: gs) = t.text := by rw [← hglyphs, ofGlyphs_glyphs]
  intro offset column
  obtain ⟨tokens, hmeaning, hscan⟩ := h (offset + t.text.length) (column + 1 + gs.length)
  rw [hsplit, hglyphs, List.cons_append, scan, hlexeme]
  simp only [List.take_left, List.drop_left, htext, hscan]
  exact ⟨_ :: tokens, by rw [List.map_cons, List.map_cons, hmeaning]; rfl, rfl⟩

theorem rereads_renderAfter {ts : List Token} (hts : ∀ t ∈ ts, t.Printable v) (left : Token) :
    v.Rereads line left.kind.isValue (left.renderAfter ts) ts := by
  induction ts generalizing left with
  | nil => exact rereads_nil
  | cons t rest ih =>
    obtain ⟨ht, hrest⟩ := List.forall_mem_cons.1 hts
    have hstops := t.stops_renderAfter hrest
    rw [Token.renderAfter]
    by_cases hspaced : Token.spaced left t = true
    · rw [if_pos hspaced]
      exact rereads_blank (rereads_cons ht (fun h => by cases h) hstops (ih hrest t))
    · rw [if_neg hspaced]
      refine rereads_cons ht (fun hvalue => ?_) hstops (ih hrest t)
      have hleft : left.kind ≠ .leftParen := by
        rintro hleft
        rw [hleft] at hvalue
        cases hvalue
      simp only [Token.spaced, Bool.and_eq_true, bne_iff_ne] at hspaced
      tauto

theorem rereads_render (line : SourceLine) {ts : List Token} (hts : ∀ t ∈ ts, t.Printable v) :
    v.Rereads line false (Token.render ts) ts := by
  cases ts with
  | nil => exact rereads_nil
  | cons t rest =>
    obtain ⟨ht, hrest⟩ := List.forall_mem_cons.1 hts
    exact rereads_cons ht (fun h => by cases h) (t.stops_renderAfter hrest)
      (rereads_renderAfter hrest t)

theorem tokenize_of_rereads {ts : List Token} (h : v.Rereads line false line.text ts) :
    (v.tokenize line).1.tokens.map Token.meaning = ts.map Token.meaning ∧ (v.tokenize line).2 = [] := by
  obtain ⟨tokens, hmeaning, hscan⟩ := h 0 0
  rw [← hmeaning]
  simp [tokenize, tokenizeText, hscan, Function.comp_def]

end Vocabulary

/-- The tokens of a line without an error are read again from the line that they are printed as. -/
theorem Vocabulary.tokenize_render (v : Vocabulary) (line printed : SourceLine)
    (hright : ∀ t ∈ (v.tokenize line).1.tokens, t.kind ≠ .error)
    (hprinted : printed.text = (v.tokenize line).1.withoutComment.render) :
    (v.tokenize printed).1.tokens.map Token.meaning =
        (v.tokenize line).1.withoutComment.tokens.map Token.meaning ∧
      (v.tokenize printed).2 = [] := by
  have hprintable : ∀ t ∈ (v.tokenize line).1.withoutComment.tokens, t.Printable v := by
    intro t ht
    obtain ⟨hmem, hcomment⟩ := TokenLine.of_mem_withoutComment
      (v.partitioned_tokenizeText line.text line).comment ht
    obtain ⟨p, hp, rfl⟩ := List.mem_map.1 hmem
    exact printable_of_mem_scan (Legible.of_glyphs line.text) hp ⟨hright p.1 hmem, hcomment⟩
  refine tokenize_of_rereads ?_
  rw [hprinted]
  exact rereads_render printed hprintable

/-- Signs that are part of a number and signs that are not, parentheses without and with blanks, a string
and a character with a mark in them, and a comment. -/
theorem tokenize_render_signs :
    let v := Rv32im.registry.vocabulary true
    let line : SourceLine := ⟨"x: lw a0,-4 (sp)+1 - 2 (-3-4) \"#\\\"\" '\\''-%p 1e-5 # x", "a.s", 7⟩
    let printed : SourceLine :=
      ⟨"x: lw a0 -4 (sp) + 1 - 2 (-3 - 4) \"#\\\"\" '\\'' - %p 1e-5", "b.s", 1⟩
    (∀ t ∈ (v.tokenize line).1.tokens, t.kind ≠ .error) ∧
      printed.text = (v.tokenize line).1.withoutComment.render ∧
      (v.tokenize printed).1.tokens.map Token.meaning =
        (v.tokenize line).1.withoutComment.tokens.map Token.meaning ∧
      (v.tokenize printed).2 = [] := by
  intro v line printed
  have hright : ∀ t ∈ (v.tokenize line).1.tokens, t.kind ≠ .error := by decide +kernel
  have hprinted : printed.text = (v.tokenize line).1.withoutComment.render := by decide +kernel
  exact ⟨hright, hprinted, v.tokenize_render line printed hright hprinted⟩

end Rv32Assembler
