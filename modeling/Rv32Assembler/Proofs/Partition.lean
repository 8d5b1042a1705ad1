import Rv32Assembler.Proofs.LexemeEnds
/-!
# What the lexer makes of a line

The tokens of a line and the separators between them are the whole line, whatever its bytes are
(`partitioned_tokenize`). A place in a line is counted twice, in bytes and in characters; that both
counts agree is seen by keeping the characters read so far beside those that are left
(`exists_front_of_mem_scan`).
-/

namespace Rv32Assembler

open Text

/-- The bytes that may stand between tokens: blank, tab, carriage return and comma. -/
def separators : Text := [0x20, 0x09, 0x0d, 0x2c]

/-- The byte at the place belongs to the token. -/
def Token.Covers (t : Token) (place : Nat) : Prop := t.offset ≤ place ∧ place < t.stop

/-- The message is an error at the place of the token. -/
structure Message.Cites (m : Message) (t : Token) : Prop where
  file : m.file = t.file
  line : m.line = t.line
  column : m.column = t.column
  error : m.warning = false

/-- The tokens and the separators between them are the text, and the messages are about the tokens
that are wrong. -/
structure Text.Partitioned (s : Text) (tokens : List Token) (messages : List Message) : Prop where
  nonempty : ∀ t ∈ tokens, t.text ≠ []
  slice : ∀ t ∈ tokens, s.slice? t.offset t.stop = some t.text
  ordered : tokens.Pairwise fun t later => t.stop ≤ later.offset
  between : ∀ place b, s[place]? = some b → (∀ t ∈ tokens, ¬t.Covers place) → b ∈ separators
  /-- No character reaches over the start of a token. -/
  start : ∀ t ∈ tokens, glyphs s = glyphs (s.take t.offset) ++ glyphs (s.drop t.offset)
  column : ∀ t ∈ tokens, t.column = (glyphs (s.take t.offset)).length + 1
  comment : ∀ t ∈ tokens.dropLast, t.kind ≠ .comment
  integer : ∀ t ∈ tokens, t.kind.isInteger = true → t.kind = .classify t.value
  messages : List.Forall₂ Message.Cites messages (tokens.filter fun t => t.kind == .error)

/-! ### Pieces of a text -/

namespace Text.Spells

variable {s : Text} {done : Nat} {tokens : List Token} {t : Token}

theorem piece_of_mem (h : s.Spells done tokens) (ht : t ∈ tokens) :
    t.text ≠ [] ∧ s.slice? t.offset t.stop = some t.text := by
  induction tokens generalizing done with
  | nil => cases ht
  | cons first rest ih =>
    obtain ⟨-, htext, hslice, hrest⟩ := h
    rcases List.mem_cons.1 ht with rfl | ht
    · exact ⟨htext, hslice⟩
    · exact ih hrest ht

theorem pairwise (h : s.Spells done tokens) :
    tokens.Pairwise fun t later => t.stop ≤ later.offset := by
  induction tokens generalizing done with
  | nil => exact .nil
  | cons first rest ih =>
    obtain ⟨-, -, -, hrest⟩ := h
    exact .cons (fun later hlater => hrest.le_offset hlater) (ih hrest)

end Text.Spells

namespace Text

theorem exists_eq_asciiGlyph {s : Text} {g : Glyph} (hg : g ∈ glyphs s) (hchar : g.char.toNat < 0x80) :
    ∃ b < 0x80, g = asciiGlyph b := by
  fun_induction glyphs s with
  | case1 => cases hg
  | case2 b rest first ih =>
    rcases List.mem_cons.1 hg with rfl | hg
    · by_cases hb : b < 0x80
      · refine ⟨b, hb, ?_⟩
        have hglyphs := glyphs_cons_ascii hb rest
        rw [glyphs] at hglyphs
        exact (List.cons.inj hglyphs).1
      · exact absurd hchar (Nat.not_lt.2 (firstGlyph_of_not_ascii hb rest).1)
    · exact ih hg

theorem mem_separators_of_isSeparator {b : UInt8}
    (h : Lexeme.isSeparator (asciiGlyph b).char = true) : b ∈ separators := by
  simp only [Lexeme.isSeparator, Bool.or_eq_true, beq_iff_eq, or_assoc] at h
  rcases h with h | h | h | h
  · exact asciiGlyph_char_inj (x := 0x20) h ▸ by decide
  · exact asciiGlyph_char_inj (x := 0x09) h ▸ by decide
  · exact asciiGlyph_char_inj (x := 0x0d) h ▸ by decide
  · exact asciiGlyph_char_inj (x := 0x2c) h ▸ by decide

theorem exists_bytes_of_isSeparator {s : Text} {g : Glyph} (hg : g ∈ glyphs s)
    (h : Lexeme.isSeparator g.char = true) : ∃ b ∈ separators, g.bytes = [b] := by
  have hchar : g.char.toNat < 0x80 := by
    simp only [Lexeme.isSeparator, Bool.or_eq_true, beq_iff_eq, or_assoc] at h
    rcases h with h | h | h | h <;> rw [h] <;> decide
  obtain ⟨b, -, rfl⟩ := exists_eq_asciiGlyph hg hchar
  exact ⟨b, mem_separators_of_isSeparator h, rfl⟩

end Text

/-! ### Lexemes -/

namespace Kind

/-- The character that a token of the kind is. -/
def mark? : Kind → Option UInt8
  | leftParen => some 0x28
  | rightParen => some 0x29
  | colon => some 0x3a
  | _ => none

/-- Neither an error nor a comment nor one character. -/
def isOrdinary (k : Kind) : Bool := k != .error && k != .comment && k.mark?.isNone

theorem isOrdinary_classify (v : Int) : (classify v).isOrdinary = true := by
  unfold classify
  repeat' split
  all_goals rfl

end Kind

theorem Vocabulary.isOrdinary_classify (v : Vocabulary) (word : Text) :
    (v.classify word).isOrdinary = true := by
  unfold Vocabulary.classify
  repeat' split
  all_goals rfl

namespace Lexeme

/-- What the kind of a lexeme says of its problem and of its end. -/
structure Marked (g : Glyph) (rest : List Glyph) (l : Lexeme) : Prop where
  problem : l.problem.isSome = (l.kind == .error)
  comment : l.kind = .comment → rest.drop l.extra = []
  mark : ∀ b, l.kind.mark? = some b → g.char = (asciiGlyph b).char ∧ l.extra = 0

variable {g : Glyph} {rest : List Glyph}

theorem marked_wrong (extra : Nat) (problem : LexicalError) : (wrong extra problem).Marked g rest :=
  ⟨rfl, fun h => (by cases h), fun b h => (by cases h)⟩

theorem marked_of_isOrdinary {l : Lexeme} (hkind : l.kind.isOrdinary = true)
    (hproblem : l.problem = none) : l.Marked g rest := by
  simp only [Kind.isOrdinary, Bool.and_eq_true, bne_iff_ne, ne_eq, Option.isNone_iff_eq_none] at hkind
  obtain ⟨⟨herror, hcomment⟩, hmark⟩ := hkind
  refine ⟨by simpa [hproblem] using herror, fun h => absurd h hcomment, fun b h => ?_⟩
  rw [hmark] at h
  cases h

theorem marked_number (text : Text) (extra : Nat) : (number text extra).Marked g rest := by
  unfold number
  split <;> split
  · exact marked_of_isOrdinary rfl rfl
  · exact marked_wrong _ _
  · exact marked_of_isOrdinary (Kind.isOrdinary_classify _) rfl
  · exact marked_wrong _ _

theorem marked_sign (c : Char) :
    ({ kind := if c == '-' then .minus else .plus, extra := 0 } : Lexeme).Marked g rest := by
  refine marked_of_isOrdinary ?_ rfl
  cases hminus : c == '-' <;> rfl

theorem marked_signed : (signed g rest).Marked g rest := by
  rcases signed_cases g rest with ⟨d, more, rfl, -, hnumber⟩ | halone
  · rw [hnumber]
    exact marked_number _ _
  · rw [halone]
    exact marked_sign g.char

theorem marked_quoted : (quoted rest).Marked g rest := by
  unfold quoted
  split
  · exact marked_of_isOrdinary rfl rfl
  · exact marked_wrong _ _

theorem marked_character : (character rest).Marked g rest := by
  unfold character
  split
  · split
    · exact marked_of_isOrdinary (Kind.isOrdinary_classify _) rfl
    · exact marked_wrong _ _
  · exact marked_wrong _ _

/-- A lexeme has a problem just if it is an error, a comment takes the rest of the line, and a
parenthesis or a colon is one character. -/
theorem marked_of_read {v : Vocabulary} {after : Bool} {l : Lexeme} (h : read v after g rest = some l) :
    l.Marked g rest := by
  revert h
  fun_cases read v after g rest with
  | case1 => rintro ⟨⟩
  | case2 =>
    rintro ⟨⟩
    exact ⟨rfl, fun _ => List.drop_length, fun b h => by cases h⟩
  | case3 =>
    rintro ⟨⟩
    exact marked_quoted
  | case4 =>
    rintro ⟨⟩
    exact marked_character
  | case5 =>
    rintro ⟨⟩
    split
    · exact marked_wrong _ _
    · exact marked_of_isOrdinary rfl rfl
  | case6 =>
    rintro ⟨⟩
    exact marked_number _ _
  | case7 =>
    rintro ⟨⟩
    exact marked_sign _
  | case8 =>
    rintro ⟨⟩
    exact marked_signed
  | case9 =>
    rintro ⟨⟩
    exact marked_of_isOrdinary (v.isOrdinary_classify _) rfl
  | case10 | case11 | case12 =>
    rename_i hchar
    rintro ⟨⟩
    refine ⟨rfl, fun h => (by cases h), ?_⟩
    rintro b ⟨⟩
    exact ⟨eq_of_beq hchar, rfl⟩
  | case13 =>
    rintro ⟨⟩
    exact marked_wrong _ _

end Lexeme

/-! ### Lines -/

namespace Vocabulary

variable {v : Vocabulary} {line : SourceLine} {after : Bool} {offset column : Nat}

theorem exists_front_of_mem_scan (front : List Glyph) {gs : List Glyph} (hoffset : offset = width front)
    (hcolumn : column = front.length) {p : Token × Option LexicalError}
    (hp : p ∈ v.scan line after offset column gs) :
    ∃ before behind, front ++ gs = before ++ behind ∧ p.1.offset = width before ∧
      p.1.column = before.length + 1 := by
  fun_induction Vocabulary.scan v line after offset column gs generalizing front with
  | case1 => cases hp
  | case2 after offset column g rest _ ih =>
    obtain ⟨before, behind, hsplit, hplaces⟩ := ih (front ++ [g])
      (by simp [hoffset]) (by simp [hcolumn]) hp
    rw [List.append_assoc, List.singleton_append] at hsplit
    exact ⟨before, behind, hsplit, hplaces⟩
  | case3 after offset column g rest lexeme hread text token =>
    rename_i ih
    rcases List.mem_cons.1 hp with rfl | hp
    · exact ⟨front, g :: rest, rfl, hoffset, congrArg _ hcolumn⟩
    · have hextra := Lexeme.extra_le_of_read hread
      obtain ⟨before, behind, hsplit, hplaces⟩ := ih (front ++ (g :: rest.take lexeme.extra))
        (by rw [width_append, hoffset]; rfl) (by simp [hcolumn]; omega) hp
      rw [List.append_assoc, List.cons_append, List.take_append_drop] at hsplit
      exact ⟨before, behind, hsplit, hplaces⟩

/-- Only separators stand between the tokens. -/
theorem mem_separators_of_scan {s front : Text} {gs : List Glyph} (hs : s = front ++ ofGlyphs gs)
    (hfront : front.length = offset)
    (hbytes : ∀ g ∈ gs, Lexeme.isSeparator g.char = true → ∃ b ∈ separators, g.bytes = [b])
    {place : Nat} {b : UInt8} (hplace : offset ≤ place) (hb : s[place]? = some b)
    (hfree : ∀ p ∈ v.scan line after offset column gs, ¬p.1.Covers place) : b ∈ separators := by
  fun_induction Vocabulary.scan v line after offset column gs generalizing front with
  | case1 after offset column =>
    have hlength : s.length = offset := by rw [hs, List.length_append, hfront]; rfl
    obtain ⟨hlt, -⟩ := List.getElem?_eq_some_iff.1 hb
    omega
  | case2 after offset column g rest hread ih =>
    have hsplit : s = front ++ g.bytes ++ ofGlyphs rest := hs.trans (append_ofGlyphs_cons front g rest)
    obtain ⟨x, hx, hg⟩ := hbytes g (List.mem_cons_self ..) (Lexeme.read_eq_none_iff.1 hread)
    by_cases hfirst : place = offset
    · rw [hsplit, hg, hfirst, ← hfront, List.append_assoc,
        List.getElem?_append_right (Nat.le_refl _), Nat.sub_self] at hb
      obtain rfl : x = b := Option.some_inj.1 hb
      exact hx
    · refine ih hsplit (by rw [List.length_append, hfront])
        (fun g hg => hbytes g (List.mem_cons_of_mem _ hg)) ?_ hfree
      rw [hg, List.length_singleton]
      omega
  | case3 after offset column g rest lexeme hread text token =>
    rename_i ih
    have hsplit : s = front ++ text ++ ofGlyphs (rest.drop lexeme.extra) :=
      hs.trans (append_ofGlyphs_take front g rest lexeme.extra)
    obtain ⟨htoken, hrest⟩ := List.forall_mem_cons.1 hfree
    have hbehind : offset + text.length ≤ place := by
      by_contra hinside
      exact htoken ⟨hplace, Nat.lt_of_not_le hinside⟩
    refine ih hsplit (by rw [List.length_append, hfront]) (fun g hg => hbytes g ?_) hbehind hrest
    exact List.mem_cons_of_mem _ (List.mem_of_mem_drop hg)

theorem ne_comment_of_mem_scan {gs : List Glyph} {p : Token × Option LexicalError}
    (hp : p ∈ (v.scan line after offset column gs).dropLast) : p.1.kind ≠ .comment := by
  fun_induction Vocabulary.scan v line after offset column gs with
  | case1 => cases hp
  | case2 after offset column g rest _ ih => exact ih hp
  | case3 after offset column g rest lexeme hread text token ih =>
    intro hcomment
    by_cases hnil : v.scan line lexeme.kind.isValue (offset + text.length) (column + 1 + lexeme.extra)
        (rest.drop lexeme.extra) = []
    · rw [hnil] at hp
      cases hp
    · rw [List.dropLast_cons_of_ne_nil hnil] at hp
      rcases List.mem_cons.1 hp with rfl | hp
      · rw [(Lexeme.marked_of_read hread).comment hcomment, scan] at hnil
        exact hnil rfl
      · exact ih hp hcomment

theorem problem_of_mem_scan {gs : List Glyph} {p : Token × Option LexicalError}
    (hp : p ∈ v.scan line after offset column gs) : p.2.isSome = (p.1.kind == .error) := by
  fun_induction Vocabulary.scan v line after offset column gs with
  | case1 => cases hp
  | case2 after offset column g rest _ ih => exact ih hp
  | case3 after offset column g rest lexeme hread text token ih =>
    rcases List.mem_cons.1 hp with rfl | hp
    · exact (Lexeme.marked_of_read hread).problem
    · exact ih hp

end Vocabulary

theorem TokenLine.of_mem_withoutComment {l : TokenLine} (h : ∀ t ∈ l.tokens.dropLast, t.kind ≠ .comment)
    {t : Token} (ht : t ∈ l.withoutComment.tokens) : t ∈ l.tokens ∧ t.kind ≠ .comment := by
  unfold withoutComment at ht
  split at ht
  · rename_i last hlast
    split at ht
    · exact ⟨(List.dropLast_sublist _).subset ht, h t ht⟩
    · rename_i hkind
      refine ⟨ht, ?_⟩
      obtain ⟨front, hfront⟩ := List.getLast?_eq_some_iff.1 hlast
      rw [hfront, List.dropLast_concat] at h
      rw [hfront] at ht
      rcases List.mem_append.1 ht with ht | ht
      · exact h t ht
      · rw [List.mem_singleton.1 ht]
        simpa using hkind
  · rename_i hlast
    rw [List.getLast?_eq_none_iff.1 hlast] at ht
    cases ht

theorem Vocabulary.problems_tokenizeText (v : Vocabulary) (text : Text) (line : SourceLine) :
    (v.tokenizeText text line).2.map Prod.fst =
      (v.tokenizeText text line).1.tokens.filter fun t => t.kind == .error := by
  have hmarked (p : Token × Option LexicalError) (hp : p ∈ v.scan line false 0 0 text.glyphs) :=
    problem_of_mem_scan hp
  unfold tokenizeText
  simp only
  generalize v.scan line false 0 0 text.glyphs = scanned at hmarked ⊢
  induction scanned with
  | nil => rfl
  | cons p scanned ih =>
    obtain ⟨hp, hscanned⟩ := List.forall_mem_cons.1 hmarked
    obtain ⟨t, problem⟩ := p
    cases problem with
    | none =>
      have hkind : (t.kind == .error) = false := hp.symm
      simpa [hkind] using ih hscanned
    | some error =>
      have hkind : (t.kind == .error) = true := hp.symm
      simpa [hkind] using ih hscanned

theorem cites_lexicalMessages (note : Text) (problems : List LexicalProblem) :
    List.Forall₂ Message.Cites (lexicalMessages note problems) (problems.map Prod.fst) := by
  induction problems with
  | nil => exact .nil
  | cons p problems ih => exact .cons ⟨rfl, rfl, rfl, rfl⟩ ih

/-- The characters before a token and those from it on are read one without the other. -/
theorem Vocabulary.glyphs_of_mem_tokenizeText {v : Vocabulary} {text : Text} {line : SourceLine}
    {t : Token} (ht : t ∈ (v.tokenizeText text line).1.tokens) :
    glyphs text = glyphs (text.take t.offset) ++ glyphs (text.drop t.offset) ∧
      t.column = (glyphs (text.take t.offset)).length + 1 := by
  obtain ⟨p, hp, rfl⟩ := List.mem_map.1 ht
  obtain ⟨before, behind, hsplit, hoffset, hcolumn⟩ :=
    exists_front_of_mem_scan [] rfl rfl hp
  rw [List.nil_append] at hsplit
  have hlegible : Legible (before ++ behind) := hsplit ▸ Legible.of_glyphs text
  have htext : text = ofGlyphs before ++ ofGlyphs behind := by
    rw [← ofGlyphs_append, ← hsplit, ofGlyphs_glyphs]
  have hbefore : text.take p.1.offset = ofGlyphs before := by
    rw [hoffset, htext]
    exact List.take_left
  have hbehind : text.drop p.1.offset = ofGlyphs behind := by
    rw [hoffset, htext]
    exact List.drop_left
  rw [hbefore, hbehind, hlegible.left, hlegible.right]
  exact ⟨hsplit, hcolumn⟩

/-- The lexer takes every text apart. -/
theorem Vocabulary.partitioned_tokenizeText (v : Vocabulary) (text : Text) (line : SourceLine) :
    text.Partitioned (v.tokenizeText text line).1.tokens
      (lexicalMessages [] (v.tokenizeText text line).2) := by
  have hspells : text.Spells 0 (v.tokenizeText text line).1.tokens := spanned_tokenizeText v text line
  have hglyphs : text = [] ++ ofGlyphs text.glyphs := (ofGlyphs_glyphs text).symm
  constructor
  case nonempty => exact fun t ht => (hspells.piece_of_mem ht).1
  case slice => exact fun t ht => (hspells.piece_of_mem ht).2
  case ordered => exact hspells.pairwise
  case between =>
    intro place b hb hfree
    have hscan : ∀ p ∈ v.scan line false 0 0 text.glyphs, ¬p.1.Covers place :=
      fun p hp => hfree p.1 (List.mem_map_of_mem hp)
    exact mem_separators_of_scan hglyphs rfl (fun g hg => exists_bytes_of_isSeparator hg)
      (Nat.zero_le place) hb hscan
  case start => exact fun t ht => (glyphs_of_mem_tokenizeText ht).1
  case column => exact fun t ht => (glyphs_of_mem_tokenizeText ht).2
  case comment =>
    intro t ht
    rw [Vocabulary.tokenizeText] at ht
    simp only [← List.map_dropLast] at ht
    obtain ⟨p, hp, rfl⟩ := List.mem_map.1 ht
    exact ne_comment_of_mem_scan hp
  case integer => exact fun t ht => (lexed_of_mem_tokenizeText ht).integer
  case messages =>
    rw [← problems_tokenizeText]
    exact cites_lexicalMessages _ _

/-- The tokens of a line and the separators between them are the line, and each of its messages is
about an error among them. -/
theorem Vocabulary.partitioned_tokenize (v : Vocabulary) (line : SourceLine) :
    line.text.Partitioned (v.tokenize line).1.tokens (lexicalMessages [] (v.tokenize line).2) :=
  v.partitioned_tokenizeText line.text line

end Rv32Assembler
