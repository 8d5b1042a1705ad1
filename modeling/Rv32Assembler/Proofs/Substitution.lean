import Mathlib.Data.List.Forall2
import Rv32Assembler.Proofs.Lexing
import Rv32Assembler.Proofs.Spans
/-!
# The start of a substituted line

The text of a body line in an expansion is read anew, and arguments may make other tokens of it than
the line of the file has. But up to its first directive a line that starts with words and colons keeps
its form: each colon is read as a colon, each word as a word, and the directive as something that is no
colon (`Vocabulary.renders_splice`). A word may get another name there, never that of the directive for
equivalences.
-/

namespace Rv32Assembler

open Text

def Token.isEquivalence (t : Token) : Bool := t.kind == .directive && t.text.lower == ".eqv"

/-! ### Texts and their characters -/

namespace Text

theorem ofGlyphs_cons_append (q : Glyph) (qs : List Glyph) (tail : Text) :
    ofGlyphs (q :: qs) ++ tail = q.bytes ++ (ofGlyphs qs ++ tail) := by simp [ofGlyphs]

def BreaksWord (s : Text) : Prop := ∀ g ∈ (glyphs s).head?, Lexeme.isWordPart g.char = false

theorem not_breaksWord {w : Text} (hw : w.isWord = true) (tail : Text) : ¬(w ++ tail).BreaksWord := by
  obtain ⟨g, gs, hglyphs, hstart, -⟩ := isWord_iff.1 hw
  intro hbreaks
  have hpart := hbreaks g (by rw [glyphs_word_append hw, hglyphs]; rfl)
  rw [Lexeme.isWordPart_of_isWordStart hstart] at hpart
  cases hpart

def Separate (qs : List Glyph) : Prop := ∀ q ∈ qs, q.IsWhole ∧ Lexeme.isSeparator q.char = true

end Text

/-- The kind is neither one of words nor that of a colon. -/
def Kind.isOther (k : Kind) : Bool := k != .colon && k != .directive && !k.isLabel

theorem Kind.isOther_classify (v : Int) : (Kind.classify v).isOther = true := by
  unfold Kind.classify
  repeat' split
  all_goals rfl

namespace Lexeme

variable {v : Vocabulary} {after : Bool} {g : Glyph} {rest : List Glyph}

theorem isWordPart_eq_false {c : Char} (h : isSeparator c = true ∨ c = ':') :
    isWordPart c = false := by
  simp only [isSeparator, Bool.or_eq_true, beq_iff_eq] at h
  rcases h with (((rfl | rfl) | rfl) | rfl) | rfl <;> decide

theorem not_part_of_wordLength (gs : List Glyph) :
    ∀ g ∈ (gs.drop (wordLength gs)).head?, isWordPart g.char = false := by
  induction gs with
  | nil => simp
  | cons g gs ih =>
    by_cases hpart : isWordPart g.char = true
    · simpa [wordLength, hpart] using ih
    · simp [wordLength, hpart]

theorem read_eq_none_iff : read v after g rest = none ↔ isSeparator g.char = true := by
  constructor
  · fun_cases read v after g rest
    case case1 hseparator => exact fun _ => hseparator
    all_goals
      intro h
      cases h
  · intro hseparator
    rw [read, if_pos hseparator]

theorem read_colon (h : g.char = ':') : read v after g rest = some { kind := .colon, extra := 0 } := by
  have hdigit : isDecimalDigit ':' = false := by decide
  have hstart : isWordStart ':' = false := by decide
  simp [read, h, isSeparator, isSign, hdigit, hstart]

theorem isOther_number (text : Text) (extra : Nat) : (number text extra).kind.isOther = true := by
  unfold number
  split <;> split
  · rfl
  · rfl
  · exact Kind.isOther_classify _
  · rfl

theorem isOther_sign :
    ({ kind := if g.char == '-' then .minus else .plus, extra := 0 } : Lexeme).kind.isOther = true := by
  cases hminus : g.char == '-' <;> rfl

theorem isOther_signed : (signed g rest).kind.isOther = true := by
  cases rest with
  | nil => exact isOther_sign
  | cons d more =>
    by_cases hdigit : isDecimalDigit d.char = true
    · simp only [signed, hdigit, if_true]
      exact isOther_number _ _
    · simp only [signed, hdigit, if_false, Bool.false_eq_true]
      exact isOther_sign

theorem read_cases {l : Lexeme} (h : read v after g rest = some l) :
    (isWordStart g.char = true ∧ l.extra = wordLength rest ∧
        l.kind = v.classify (ofGlyphs (g :: rest.take l.extra))) ∨
      (g.char = ':' ∧ l.extra = 0 ∧ l.kind = .colon) ∨ l.kind.isOther = true := by
  revert h
  fun_cases read v after g rest with
  | case1 => rintro ⟨⟩
  | case3 =>
    rintro ⟨⟩
    unfold quoted
    split <;> exact .inr (.inr rfl)
  | case4 =>
    rintro ⟨⟩
    unfold character
    split
    · split
      · exact .inr (.inr (Kind.isOther_classify _))
      · exact .inr (.inr rfl)
    · exact .inr (.inr rfl)
  | case5 =>
    rintro ⟨⟩
    split <;> exact .inr (.inr rfl)
  | case6 =>
    rintro ⟨⟩
    exact .inr (.inr (isOther_number _ _))
  | case7 =>
    rintro ⟨⟩
    exact .inr (.inr isOther_sign)
  | case8 =>
    rintro ⟨⟩
    exact .inr (.inr isOther_signed)
  | case9 _ _ _ _ _ _ _ _ hstart =>
    rintro ⟨⟩
    exact .inl ⟨hstart, rfl, rfl⟩
  | case12 =>
    rintro ⟨⟩
    rename_i hcolon
    exact .inr (.inl ⟨by simpa using hcolon, rfl, rfl⟩)
  | case2 | case10 | case11 | case13 =>
    rintro ⟨⟩
    exact .inr (.inr rfl)

end Lexeme

theorem Vocabulary.classify_cases (v : Vocabulary) (word : Text) :
    v.classify word ≠ .colon ∧ v.classify word ≠ .comment := by
  unfold Vocabulary.classify
  repeat' split
  all_goals simp

/-! ### Taking tokens from a text -/

/-- What is read as a token when `rest` follows: a colon is one character, and a word does not go on
into the rest. -/
structure Token.Precedes (v : Vocabulary) (t : Token) (rest : Text) : Prop where
  colon : t.kind = .colon → ∃ g : Glyph, g.IsWhole ∧ g.char = ':' ∧ t.text = g.bytes
  word : t.kind.isLabel = true ∨ t.kind = .directive →
    t.text.isWord = true ∧ t.kind = v.classify t.text ∧ rest.BreaksWord

namespace Vocabulary

variable {v : Vocabulary} {line : SourceLine} {after : Bool} {offset column : Nat}

theorem precedes_of_read {s rest : Text} {g : Glyph} {gs : List Glyph} {l : Lexeme} {t : Token}
    (hglyphs : glyphs s = g :: gs) (hread : Lexeme.read v after g gs = some l)
    (hkind : t.kind = l.kind) (htext : t.text = ofGlyphs (g :: gs.take l.extra))
    (hrest : glyphs rest = gs.drop l.extra) : t.Precedes v rest := by
  rcases Lexeme.read_cases hread with ⟨hstart, hextra, hword⟩ | ⟨hchar, hextra, hcolon⟩ | hother
  · rw [← htext, ← hkind] at hword
    refine ⟨fun hcolon => absurd (hword ▸ hcolon) (v.classify_cases _).1, fun _ => ⟨?_, hword, ?_⟩⟩
    · rw [htext]
      refine Lexeme.isWord_ofGlyphs (fun x hx => ?_) hstart hextra
      rw [← hglyphs] at hx
      exact Lexeme.isWhole_of_isWordPart hx
    · rw [BreaksWord, hrest, hextra]
      exact Lexeme.not_part_of_wordLength gs
  · rw [hextra] at htext
    refine ⟨fun _ => ⟨g, ?_, hchar, by simpa [ofGlyphs] using htext⟩, ?_⟩
    · exact isWhole_of_mem_glyphs (s := s) (by rw [hglyphs]; exact List.mem_cons_self ..)
        (by rw [hchar]; decide)
    · rw [hkind, hcolon]
      rintro (h | h) <;> cases h
  · rw [← hkind] at hother
    simp only [Kind.isOther, Bool.and_eq_true, bne_iff_ne, ne_eq, Bool.not_eq_true'] at hother
    obtain ⟨⟨hcolon, hdirective⟩, hlabel⟩ := hother
    refine ⟨fun h => absurd h hcolon, ?_⟩
    rintro (h | h)
    · rw [hlabel] at h
      cases h
    · exact absurd h hdirective

/-- The next token of a text stands behind separators. -/
theorem exists_of_scan_eq_cons {s : Text} {p : Token × Option LexicalError}
    {ps : List (Token × Option LexicalError)}
    (h : v.scan line after offset column (glyphs s) = p :: ps) :
    ∃ qs rest column', Separate qs ∧ s = ofGlyphs qs ++ (p.1.text ++ rest) ∧
      p.1.offset = offset + (ofGlyphs qs).length ∧ p.1.Precedes v rest ∧
      ps = v.scan line p.1.kind.isValue p.1.stop column' (glyphs rest) := by
  generalize hgs : glyphs s = gs at h
  induction gs generalizing s after offset column with
  | nil =>
    rw [scan] at h
    cases h
  | cons g gs ih =>
    rw [scan] at h
    cases hread : Lexeme.read v after g gs with
    | none =>
      rw [hread] at h
      have hseparator := Lexeme.read_eq_none_iff.1 hread
      have hwhole : g.IsWhole := by
        refine isWhole_of_mem_glyphs (s := s) (by rw [hgs]; exact List.mem_cons_self ..) ?_
        rintro hreplacement
        rw [hreplacement] at hseparator
        revert hseparator
        decide
      obtain ⟨later, hsplit, hlater⟩ := exists_glyphs_drop s 1
      rw [hgs] at hsplit hlater
      obtain ⟨qs, rest, column', hqs, hrest, hoffset, hprecedes, hps⟩ := ih hlater h
      refine ⟨g :: qs, rest, column', ?_, ?_, ?_, hprecedes, hps⟩
      · rintro q (_ | ⟨_, hq⟩)
        · exact ⟨hwhole, hseparator⟩
        · exact hqs q hq
      · rw [hsplit, hrest]
        simp [ofGlyphs]
      · rw [hoffset]
        simp [ofGlyphs, Nat.add_assoc]
    | some l =>
      rw [hread] at h
      obtain ⟨rfl, rfl⟩ := List.cons.inj h
      obtain ⟨rest, hsplit, hrest⟩ := exists_glyphs_drop s (l.extra + 1)
      rw [hgs, List.take_succ_cons] at hsplit
      rw [hgs, List.drop_succ_cons] at hrest
      refine ⟨[], rest, column + 1 + l.extra, List.forall_mem_nil _, hsplit, rfl, ?_,
        by rw [hrest]; rfl⟩
      exact precedes_of_read hgs hread rfl rfl hrest

end Vocabulary

/-! ### Putting tokens into a text -/

/-- What may become of a word or a colon. -/
structure Token.Becomes (t t' : Token) : Prop where
  colon : t'.kind = .colon ↔ t.kind = .colon
  comment : t'.kind ≠ .comment
  label : t.kind.isLabel = true → t'.isEquivalence = false

namespace Vocabulary

variable {v : Vocabulary} {line : SourceLine}

/-- Whatever stands before it, the text starts with what may become of the tokens. -/
def Renders (v : Vocabulary) (line : SourceLine) (ts : List Token) (s : Text) : Prop :=
  ∀ after offset column, ∃ front, front <+: (v.scan line after offset column (glyphs s)).map Prod.fst ∧
    List.Forall₂ Token.Becomes ts front

namespace Renders

variable {t : Token} {ts : List Token} {tail : Text}

theorem separators (h : v.Renders line ts tail) {qs : List Glyph} (hqs : Separate qs) :
    v.Renders line ts (ofGlyphs qs ++ tail) := by
  induction qs with
  | nil => exact h
  | cons q qs ih =>
    obtain ⟨⟨hwhole, hseparator⟩, hrest⟩ := List.forall_mem_cons.1 hqs
    intro after offset column
    rw [ofGlyphs_cons_append, hwhole, scan, Lexeme.read_eq_none_iff.2 hseparator]
    exact ih hrest _ _ _

/-- A lexeme that may have become of a token is the next token. -/
theorem cons (h : v.Renders line ts tail) (g : Glyph) (gs : List Glyph) {l : Lexeme}
    (hread : ∀ after, Lexeme.read v after g (gs ++ glyphs tail) = some l) (hextra : l.extra = gs.length)
    {s : Text} (hglyphs : glyphs s = g :: gs ++ glyphs tail)
    (ht : ∀ t' : Token, t'.kind = l.kind → t'.text = ofGlyphs (g :: gs) → t.Becomes t') :
    v.Renders line (t :: ts) s := by
  intro after offset column
  rw [hglyphs, List.cons_append, scan, hread after]
  simp only [hextra, List.take_left, List.drop_left, List.map_cons]
  obtain ⟨front, hfront, hbecomes⟩ := h l.kind.isValue
    (offset + (ofGlyphs (g :: gs)).length) (column + 1 + gs.length)
  exact ⟨_ :: front, (List.prefix_cons_inj _).2 hfront, .cons (ht _ rfl rfl) hbecomes⟩

theorem colon (h : v.Renders line ts tail) (ht : t.kind = .colon) {g : Glyph} (hwhole : g.IsWhole)
    (hchar : g.char = ':') : v.Renders line (t :: ts) (g.bytes ++ tail) := by
  refine h.cons g [] (fun _ => Lexeme.read_colon hchar) rfl (hwhole tail) ?_
  intro t' hkind _
  refine ⟨by rw [hkind, ht], by simp [hkind], fun hlabel => ?_⟩
  rw [ht] at hlabel
  cases hlabel

theorem word (h : v.Renders line ts tail) {w : Text} (hw : w.isWord = true) (htail : tail.BreaksWord)
    (ht : ∀ t' : Token, t'.kind = v.classify w → t'.text = w → t.Becomes t') :
    v.Renders line (t :: ts) (w ++ tail) := by
  obtain ⟨g, gs, hglyphs, hstart, hparts⟩ := isWord_iff.1 hw
  have hlength : Lexeme.wordLength (gs ++ glyphs tail) = gs.length :=
    Lexeme.wordLength_append hparts htail
  have htext : ofGlyphs (g :: gs) = w := by rw [← hglyphs, ofGlyphs_glyphs]
  refine h.cons g gs (l := { kind := v.classify w, extra := gs.length })
    (fun _ => ?_) rfl ?_ ?_
  · rw [Lexeme.read_of_isWordStart hstart, hlength, List.take_left, htext]
  · rw [glyphs_word_append hw, hglyphs]
  · rwa [htext]

/-- What starts with a word is a word at its start, however it goes on. -/
theorem start {w : Text} (hw : w.isWord = true) (ht : t.kind = .directive) (tail : Text) :
    v.Renders line [t] (w ++ tail) := by
  obtain ⟨g, gs, hglyphs, hstart, -⟩ := isWord_iff.1 hw
  intro after offset column
  rw [glyphs_word_append hw, hglyphs, List.cons_append, scan, Lexeme.read_of_isWordStart hstart]
  refine ⟨[_], (List.prefix_cons_inj _).2 List.nil_prefix, .cons ⟨?_, ?_, ?_⟩ .nil⟩
  · rw [ht]
    exact iff_of_false (v.classify_cases _).1 (by decide)
  · exact (v.classify_cases _).2
  · intro hlabel
    rw [ht] at hlabel
    cases hlabel

end Renders

end Vocabulary

/-! ### Putting the replacements into a line -/

namespace Text

theorem splice_of_admits {s : Text} {done place : Nat} {edits : List Edit} (h : s.Admits place edits)
    (hle : done ≤ place) :
    s.splice done edits = (s.drop done).take (place - done) ++ s.splice place edits := by
  have hplace : done + (place - done) = place := by omega
  cases edits with
  | nil =>
    rw [splice, splice]
    conv_lhs => rw [← List.take_append_drop (place - done) (s.drop done), List.drop_drop, hplace]
  | cons e edits =>
    have hstart : e.start - done = place - done + (e.start - place) := by
      have := h.1
      omega
    rw [splice, splice, hstart, List.take_add, List.drop_drop, hplace]
    simp only [List.append_assoc]

/-- In place of a token stands its replacement, if it has one. -/
theorem Spells.splice_cons {s : Text} {done : Nat} {t : Token} {ts : List Token} {later : List Edit}
    (h : s.Spells done (t :: ts)) (hlater : s.Admits t.stop later) (new : Option Text) :
    s.splice done ((new.map fun text => ⟨t.offset, t.stop, text⟩).toList ++ later) =
      (s.drop done).take (t.offset - done) ++ (new.getD t.text ++ s.splice t.stop later) := by
  obtain ⟨hstart, -, hslice, -⟩ := h
  cases new with
  | some text =>
    simp only [Option.map_some, Option.toList_some, List.cons_append, List.nil_append, splice,
      Option.getD_some, List.append_assoc]
  | none =>
    have hbounds := le_of_slice? hslice
    have hstop : t.stop - done = t.offset - done + (t.stop - t.offset) := by omega
    have hoffset : done + (t.offset - done) = t.offset := by omega
    rw [slice?_of_le hbounds.1 hbounds.2, Option.some_inj, List.drop_take] at hslice
    rw [Option.map_none, Option.toList_none, List.nil_append, Option.getD_none,
      splice_of_admits hlater (by omega), hstop, List.take_add, List.drop_drop, hoffset, hslice,
      List.append_assoc]

theorem breaksWord_of_isWhole {g : Glyph} (hwhole : g.IsWhole)
    (hchar : Lexeme.isSeparator g.char = true ∨ g.char = ':') (tail : Text) :
    (g.bytes ++ tail).BreaksWord := by
  rw [BreaksWord, hwhole]
  rintro x ⟨⟩
  exact Lexeme.isWordPart_eq_false hchar

theorem Separate.breaksWord_of_imp {qs : List Glyph} (h : Separate qs) {s s' : Text}
    (himp : s.BreaksWord → s'.BreaksWord) (hbreaks : (ofGlyphs qs ++ s).BreaksWord) :
    (ofGlyphs qs ++ s').BreaksWord := by
  cases qs with
  | nil => exact himp hbreaks
  | cons q qs =>
    obtain ⟨⟨hwhole, hseparator⟩, -⟩ := List.forall_mem_cons.1 h
    rw [ofGlyphs_cons_append]
    exact breaksWord_of_isWhole hwhole (.inl hseparator) _

end Text

namespace Macro

variable {m : Macro} {call : List Token} {counter : Int} {t : Token}

theorem exists_edits_cons {ts : List Token} {edits : List Edit}
    (h : m.edits call counter (t :: ts) = .ok edits) :
    ∃ new later, m.replacement call counter t = .ok new ∧ m.edits call counter ts = .ok later ∧
      edits = (new.map fun text => ⟨t.offset, t.stop, text⟩).toList ++ later := by
  rw [Macro.edits] at h
  cases hnew : m.replacement call counter t with
  | error e =>
    rw [hnew] at h
    cases h
  | ok new =>
    cases hlater : m.edits call counter ts with
    | error e =>
      rw [hnew, hlater] at h
      cases h
    | ok later =>
      refine ⟨new, later, rfl, rfl, ?_⟩
      rw [hnew, hlater] at h
      cases new <;> exact (Except.ok.inj h).symm

theorem replacement_of_plain (hparameter : t.kind ≠ .macroParameter) (hlabel : t.kind.isLabel = false) :
    m.replacement call counter t = .ok none := by
  simp [replacement, hparameter, hlabel]

theorem replacement_of_label {new : Option Text} (hlabel : t.kind.isLabel = true)
    (h : m.replacement call counter t = .ok new) : new = none ∨ new = some (renamed t.text counter) := by
  have hparameter : t.kind ≠ .macroParameter := by
    intro hkind
    rw [hkind] at hlabel
    cases hlabel
  rw [replacement, if_neg (by simpa using hparameter)] at h
  split at h
  · exact .inr (Except.ok.inj h).symm
  · exact .inl (Except.ok.inj h).symm

theorem renamed_eq (w : Text) (n : Nat) :
    ∃ tail, renamed w n = w ++ tail ∧ 0x5f ∈ tail ∧ ∀ b ∈ tail, b < 0x80 ∧
      Lexeme.isWordPart (asciiGlyph b).char = true := by
  have hsuffix : ∀ b ∈ ofString "_M", b < 0x80 ∧ Lexeme.isWordPart (asciiGlyph b).char = true := by
    decide +kernel
  refine ⟨"_M" ++ decimal n, List.append_assoc .., ?_, ?_⟩
  · exact List.mem_append_left _ (by decide)
  · intro b hb
    rcases List.mem_append.1 hb with hb | hb
    · exact hsuffix b hb
    · have hdigit : IsDigit b := by
        rw [decimal, if_neg (by omega)] at hb
        exact isDigit_of_mem_digits hb
      exact ⟨hdigit.lt_ascii, by simp [Lexeme.isWordPart, hdigit.isDecimalDigit]⟩

theorem isWord_renamed {w : Text} (hw : w.isWord = true) (n : Nat) : (renamed w n).isWord = true := by
  obtain ⟨tail, htail, -, hascii⟩ := renamed_eq w n
  obtain ⟨g, gs, hglyphs, hstart, hparts⟩ := isWord_iff.1 hw
  refine isWord_iff.2 ⟨g, gs ++ tail.map asciiGlyph, ?_, hstart, ?_⟩
  · rw [htail, glyphs_word_append hw, hglyphs, glyphs_ascii fun b hb => (hascii b hb).1]
    rfl
  · intro x hx
    rcases List.mem_append.1 hx with hx | hx
    · exact hparts x hx
    · obtain ⟨b, hb, rfl⟩ := List.mem_map.1 hx
      exact (hascii b hb).2

/-- The underscore in the name of a renamed label is in no directive for equivalences. -/
theorem lower_renamed {w : Text} (hw : w.isWord = true) (n : Nat) : (renamed w n).lower ≠ ".eqv" := by
  obtain ⟨tail, htail, hunderscore, hascii⟩ := renamed_eq w n
  intro hlower
  have hmem : (0x5f : UInt8) ∈ (renamed w n).lower := by
    rw [htail, lower, glyphs_word_append hw, glyphs_ascii fun b hb => (hascii b hb).1]
    refine List.mem_flatMap.2 ⟨asciiGlyph 0x5f, ?_, by decide⟩
    exact List.mem_append_right _ (List.mem_map_of_mem hunderscore)
  rw [hlower] at hmem
  revert hmem
  decide

end Macro

namespace Vocabulary

variable {v : Vocabulary} {m : Macro} {call : List Token} {s : Text} {line : SourceLine}

theorem exists_splice_cons {counter : Int} {after : Bool} {done column : Nat} {t : Token}
    {ts : List Token} {edits : List Edit} (hspells : s.Spells done (t :: ts))
    (hscan : (v.scan line after done column (glyphs (s.drop done))).map Prod.fst = t :: ts)
    (hedits : m.edits call counter (t :: ts) = .ok edits) :
    ∃ qs column' new later, Separate qs ∧
      s.drop done = ofGlyphs qs ++ (t.text ++ s.drop t.stop) ∧ t.Precedes v (s.drop t.stop) ∧
      m.replacement call counter t = .ok new ∧ m.edits call counter ts = .ok later ∧
      s.splice done edits = ofGlyphs qs ++ (new.getD t.text ++ s.splice t.stop later) ∧
      (v.scan line t.kind.isValue t.stop column' (glyphs (s.drop t.stop))).map Prod.fst = ts := by
  obtain ⟨p, ps, hps, rfl, hts⟩ := List.map_eq_cons_iff.1 hscan
  obtain ⟨qs, rest, column', hqs, hdrop, hoffset, hprecedes, rfl⟩ := exists_of_scan_eq_cons hps
  have hrest : s.drop p.1.stop = rest := by
    have hstop : p.1.stop = done + ((ofGlyphs qs).length + p.1.text.length) := by
      rw [Token.stop, hoffset, Nat.add_assoc]
    rw [hstop, ← List.drop_drop, hdrop, ← List.append_assoc, ← List.length_append, List.drop_left]
  obtain ⟨new, later, hnew, hlater, rfl⟩ := Macro.exists_edits_cons hedits
  have hadmits : s.Admits p.1.stop later := hspells.2.2.2.admits (Macro.sublist_edits hlater)
  refine ⟨qs, column', new, later, hqs, by rw [hrest, hdrop], by rwa [hrest], hnew, hlater, ?_, ?_⟩
  · rw [hspells.splice_cons hadmits, hdrop, hoffset, Nat.add_sub_cancel_left, List.take_left]
  · rw [hrest]
    exact hts

theorem becomes_of_label {counter : Nat} {t : Token} {rest : Text} {new : Option Text}
    (ht : t.kind.isLabel = true) (hprecedes : t.Precedes v rest)
    (hnew : m.replacement call counter t = .ok new) :
    (new.getD t.text).isWord = true ∧ ∀ t' : Token, t'.kind = v.classify (new.getD t.text) →
      t'.text = new.getD t.text → t.Becomes t' := by
  obtain ⟨hword, hkind, -⟩ := hprecedes.word (.inl ht)
  have hcolon : t.kind ≠ .colon := hkind ▸ (v.classify_cases _).1
  rcases Macro.replacement_of_label ht hnew with rfl | rfl
  · refine ⟨hword, fun t' hkind' _ => ?_⟩
    have hsame : t'.kind = t.kind := hkind'.trans hkind.symm
    refine ⟨by rw [hsame], hkind' ▸ (v.classify_cases _).2, fun _ => ?_⟩
    have hdirective : t.kind ≠ .directive := by
      intro h
      rw [h] at ht
      cases ht
    simp [Token.isEquivalence, hsame, hdirective]
  · refine ⟨Macro.isWord_renamed hword counter, fun t' hkind' htext => ?_⟩
    have hcolon' : t'.kind ≠ .colon := hkind' ▸ (v.classify_cases _).1
    refine ⟨iff_of_false hcolon' hcolon, hkind' ▸ (v.classify_cases _).2, fun _ => ?_⟩
    have hlower : t'.text.lower ≠ ".eqv" := htext ▸ Macro.lower_renamed hword counter
    simp [Token.isEquivalence, hlower]

/-- A body line that has words and colons before a directive starts in an expansion with what has
become of them. -/
theorem renders_splice {line' : SourceLine} {counter : Nat} {after : Bool} {done column : Nat}
    {front rest : List Token} {d : Token} {edits : List Edit}
    (hspells : s.Spells done (front ++ d :: rest))
    (hscan : (v.scan line after done column (glyphs (s.drop done))).map Prod.fst = front ++ d :: rest)
    (hedits : m.edits call counter (front ++ d :: rest) = .ok edits)
    (hfront : ∀ t ∈ front, t.kind.isLabel = true ∨ t.kind = .colon) (hd : d.kind = .directive) :
    v.Renders line' (front ++ [d]) (s.splice done edits) ∧
      (BreaksWord (s.drop done) → BreaksWord (s.splice done edits)) := by
  induction front generalizing after done column edits with
  | nil =>
    obtain ⟨qs, -, new, later, hqs, hdrop, hprecedes, hnew, -, hsplice, -⟩ :=
      exists_splice_cons hspells hscan hedits
    obtain ⟨hword, -, -⟩ := hprecedes.word (.inr hd)
    obtain rfl : new = none := Except.ok.inj <| hnew.symm.trans <|
      Macro.replacement_of_plain (by simp [hd]) (by rw [hd]; rfl)
    rw [hsplice, hdrop]
    refine ⟨(Renders.start hword hd _).separators hqs, hqs.breaksWord_of_imp fun hbreaks => ?_⟩
    exact absurd hbreaks (not_breaksWord hword _)
  | cons t front ih =>
    obtain ⟨qs, column', new, later, hqs, hdrop, hprecedes, hnew, hlater, hsplice, hnext⟩ :=
      exists_splice_cons hspells hscan hedits
    obtain ⟨ht, hfront⟩ := List.forall_mem_cons.1 hfront
    obtain ⟨hrenders, hbreaks⟩ := ih hspells.2.2.2 hnext hlater hfront
    rw [hsplice, hdrop]
    rcases ht with hlabel | hcolon
    · obtain ⟨hword, -, hends⟩ := hprecedes.word (.inl hlabel)
      obtain ⟨hnewWord, hbecomes⟩ := becomes_of_label hlabel hprecedes hnew
      refine ⟨(hrenders.word hnewWord (hbreaks hends) hbecomes).separators hqs,
        hqs.breaksWord_of_imp fun hstart => ?_⟩
      exact absurd hstart (not_breaksWord hword _)
    · obtain ⟨g, hwhole, hchar, htext⟩ := hprecedes.colon hcolon
      obtain rfl : new = none := Except.ok.inj <| hnew.symm.trans <|
        Macro.replacement_of_plain (by simp [hcolon]) (by rw [hcolon]; rfl)
      rw [Option.getD_none, htext]
      refine ⟨(hrenders.colon hcolon hwhole hchar).separators hqs,
        hqs.breaksWord_of_imp fun _ => ?_⟩
      exact breaksWord_of_isWhole hwhole (.inr hchar) _

end Vocabulary

end Rv32Assembler
