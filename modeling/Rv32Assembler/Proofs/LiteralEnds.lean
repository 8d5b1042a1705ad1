import Rv32Assembler.Proofs.CharacterLiterals
/-!
# Where literals end

The closing quote is looked for among characters, where a backslash hides the next character. Between the
quotes the escapes are decoded among bytes, where a backslash takes one byte, three or five. The two may
fall out of step, but only behind an escape that is malformed, and of the problems of a literal the first
alone is reported. So decoding never says of a literal that it ends in a backslash
(`Vocabulary.ne_dangling_in_quotes`). Where no escape is malformed, a text that is decoded is closed by a
quote right behind it, and one that ends in a backslash is not.
-/

namespace Rv32Assembler

open Text

/-! ### Backslashes and what they hide -/

/-- Every backslash stands before a byte that it hides. -/
inductive Paired : Text → Prop
  | nil : Paired []
  | raw {b : UInt8} {s : Text} (hb : b ≠ 0x5c) (h : Paired s) : Paired (b :: s)
  | escaped {c : UInt8} {s : Text} (h : Paired s) : Paired (0x5c :: c :: s)

namespace Paired

variable {s : Text} {b c : UInt8}

theorem cons_iff (hb : b ≠ 0x5c) : Paired (b :: s) ↔ Paired s := by
  refine ⟨fun h => ?_, .raw hb⟩
  cases h with
  | raw _ h => exact h
  | escaped => exact absurd rfl hb

theorem escape_iff : Paired (0x5c :: c :: s) ↔ Paired s := by
  refine ⟨fun h => ?_, .escaped⟩
  cases h with
  | raw hb => exact absurd rfl hb
  | escaped h => exact h

theorem not_backslash : ¬Paired [0x5c] := by
  rintro (_ | ⟨hb, _⟩)
  exact hb rfl

theorem drop_iff {n : Nat} (hn : 0x5c ∉ s.take n) : Paired (s.drop n) ↔ Paired s := by
  induction n generalizing s with
  | zero => exact Iff.rfl
  | succ n ih =>
    cases s with
    | nil => exact Iff.rfl
    | cons b s =>
      rw [List.take_succ_cons, List.mem_cons, not_or] at hn
      rw [List.drop_succ_cons, ih hn.2, cons_iff (Ne.symm hn.1)]

/-- Of a character only the first byte may be a backslash. -/
theorem drop_firstGlyph_iff (b : UInt8) (s : Text) :
    Paired (s.drop (firstGlyph b s).2) ↔ Paired s :=
  drop_iff fun hmem => absurd (isTail_of_mem_firstGlyph hmem) (by decide)

end Paired

/-! ### Decoding -/

namespace Literal

theorem not_mem_of_digitsFrom {base limit acc n : Nat} {s : Text}
    (h : digitsFrom base limit acc s = .ok n) : (0x5c : UInt8) ∉ s := by
  induction s generalizing acc with
  | nil => simp
  | cons b s ih =>
    unfold digitsFrom at h
    split at h
    · cases h
    · rename_i d hd
      split at h
      · split at h
        · rw [List.mem_cons, not_or]
          refine ⟨?_, ih h⟩
          rintro rfl
          cases hd
        · cases h
      · cases h

theorem not_mem_of_digits {base limit n : Nat} {s : Text} (h : digits base limit s = .ok n) :
    (0x5c : UInt8) ∉ s := by
  cases s with
  | nil => cases h
  | cons b s => exact not_mem_of_digitsFrom h

theorem ne_of_isOctal {b : UInt8} (h : isOctal b = true) : b ≠ 0x5c := by
  rintro rfl
  cases h

/-- What an escape takes: it is never taken for a backslash at the end, and unless it is malformed the
bytes are no backslashes. -/
structure Escape.Takes (e : Escape) (rest : Text) : Prop where
  not_dangling : ∀ body, e.problem ≠ some (.dangling body)
  plain : e.problem = none → 0x5c ∉ rest.take e.extra

theorem takes_of_extra_eq_zero {e : Escape} (rest : Text)
    (hdangling : ∀ body, e.problem ≠ some (.dangling body)) (hextra : e.extra = 0) : e.Takes rest :=
  ⟨hdangling, fun _ => by simp [hextra]⟩

theorem takes_octalEscape (b : UInt8) (rest : Text) : (octalEscape b rest).Takes rest := by
  have hshort : (if b == 0x30 then (⟨[0], none, 0⟩ : Escape)
      else ⟨[0x5c, b], some (.octal b), 0⟩).Takes rest := by
    split <;> exact takes_of_extra_eq_zero rest (by simp) rfl
  unfold octalEscape
  simp only
  split
  · split
    · rename_i hoctal
      rw [Bool.and_eq_true] at hoctal
      split
      · refine ⟨by simp, fun _ => ?_⟩
        simp [(ne_of_isOctal hoctal.1).symm, (ne_of_isOctal hoctal.2).symm]
      · exact ⟨by simp, by simp⟩
    · exact hshort
  · exact hshort

theorem takes_codeEscape (b : UInt8) (rest : Text) : (codeEscape b rest).Takes rest := by
  unfold codeEscape
  split
  · exact ⟨by simp, by simp⟩
  · split
    · rename_i hdigits
      exact ⟨by simp, fun _ => not_mem_of_digits hdigits⟩
    · exact ⟨by simp, by simp⟩

theorem takes_escape (b : UInt8) (rest : Text) : (escape b rest).Takes rest := by
  unfold escape
  split
  · exact takes_of_extra_eq_zero rest (by simp) rfl
  · split
    · exact takes_octalEscape b rest
    · split
      · exact takes_codeEscape b rest
      · exact takes_of_extra_eq_zero rest (by simp) rfl

/-- If decoding reports nothing, every backslash stands before what it hides; if it reports an escape at
the end, the last one does not. -/
theorem unescapeFrom_paired (body s : Text) :
    ((unescapeFrom body s).2 = none → Paired s) ∧
      ∀ b, (unescapeFrom body s).2 = some (.dangling b) → ¬Paired s := by
  induction hn : s.length using Nat.strongRecOn generalizing s with
  | ind n ih =>
    rcases s with _ | ⟨b, s⟩
    · rw [unescapeFrom]
      exact ⟨fun _ => .nil, fun b h => by cases h⟩
    · by_cases hb : b = 0x5c
      · subst hb
        rcases s with _ | ⟨c, rest⟩
        · rw [unescapeFrom.eq_def]
          exact ⟨fun h => (by cases h), fun b _ => Paired.not_backslash⟩
        · obtain ⟨hdangling, hplain⟩ := takes_escape c rest
          have hrest := ih (rest.drop (escape c rest).extra).length
            (by rw [← hn, List.length_drop, List.length_cons, List.length_cons]; omega) _ rfl
          rw [unescapeFrom_escape, Paired.escape_iff]
          cases hproblem : (escape c rest).problem with
          | some e =>
            -- The first problem is the one reported, so what is found behind this escape does not count.
            refine ⟨fun h => (by cases h), fun b h => ?_⟩
            rw [hproblem] at hdangling
            exact absurd h (hdangling b)
          | none => rwa [Option.none_or, ← Paired.drop_iff (hplain hproblem)]
      · rw [unescapeFrom_raw body hb, Paired.cons_iff hb]
        exact ih s.length (by rw [← hn]; exact Nat.lt_succ_self _) s rfl

theorem unescape_of_character {body : Text} {e : EscapeError} (h : character body = .error (.escape e)) :
    (unescape body).2 = some e := by
  unfold character at h
  split at h
  · rename_i hunescape
    cases h
    rw [hunescape]
  · split at h <;> cases h

end Literal

/-! ### Scanning -/

namespace Lexeme

theorem map_add_eq_some_iff {o : Option Nat} {k n : Nat} :
    o.map (· + k) = some (n + k) ↔ o = some n := by
  simp [Option.map_eq_some_iff]

/-- A mark right behind a text closes it just if none in it does and no backslash hides the mark. -/
theorem closing?_append_mark_iff {x : Glyph} (hx : x.char ≠ '\\') (s : Text) (rest : List Glyph) :
    closing? x.char (glyphs s ++ x :: rest) = some ((glyphs s).length + 1) ↔
      closing? x.char (glyphs s) = none ∧ Paired s := by
  induction hn : s.length using Nat.strongRecOn generalizing s with
  | ind n ih =>
    rcases s with _ | ⟨b, s⟩
    · rw [glyphs, List.nil_append, closing?_mark hx]
      exact ⟨fun _ => ⟨rfl, .nil⟩, fun _ => rfl⟩
    · by_cases hb : b = 0x5c
      · subst hb
        rw [glyphs_cons_ascii (by decide)]
        rcases s with _ | ⟨c, s⟩
        · rw [glyphs, List.singleton_append, closing?_escape rfl]
          refine ⟨fun h => ?_, fun h => absurd h.2 Paired.not_backslash⟩
          exact absurd (of_closing? (map_add_eq_some_iff (n := 0).1 h)).1 (Nat.lt_irrefl 0)
        · have hrest := ih (s.drop (firstGlyph c s).2).length
            (by rw [← hn, List.length_drop, List.length_cons, List.length_cons]; omega) _ rfl
          rw [Paired.drop_firstGlyph_iff] at hrest
          rw [glyphs, List.cons_append, List.cons_append, closing?_escape rfl, closing?_escape rfl,
            Option.map_eq_none_iff, Paired.escape_iff, ← hrest]
          exact map_add_eq_some_iff (k := 2)
      · have hescape : (firstGlyph b s).1.char ≠ '\\' :=
          mt (firstGlyph_char_iff (x := 0x5c) (by decide)).1 hb
        have hrest := ih (s.drop (firstGlyph b s).2).length
          (by rw [← hn, List.length_drop, List.length_cons]; omega) _ rfl
        rw [Paired.drop_firstGlyph_iff] at hrest
        rw [glyphs, List.cons_append, Paired.cons_iff hb]
        by_cases hmark : (firstGlyph b s).1.char = x.char
        · rw [← hmark, closing?_mark hescape, closing?_mark hescape]
          simp
        · rw [closing?_cons hescape hmark, closing?_cons hescape hmark, Option.map_eq_none_iff, ← hrest]
          exact map_add_eq_some_iff (k := 1)

theorem eq_asciiGlyph_of_char {gs : List Glyph} (hgs : Legible gs) {x : Glyph} (hx : x ∈ gs)
    {mark : UInt8} (hmark : mark < 0x80) (hchar : x.char = (asciiGlyph mark).char) : x = asciiGlyph mark := by
  have hcode : x.char.toNat < 0x80 := by
    rw [hchar, toNat_asciiGlyph]
    exact UInt8.lt_iff_toNat_lt.1 hmark
  obtain ⟨b, -, rfl⟩ := exists_eq_asciiGlyph (s := ofGlyphs gs) (by rwa [hgs]) hcode
  rw [asciiGlyph_char_inj hchar]

/-- Between its marks, a literal has every backslash before what it hides. -/
theorem paired_of_closing? {mark : UInt8} (hmark : mark < 0x80) (hescape : mark ≠ 0x5c) {g : Glyph}
    {rest : List Glyph} (hlegible : Legible (g :: rest)) (hg : g.char = (asciiGlyph mark).char) {n : Nat}
    (h : closing? (asciiGlyph mark).char rest = some n) :
    ofGlyphs (g :: rest.take n) = mark :: ofGlyphs (rest.take (n - 1)) ++ [mark] ∧
      Paired (ofGlyphs (rest.take (n - 1))) := by
  obtain rfl := eq_asciiGlyph_of_char hlegible (List.mem_cons_self ..) hmark hg
  have hrest : Legible rest := (show Legible ([asciiGlyph mark] ++ rest) from hlegible).right
  obtain ⟨x, hlast, hx⟩ := exists_getLast?_of_closing? h
  obtain ⟨front, hfront⟩ := List.getLast?_eq_some_iff.1 hlast
  have hsplit : rest = front ++ x :: rest.drop n := by
    rw [← List.singleton_append, ← List.append_assoc, ← hfront, List.take_append_drop]
  obtain rfl := eq_asciiGlyph_of_char hrest (hsplit ▸ by simp) hmark hx
  have hlength : front.length + 1 = n := by
    have htake := congrArg List.length hfront
    rw [List.length_take_of_le (of_closing? h).2, List.length_append, List.length_singleton] at htake
    exact htake.symm
  have hbody : rest.take (n - 1) = front := by
    rw [hsplit, ← hlength, Nat.add_sub_cancel, List.take_left]
  have hread : glyphs (ofGlyphs front) = front := (hsplit ▸ hrest).left
  rw [hbody, hfront]
  refine ⟨by rw [ofGlyphs_cons, ofGlyphs_append]; rfl, ?_⟩
  refine ((closing?_append_mark_iff (x := asciiGlyph mark) ?_ (ofGlyphs front) (rest.drop n)).1 ?_).2
  · exact fun h => hescape (asciiGlyph_char_inj (x := 0x5c) h)
  · rw [hread, ← hsplit, hlength]
    exact h

/-! ### Literals of a line -/

/-- The lexeme is no string, and it is not wrong as a character. -/
structure Unquoted (l : Lexeme) : Prop where
  kind : l.kind ≠ .quotedString
  problem : ∀ e, l.problem ≠ some (.character e)

variable {g : Glyph} {rest : List Glyph} {l : Lexeme}

theorem unquoted_of_kind (hkind : l.kind ≠ .quotedString) (hproblem : l.problem = none) : l.Unquoted :=
  ⟨hkind, fun e h => by rw [hproblem] at h; cases h⟩

theorem unquoted_of_wrong (extra : Nat) {e : LexicalError} (he : ∀ e', e ≠ .character e') :
    (wrong extra e).Unquoted :=
  ⟨fun h => (by cases h), fun e' h => he e' (Option.some_inj.1 h)⟩

theorem unquoted_of_isInteger (hkind : l.kind.isInteger = true) (hproblem : l.problem = none) :
    l.Unquoted :=
  unquoted_of_kind (fun h => by rw [h] at hkind; cases hkind) hproblem

theorem unquoted_number (text : Text) (extra : Nat) : (number text extra).Unquoted := by
  unfold number
  split <;> split
  · exact unquoted_of_kind (fun h => by cases h) rfl
  · exact unquoted_of_wrong _ (by simp)
  · exact unquoted_of_isInteger (Kind.isInteger_classify _) rfl
  · exact unquoted_of_wrong _ (by simp)

theorem unquoted_sign (c : Char) :
    ({ kind := if c == '-' then .minus else .plus, extra := 0 } : Lexeme).Unquoted := by
  refine unquoted_of_kind ?_ rfl
  cases hminus : c == '-' <;> exact fun h => (by cases h)

theorem unquoted_signed : (signed g rest).Unquoted := by
  rcases signed_cases g rest with ⟨d, more, rfl, -, hnumber⟩ | halone
  · rw [hnumber]
    exact unquoted_number _ _
  · rw [halone]
    exact unquoted_sign g.char

theorem read_cases_of_quote {v : Vocabulary} {after : Bool} (h : read v after g rest = some l) :
    l.Unquoted ∨ g.char = '"' ∧ l = quoted rest ∨ g.char = '\'' ∧ l = character rest := by
  revert h
  fun_cases read v after g rest with
  | case1 => rintro ⟨⟩
  | case3 _ _ _ hquote =>
    rintro ⟨⟩
    exact .inr (.inl ⟨eq_of_beq hquote, rfl⟩)
  | case4 _ _ _ _ hquote =>
    rintro ⟨⟩
    exact .inr (.inr ⟨eq_of_beq hquote, rfl⟩)
  | case5 =>
    rintro ⟨⟩
    split
    · exact .inl (unquoted_of_wrong _ (by simp))
    · exact .inl (unquoted_of_kind (fun h => by cases h) rfl)
  | case6 =>
    rintro ⟨⟩
    exact .inl (unquoted_number _ _)
  | case7 =>
    rintro ⟨⟩
    exact .inl (unquoted_sign _)
  | case8 =>
    rintro ⟨⟩
    exact .inl unquoted_signed
  | case9 =>
    rintro ⟨⟩
    refine .inl (unquoted_of_kind ?_ rfl)
    unfold Vocabulary.classify
    repeat' split
    all_goals exact fun h => (by cases h)
  | case2 | case10 | case11 | case12 =>
    rintro ⟨⟩
    exact .inl (unquoted_of_kind (fun h => by cases h) rfl)
  | case13 =>
    rintro ⟨⟩
    exact .inl (unquoted_of_wrong _ (by simp))

theorem kind_character (rest : List Glyph) : (character rest).kind ≠ .quotedString := by
  unfold character
  split
  · split
    · exact (unquoted_of_isInteger (Kind.isInteger_classify _) rfl).kind
    · exact fun h => (by cases h)
  · exact fun h => (by cases h)

theorem of_quotedString {v : Vocabulary} {after : Bool} (h : read v after g rest = some l)
    (hkind : l.kind = .quotedString) :
    g.char = (asciiGlyph 0x22).char ∧ closing? (asciiGlyph 0x22).char rest = some l.extra := by
  rcases read_cases_of_quote h with hunquoted | ⟨hquote, rfl⟩ | ⟨-, rfl⟩
  · exact absurd hkind hunquoted.kind
  · refine ⟨hquote, ?_⟩
    unfold quoted at hkind ⊢
    split at hkind
    · assumption
    · cases hkind
  · exact absurd hkind (kind_character rest)

theorem of_problem_character {v : Vocabulary} {after : Bool} (h : read v after g rest = some l)
    {e : Literal.CharacterError} (hproblem : l.problem = some (.character e)) :
    g.char = (asciiGlyph 0x27).char ∧ closing? (asciiGlyph 0x27).char rest = some l.extra ∧
      Literal.character (ofGlyphs (rest.take (l.extra - 1))) = .error e := by
  rcases read_cases_of_quote h with hunquoted | ⟨-, rfl⟩ | ⟨hquote, rfl⟩
  · exact absurd hproblem (hunquoted.problem e)
  · unfold quoted at hproblem
    split at hproblem <;> cases hproblem
  · refine ⟨hquote, ?_⟩
    cases hclosing : closing? '\'' rest with
    | none =>
      simp only [character, hclosing] at hproblem
      cases hproblem
    | some n =>
      rw [extra_character hclosing]
      refine ⟨hclosing, ?_⟩
      simp only [character, hclosing] at hproblem
      split at hproblem
      · cases hproblem
      · rename_i herror
        cases hproblem
        exact herror

end Lexeme

namespace Vocabulary

/-- Decoding and scanning agree on where a literal ends. A text in which no quote closes and no escape is
malformed is closed by a quote right behind it just if decoding does not meet its end in an escape. Of a
string, and of a literal that is wrong as a character, decoding never reports that, whatever escapes are
malformed. -/
theorem ne_dangling_in_quotes (v : Vocabulary) :
    (∀ (mark : UInt8) (s rest : Text), mark = 0x22 ∨ mark = 0x27 →
      Lexeme.closing? (asciiGlyph mark).char (glyphs s) = none →
      ((Literal.unescape s).2 = none ∨ ∃ b, (Literal.unescape s).2 = some (.dangling b)) →
      (Lexeme.closing? (asciiGlyph mark).char (glyphs (s ++ mark :: rest))
          = some ((glyphs s).length + 1) ↔
        (Literal.unescape s).2 = none)) ∧
    ∀ (text : Text) (line : SourceLine),
      (∀ t ∈ (v.tokenizeText text line).1.tokens, t.kind = .quotedString →
        ∃ body, t.text = 0x22 :: body ++ [0x22] ∧
          ∀ b, (Literal.unescape body).2 ≠ some (.dangling b)) ∧
      ∀ p ∈ (v.tokenizeText text line).2, ∀ e, p.2 = .character e →
        ∃ body, p.1.text = body.inQuotes ∧ Literal.character body = .error e ∧
          ∀ b, e ≠ .escape (.dangling b) := by
  refine ⟨fun mark s rest hmark hopen hproblem => ?_,
    fun text line => ⟨fun t ht hkind => ?_, fun p hp e he => ?_⟩⟩
  · have hbounds : mark < 0x80 ∧ mark ≠ 0x5c := by rcases hmark with rfl | rfl <;> decide
    have hchar : (asciiGlyph mark).char ≠ '\\' := fun h => hbounds.2 (asciiGlyph_char_inj (x := 0x5c) h)
    obtain ⟨hpaired, hdangling⟩ := Literal.unescapeFrom_paired s s
    have htail : isTail mark = false := by rcases hmark with rfl | rfl <;> decide
    rw [glyphs_append_of_not_tail htail, glyphs_cons_ascii hbounds.1]
    refine (Lexeme.closing?_append_mark_iff hchar s (glyphs rest)).trans ⟨fun h => ?_, fun h => ?_⟩
    · rcases hproblem with hnone | ⟨b, hb⟩
      · exact hnone
      · exact absurd h.2 (hdangling b hb)
    · exact ⟨hopen, hpaired h⟩
  · obtain ⟨g, behind, after, l, hglyphs, hread, hgives, -⟩ := exists_read_of_mem_tokenizeText ht
    obtain ⟨hquote, hclosing⟩ := Lexeme.of_quotedString hread (hgives.kind ▸ hkind)
    obtain ⟨htext, hpaired⟩ := Lexeme.paired_of_closing? (by decide) (by decide)
      (hglyphs ▸ Legible.of_glyphs _) hquote hclosing
    exact ⟨_, hgives.text.trans htext, fun b hb => (Literal.unescapeFrom_paired _ _).2 b hb hpaired⟩
  · obtain ⟨g, behind, after, l, hlegible, hread, hgives, hproblem⟩ := exists_read_of_mem_problems hp
    obtain ⟨hquote, hclosing, herror⟩ := Lexeme.of_problem_character hread (he ▸ hproblem)
    obtain ⟨htext, hpaired⟩ := Lexeme.paired_of_closing? (by decide) (by decide) hlegible hquote hclosing
    refine ⟨_, hgives.text.trans htext, herror, ?_⟩
    rintro b rfl
    exact (Literal.unescapeFrom_paired _ _).2 b (Literal.unescape_of_character herror) hpaired

/-- A string and a character in which a malformed escape takes the first of two backslashes. -/
def skewedText : Text := ".ascii \"\\u123\\\\\" '\\u123\\\\'"

def evenText : Text := "\\u0041\\n"

theorem ne_dangling_in_skewedText :
    Lexeme.closing? (asciiGlyph 0x22).char (glyphs (evenText ++ [0x22]))
      = some ((glyphs evenText).length + 1) ∧
    (∃ t ∈ ((Rv32im.registry.vocabulary true).tokenizeText skewedText ⟨skewedText, "a.s", 1⟩).1.tokens,
      t.kind = .quotedString ∧
        ∃ body, t.text = 0x22 :: body ++ [0x22] ∧
          ∀ b, (Literal.unescape body).2 ≠ some (.dangling b)) ∧
    ∃ p ∈ ((Rv32im.registry.vocabulary true).tokenizeText skewedText ⟨skewedText, "a.s", 1⟩).2,
      p.2 = .character (.escape (.code "123\\")) ∧
        ∃ body, p.1.text = body.inQuotes ∧ Literal.character body = .error (.escape (.code "123\\")) := by
  obtain ⟨hagree, hlines⟩ := ne_dangling_in_quotes (Rv32im.registry.vocabulary true)
  obtain ⟨hstrings, hproblems⟩ := hlines skewedText ⟨skewedText, "a.s", 1⟩
  have hnone : (Literal.unescape evenText).2 = none := by decide +kernel
  obtain ⟨t, ht, hkind⟩ : ∃ t ∈ ((Rv32im.registry.vocabulary true).tokenizeText skewedText
      ⟨skewedText, "a.s", 1⟩).1.tokens, t.kind = .quotedString := by decide +kernel
  obtain ⟨p, hp, hproblem⟩ : ∃ p ∈ ((Rv32im.registry.vocabulary true).tokenizeText skewedText
      ⟨skewedText, "a.s", 1⟩).2, p.2 = .character (.escape (.code "123\\")) := by decide +kernel
  obtain ⟨body, htext, herror, -⟩ := hproblems p hp _ hproblem
  exact ⟨(hagree 0x22 evenText [] (.inl rfl) (by decide +kernel) (.inl hnone)).2 hnone,
    ⟨t, ht, hkind, hstrings t ht hkind⟩, p, hp, hproblem, body, htext, herror⟩

end Vocabulary

end Rv32Assembler
