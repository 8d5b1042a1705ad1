import Rv32Assembler.Proofs.Partition
/-!
# Tokens in their places

A token is decided by the characters from its place on and by whether a value ends there
(`exists_read_of_mem_tokenizeText`). So what is known of a lexeme in front of any characters is known of
the token that starts at its place in any line. A byte that is no separator belongs to a token
(`exists_covers`), and a value ends where a token starts only if there is no separator before it.
-/

namespace Rv32Assembler

open Text

/-- The token is the lexeme that starts at `g`. -/
structure Lexeme.Gives (l : Lexeme) (g : Glyph) (behind : List Glyph) (t : Token) : Prop where
  kind : t.kind = l.kind
  value : t.value = l.value
  text : t.text = ofGlyphs (g :: behind.take l.extra)

namespace Vocabulary

variable {v : Vocabulary} {line : SourceLine} {after : Bool} {offset column : Nat} {text : Text} {t : Token}

/-- A token is read from its place on, behind a value only if another token ends there. -/
theorem exists_read_of_mem_scan {gs : List Glyph} {p : Token × Option LexicalError}
    (hp : p ∈ v.scan line after offset column gs) :
    ∃ before g behind after' l, gs = before ++ g :: behind ∧ p.1.offset = offset + width before ∧
      Lexeme.read v after' g behind = some l ∧ l.Gives g behind p.1 ∧ p.2 = l.problem ∧
      (after' = true → before = [] ∧ after = true ∨
        ∃ q ∈ v.scan line after offset column gs, q.1.stop = p.1.offset) := by
  fun_induction Vocabulary.scan v line after offset column gs with
  | case1 => cases hp
  | case2 after offset column g rest hread ih =>
    obtain ⟨before, x, behind, after', l, hsplit, hoffset, hread', hgives, hproblem, hvalue⟩ := ih hp
    refine ⟨g :: before, x, behind, after', l, by rw [hsplit]; rfl, ?_, hread', hgives, hproblem,
      fun h => .inr ?_⟩
    · rw [hoffset, width_cons, Nat.add_assoc]
    · rcases hvalue h with ⟨-, hfalse⟩ | hvalue
      · cases hfalse
      · exact hvalue
  | case3 after offset column g rest lexeme hread text token =>
    rename_i ih
    rcases List.mem_cons.1 hp with rfl | hp
    · exact ⟨[], g, rest, after, lexeme, rfl, rfl, hread, ⟨rfl, rfl, rfl⟩, rfl, fun h => .inl ⟨rfl, h⟩⟩
    · obtain ⟨before, x, behind, after', l, hsplit, hoffset, hread', hgives, hproblem, hvalue⟩ := ih hp
      refine ⟨g :: rest.take lexeme.extra ++ before, x, behind, after', l, ?_, ?_, hread', hgives,
        hproblem, fun h => .inr ?_⟩
      · rw [List.append_assoc, ← hsplit, List.cons_append, List.take_append_drop]
      · rw [hoffset, width_append, ← Nat.add_assoc]
        rfl
      · rcases hvalue h with ⟨rfl, -⟩ | ⟨q, hq, hstop⟩
        · exact ⟨(token, lexeme.problem), List.mem_cons_self .., hoffset.symm⟩
        · exact ⟨q, List.mem_cons_of_mem _ hq, hstop⟩

theorem exists_read_of_mem_tokenizeText (ht : t ∈ (v.tokenizeText text line).1.tokens) :
    ∃ g behind after l, glyphs (text.drop t.offset) = g :: behind ∧
      Lexeme.read v after g behind = some l ∧ l.Gives g behind t ∧
      (after = true → ∃ q ∈ (v.tokenizeText text line).1.tokens, q.stop = t.offset) := by
  obtain ⟨p, hp, rfl⟩ := List.mem_map.1 ht
  obtain ⟨before, g, behind, after, l, hsplit, hoffset, hread, hgives, -, hvalue⟩ :=
    exists_read_of_mem_scan hp
  rw [Nat.zero_add] at hoffset
  have hlegible : Legible (before ++ g :: behind) := hsplit ▸ Legible.of_glyphs text
  have htext : text = ofGlyphs before ++ ofGlyphs (g :: behind) := by
    rw [← ofGlyphs_append, ← hsplit, ofGlyphs_glyphs]
  have hdrop : text.drop p.1.offset = ofGlyphs (g :: behind) := by
    rw [hoffset, htext]
    exact List.drop_left
  refine ⟨g, behind, after, l, by rw [hdrop, hlegible.right], hread, hgives, fun h => ?_⟩
  rcases hvalue h with ⟨-, hfalse⟩ | ⟨q, hq, hstop⟩
  · cases hfalse
  · exact ⟨q.1, List.mem_map_of_mem hq, hstop⟩

theorem exists_read_of_mem_problems {p : LexicalProblem} (hp : p ∈ (v.tokenizeText text line).2) :
    ∃ g behind after l, Legible (g :: behind) ∧ Lexeme.read v after g behind = some l ∧
      l.Gives g behind p.1 ∧ l.problem = some p.2 := by
  obtain ⟨⟨t, problem⟩, hq, hp⟩ := List.mem_filterMap.1 hp
  obtain ⟨e, rfl, rfl⟩ := Option.map_eq_some_iff.1 hp
  obtain ⟨before, g, behind, after, l, hsplit, -, hread, hgives, hproblem, -⟩ :=
    exists_read_of_mem_scan hq
  have hlegible : Legible (before ++ g :: behind) := hsplit ▸ Legible.of_glyphs text
  exact ⟨g, behind, after, l, hlegible.right, hread, hgives, hproblem.symm⟩

theorem exists_covers {place : Nat} {b : UInt8} (hb : text[place]? = some b) (hne : b ∉ separators) :
    ∃ t ∈ (v.tokenizeText text line).1.tokens, t.Covers place := by
  by_contra hnone
  refine hne ((v.partitioned_tokenizeText text line).between place b hb fun t ht hcovers => hnone ?_)
  exact ⟨t, ht, hcovers⟩

theorem exists_token_at {front rest : Text} {b : UInt8} (htext : text = front ++ b :: rest)
    (hne : b ∉ separators)
    (hfree : ∀ t ∈ (v.tokenizeText text line).1.tokens, t.offset < front.length → t.stop ≤ front.length) :
    ∃ t ∈ (v.tokenizeText text line).1.tokens, t.offset = front.length := by
  have hb : text[front.length]? = some b := by simp [htext]
  obtain ⟨t, ht, hstart, hstop⟩ : ∃ t ∈ (v.tokenizeText text line).1.tokens, t.Covers front.length :=
    exists_covers hb hne
  refine ⟨t, ht, ?_⟩
  by_contra hoffset
  have hbefore := hfree t ht (Nat.lt_of_le_of_ne hstart hoffset)
  omega

theorem exists_read_of_free {place : Nat} (ht : t ∈ (v.tokenizeText text line).1.tokens)
    (hoffset : t.offset = place + 1)
    (hfree : ∀ q ∈ (v.tokenizeText text line).1.tokens, ¬q.Covers place) :
    ∃ g behind l, glyphs (text.drop (place + 1)) = g :: behind ∧
      Lexeme.read v false g behind = some l ∧ l.Gives g behind t := by
  obtain ⟨g, behind, after, l, hglyphs, hread, hgives, hvalue⟩ := exists_read_of_mem_tokenizeText ht
  rw [hoffset] at hglyphs
  refine ⟨g, behind, l, hglyphs, ?_, hgives⟩
  cases after with
  | false => exact hread
  | true =>
    obtain ⟨q, hq, hstop⟩ := hvalue rfl
    have hlength : 0 < q.text.length :=
      List.length_pos_of_ne_nil ((v.partitioned_tokenizeText text line).nonempty q hq)
    have hplace : q.offset + q.text.length = place + 1 := hstop.trans hoffset
    exact absurd ⟨by omega, by rw [Token.stop]; omega⟩ (hfree q hq)

end Vocabulary

end Rv32Assembler
