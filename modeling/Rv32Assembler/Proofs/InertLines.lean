import Rv32Assembler.Proofs.Glyphs
import Rv32Assembler.Proofs.Readings
/-!
# Inert lines

A line of separators, with or without a comment, has no token but the comment (`scan_inert`). So it
defines no equivalence and no label, it stays as it is in the body of a macro, and reading it changes
nothing, be it a line of the file (`readNext_of_inert`) or of an expansion (`readBodyLine_of_inert`).
-/

namespace Rv32Assembler

/-- Nothing but separators, up to a comment if there is one. -/
def Text.isInert : Text → Bool
  | [] => true
  | b :: rest => b == 0x23 || ((b == 0x20 || b == 0x09 || b == 0x0d || b == 0x2c) && isInert rest)

/-- The line has no token but a comment. -/
structure TokenLine.IsInert (l : TokenLine) : Prop where
  text : l.text.isInert = true
  tokens : l.tokens = [] ∨ ∃ t, t.kind = .comment ∧ l.tokens = [t]

/-! ### Tokens -/

namespace Vocabulary

variable {v : Vocabulary}

theorem scan_inert {text : Text} (h : text.isInert = true) (line : SourceLine) (after : Bool)
    (offset column : Nat) :
    v.scan line after offset column text.glyphs = [] ∨
      ∃ t, t.kind = .comment ∧ v.scan line after offset column text.glyphs = [(t, none)] := by
  induction text generalizing after offset column with
  | nil =>
    left
    rw [Text.glyphs, scan]
  | cons b rest ih =>
    rw [Text.isInert, Bool.or_eq_true, Bool.and_eq_true] at h
    rcases h with hcomment | ⟨hseparator, hrest⟩
    · obtain rfl : b = 0x23 := by simpa using hcomment
      right
      rw [Text.glyphs_cons_ascii (by decide), scan]
      have hread : Lexeme.read v after ⟨Char.ofNat (0x23 : UInt8).toNat, [0x23]⟩ (Text.glyphs rest)
          = some { kind := .comment, extra := (Text.glyphs rest).length } := rfl
      simp only [hread, List.drop_length, scan]
      exact ⟨_, rfl, rfl⟩
    · have hread : b < 0x80 ∧ ∀ gs, Lexeme.read v after ⟨Char.ofNat b.toNat, [b]⟩ gs = none := by
        simp only [Bool.or_eq_true, beq_iff_eq, or_assoc] at hseparator
        rcases hseparator with rfl | rfl | rfl | rfl
        all_goals exact ⟨by decide, fun _ => rfl⟩
      rw [Text.glyphs_cons_ascii hread.1, scan]
      simp only [hread.2]
      exact ih hrest false _ _

theorem tokenizeText_inert {text : Text} (h : text.isInert = true) (line : SourceLine) :
    (v.tokenizeText text line).1.IsInert ∧ (v.tokenizeText text line).2 = [] := by
  unfold tokenizeText
  rcases scan_inert (v := v) h line false 0 0 with hnone | ⟨t, ht, hone⟩
  · rw [hnone]
    exact ⟨⟨h, .inl rfl⟩, rfl⟩
  · rw [hone]
    exact ⟨⟨h, .inr ⟨t, ht, rfl⟩⟩, rfl⟩

end Vocabulary

namespace TokenLine.IsInert

variable {l : TokenLine}

theorem tokens_withoutComment (h : l.IsInert) : l.withoutComment.tokens = [] := by
  unfold withoutComment
  rcases h.tokens with hnone | ⟨t, ht, hone⟩
  · rw [hnone]
    exact hnone
  · rw [hone]
    simp only [List.getLast?_singleton, ht, beq_self_eq_true, if_true]
    rfl

theorem equivalenceEdits (h : l.IsInert) (es : Equivalences) : l.equivalenceEdits es = [] := by
  unfold TokenLine.equivalenceEdits
  rcases h.tokens with hnone | ⟨t, ht, hone⟩
  · rw [hnone]
    rfl
  · rw [hone]
    simp [Rv32Assembler.equivalenceEdits, ht]

theorem definition (h : l.IsInert) (es : Equivalences) : l.definition es = .ok none := by
  have hnone : l.withoutComment.equivalence? = none := by
    rw [TokenLine.equivalence?, h.tokens_withoutComment]
    rfl
  unfold TokenLine.definition
  simp only [hnone]

theorem edits (h : l.IsInert) (m : Macro) (call : List Token) (counter : Int) :
    m.edits call counter l.tokens = .ok [] := by
  rcases h.tokens with hnone | ⟨t, ht, hone⟩
  · rw [hnone]
    rfl
  · have hreplacement : m.replacement call counter t = .ok none := by
      simp [Macro.replacement, ht, Kind.isLabel]
    rw [hone, Macro.edits, hreplacement]
    rfl

end TokenLine.IsInert

/-! ### Reading -/

namespace LineReading

theorem result_of_inert {v : LineReading} (h : v.line.IsInert) : v.result = .ok v.before := by
  have hcall : v.call? = none := by
    unfold call? Reading.callIn?
    rw [h.tokens_withoutComment]
    rfl
  have hplain : v.plain = v.before := by
    unfold plain Reading.readPlainLine
    rw [h.tokens_withoutComment]
    rfl
  rw [result_of_none hcall, hplain]

theorem readBodyLine_of_inert (v : LineReading) {c : MacroCall} {i : Int}
    (hi : i ∈ Reading.bodyIndices c.callee) {l : TokenLine}
    (hl : Macro.lineAt? v.scope.lines i = some l) (h : l.IsInert) (r : Reading) :
    v.readBodyLine c r i = .ok r := by
  have hinside := Reading.mem_bodyIndices hi
  have htext : c.callee.substitute v.scope.lines i c.tokens c.counter = .ok l.text := by
    unfold Macro.substitute
    rw [if_neg (by simp; omega), hl]
    simp only [h.edits, Except.map, Text.splice, List.drop_zero]
  obtain ⟨hmade, hright⟩ := v.scope.vocabulary.tokenizeText_inert h.text
    ⟨l.text, l.source.file, l.source.line⟩
  unfold readBodyLine Reading.expandLine
  split
  · rfl
  · simp only [hl, htext, Vocabulary.tokenize, hright]
    exact result_of_inert hmade

end LineReading

theorem Scope.readNext_of_inert (s : Scope) {p : TokenLine × Nat} (h : p.1.IsInert) (r : Reading) :
    s.readNext r p = .ok r := by
  unfold readNext
  split
  · rfl
  · exact LineReading.result_of_inert (v := ⟨s, [], p.2, p.1, r⟩) h

end Rv32Assembler
