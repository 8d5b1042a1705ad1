import Rv32Assembler.Assembly.Program
import Rv32Assembler.Proofs.Glyphs
/-!
# Places in a text

The lexer, the equivalences and the macros all take pieces out of a line by the places of its tokens.
Whatever a line holds, its tokens are pieces of it that follow one another (`spanned_tokenizeText`).
So the pieces between them are there too: replacing some of the tokens never reaches beyond the text
(`splice?_equivalenceEdits`, `splice?_edits`), and neither does the value of an equivalence
(`slice?_value`). Taking a piece is checked here: `slice?` has none where the places are not in the
text or not in order.
-/

namespace Rv32Assembler

namespace Text

/-- The bytes from `start` to `stop`, provided that both are places of the text, in this order. -/
def slice? (s : Text) (start stop : Nat) : Option Text :=
  if start ≤ stop ∧ stop ≤ s.length then some ((s.take stop).drop start) else none

theorem slice?_of_le {s : Text} {start stop : Nat} (horder : start ≤ stop)
    (hstop : stop ≤ s.length) : s.slice? start stop = some ((s.take stop).drop start) :=
  if_pos ⟨horder, hstop⟩

theorem le_of_slice? {s part : Text} {start stop : Nat} (h : s.slice? start stop = some part) :
    start ≤ stop ∧ stop ≤ s.length := by
  unfold slice? at h
  split at h
  · assumption
  · cases h

theorem slice?_append (front part rest : Text) :
    (front ++ part ++ rest).slice? front.length (front.length + part.length) = some part := by
  have hstop : front.length + part.length = (front ++ part).length := List.length_append.symm
  rw [slice?_of_le (Nat.le_add_right ..) (by simp), hstop, List.take_left, List.drop_left]

/-- Makes the replacements as `splice` does, by pieces that have to be there. -/
def splice? (s : Text) (done : Nat) : List Edit → Option Text
  | [] => s.slice? done s.length
  | e :: edits => do
    let kept ← s.slice? done e.start
    let rest ← s.splice? e.stop edits
    return kept ++ e.text ++ rest

/-- The replacements are at places of the text from `done` on, in order. -/
def Admits (s : Text) (done : Nat) : List Edit → Prop
  | [] => done ≤ s.length
  | e :: edits => done ≤ e.start ∧ e.start ≤ e.stop ∧ s.Admits e.stop edits

theorem Admits.le_length {s : Text} {done : Nat} {edits : List Edit} (h : s.Admits done edits) :
    done ≤ s.length := by
  induction edits generalizing done with
  | nil => exact h
  | cons e edits ih =>
    obtain ⟨hstart, hstop, hrest⟩ := h
    have hlength := ih hrest
    omega

theorem Admits.of_le {s : Text} {done later : Nat} {edits : List Edit} (h : s.Admits later edits)
    (hle : done ≤ later) : s.Admits done edits := by
  cases edits with
  | nil => exact Nat.le_trans hle h
  | cons e edits => exact ⟨Nat.le_trans hle h.1, h.2⟩

theorem splice?_of_admits {s : Text} {done : Nat} {edits : List Edit} (h : s.Admits done edits) :
    s.splice? done edits = some (s.splice done edits) := by
  induction edits generalizing done with
  | nil =>
    rw [splice?, slice?_of_le h (Nat.le_refl _), List.take_length]
    rfl
  | cons e edits ih =>
    obtain ⟨hstart, hstop, hrest⟩ := h
    have hlength := hrest.le_length
    rw [splice?, ih hrest, slice?_of_le hstart (by omega), List.drop_take]
    rfl

end Text

open Text

/-! ### The tokens of a line -/

/-- The tokens are pieces of the text from `done` on, none of them empty, one after the other. -/
def Text.Spells (s : Text) (done : Nat) : List Token → Prop
  | [] => done ≤ s.length
  | t :: rest =>
    done ≤ t.offset ∧ t.text ≠ [] ∧ s.slice? t.offset t.stop = some t.text ∧ s.Spells t.stop rest

def TokenLine.Spanned (l : TokenLine) : Prop := l.text.Spells 0 l.tokens

namespace Text.Spells

variable {s : Text} {done : Nat} {tokens : List Token}

theorem le_length (h : s.Spells done tokens) : done ≤ s.length := by
  induction tokens generalizing done with
  | nil => exact h
  | cons t rest ih =>
    obtain ⟨hstart, -, hslice, -⟩ := h
    have hstop := le_of_slice? hslice
    omega

theorem le_offset (h : s.Spells done tokens) {t : Token} (ht : t ∈ tokens) : done ≤ t.offset := by
  induction tokens generalizing done with
  | nil => cases ht
  | cons x tokens ih =>
    obtain ⟨hstart, -, hslice, hrest⟩ := h
    rcases List.mem_cons.1 ht with rfl | ht
    · exact hstart
    · have hstop := le_of_slice? hslice
      have hlater := ih hrest ht
      omega

theorem of_le {earlier : Nat} (h : s.Spells done tokens) (hle : earlier ≤ done) :
    s.Spells earlier tokens := by
  cases tokens with
  | nil => exact Nat.le_trans hle h
  | cons t rest => exact ⟨Nat.le_trans hle h.1, h.2⟩

theorem take (h : s.Spells done tokens) (n : Nat) : s.Spells done (tokens.take n) := by
  induction tokens generalizing done n with
  | nil =>
    rw [List.take_nil]
    exact h
  | cons t rest ih =>
    cases n with
    | zero => exact h.le_length
    | succ n => exact ⟨h.1, h.2.1, h.2.2.1, ih h.2.2.2 n⟩

theorem drop (h : s.Spells done tokens) (n : Nat) : s.Spells done (tokens.drop n) := by
  induction tokens generalizing done n with
  | nil =>
    rw [List.drop_nil]
    exact h
  | cons t rest ih =>
    cases n with
    | zero => exact h
    | succ n =>
      obtain ⟨hstart, -, hslice, hrest⟩ := h
      have hstop := le_of_slice? hslice
      exact (ih hrest n).of_le (by omega)

theorem last {first : Token} {rest : List Token} (h : s.Spells done (first :: rest)) :
    first.offset ≤ (rest.getLastD first).stop ∧ (rest.getLastD first).stop ≤ s.length := by
  induction rest generalizing done first with
  | nil => exact le_of_slice? h.2.2.1
  | cons t rest ih =>
    obtain ⟨-, -, hslice, hrest⟩ := h
    have hfirst := le_of_slice? hslice
    have hnext := hrest.1
    have hlast := ih hrest
    rw [List.getLastD_cons]
    omega

theorem stop_le_last {first t : Token} {rest : List Token} (h : s.Spells done (first :: rest))
    (ht : t ∈ first :: rest) : first.offset ≤ t.offset ∧ t.stop ≤ (rest.getLastD first).stop := by
  induction rest generalizing done first with
  | nil =>
    rw [List.mem_singleton.1 ht]
    exact ⟨Nat.le_refl _, Nat.le_refl _⟩
  | cons x rest ih =>
    obtain ⟨-, -, hslice, hrest⟩ := h
    have hfirst := le_of_slice? hslice
    have hnext := hrest.1
    rw [List.getLastD_cons]
    rcases List.mem_cons.1 ht with rfl | ht
    · have hlast := hrest.last
      exact ⟨Nat.le_refl _, by omega⟩
    · have hlater := ih hrest ht
      exact ⟨by omega, hlater.2⟩

/-- Replacements of some of the tokens are at places of the text. -/
theorem admits (h : s.Spells done tokens) {edits : List Edit}
    (hedits : (edits.map fun e => (e.start, e.stop)).Sublist
      (tokens.map fun t => (t.offset, t.stop))) : s.Admits done edits := by
  induction tokens generalizing done edits with
  | nil =>
    rw [List.map_nil, List.sublist_nil, List.map_eq_nil_iff] at hedits
    rw [hedits]
    exact h
  | cons t rest ih =>
    obtain ⟨hstart, -, hslice, hrest⟩ := h
    have hstop := le_of_slice? hslice
    cases edits with
    | nil => exact Nat.le_trans hstart (Nat.le_trans hstop.1 hstop.2)
    | cons e edits =>
      rcases List.sublist_cons_iff.1 hedits with hskip | ⟨later, hsame, hlater⟩
      · exact (ih hrest hskip).of_le (by omega)
      · obtain ⟨hplaces, rfl⟩ := List.cons.inj hsame
        obtain ⟨hfirst, hlast⟩ := Prod.mk.inj hplaces
        refine ⟨by omega, by omega, ?_⟩
        rw [hlast]
        exact ih hrest hlater

end Text.Spells

theorem TokenLine.Spanned.withoutComment {l : TokenLine} (h : l.Spanned) :
    l.withoutComment.Spanned := by
  unfold TokenLine.withoutComment
  split
  · split
    · unfold Spanned at h ⊢
      rw [List.dropLast_eq_take]
      exact h.take _
    · exact h
  · exact h

/-! ### The lexer -/

theorem Text.ne_nil_of_mem_glyphs {s : Text} {g : Glyph} (h : g ∈ s.glyphs) : g.bytes ≠ [] := by
  fun_induction glyphs s with
  | case1 => cases h
  | case2 b rest first ih =>
    rcases List.mem_cons.1 h with rfl | h
    · rw [firstGlyph_bytes]
      exact List.cons_ne_nil _ _
    · exact ih h

namespace Lexeme

theorem wordLength_le (gs : List Glyph) : wordLength gs ≤ gs.length :=
  (List.takeWhile_prefix _).length_le

theorem numberLength_le (hexadecimal : Bool) (last : Char) (gs : List Glyph) :
    numberLength hexadecimal last gs ≤ gs.length := by
  fun_induction numberLength hexadecimal last gs with
  | case1 => exact Nat.le_refl _
  | case2 _ _ _ _ _ _ ih => exact Nat.succ_le_succ ih
  | case3 => exact Nat.zero_le _

theorem of_closing? {mark : Char} {gs : List Glyph} {n : Nat} (h : closing? mark gs = some n) :
    0 < n ∧ n ≤ gs.length := by
  fun_induction closing? mark gs generalizing n with
  | case1 => cases h
  | case2 => cases h
  | case3 g _ next rest ih =>
    obtain ⟨m, hm, rfl⟩ := Option.map_eq_some_iff.1 h
    have hbounds := ih hm
    simp only [List.length_cons]
    omega
  | case4 =>
    cases h
    simp
  | case5 g rest _ _ ih =>
    obtain ⟨m, hm, rfl⟩ := Option.map_eq_some_iff.1 h
    have hbounds := ih hm
    simp only [List.length_cons]
    omega

theorem extra_number (text : Text) (extra : Nat) : (number text extra).extra = extra := by
  unfold number
  split <;> split <;> rfl

theorem extra_quoted_le (rest : List Glyph) : (quoted rest).extra ≤ rest.length := by
  unfold quoted
  split
  · rename_i n hclosing
    exact (of_closing? hclosing).2
  · exact Nat.le_refl _

theorem extra_character_le (rest : List Glyph) : (character rest).extra ≤ rest.length := by
  unfold character
  split
  · rename_i n hclosing
    split <;> exact (of_closing? hclosing).2
  · exact Nat.le_refl _

theorem extra_signed_le (g : Glyph) (rest : List Glyph) : (signed g rest).extra ≤ rest.length := by
  unfold signed
  simp only
  split
  · split
    · rw [extra_number]
      exact Nat.succ_le_succ (numberLength_le _ _ _)
    · exact Nat.zero_le _
  · exact Nat.zero_le _

theorem extra_le_of_read {v : Vocabulary} {after : Bool} {g : Glyph} {rest : List Glyph}
    {l : Lexeme} (h : read v after g rest = some l) : l.extra ≤ rest.length := by
  revert h
  fun_cases read v after g rest with
  | case1 => rintro ⟨⟩
  | case2 =>
    rintro ⟨⟩
    exact Nat.le_refl _
  | case3 =>
    rintro ⟨⟩
    exact extra_quoted_le rest
  | case4 =>
    rintro ⟨⟩
    exact extra_character_le rest
  | case5 =>
    rintro ⟨⟩
    split
    · exact Nat.zero_le _
    · exact wordLength_le rest
  | case6 =>
    rintro ⟨⟩
    rw [extra_number]
    exact numberLength_le _ _ _
  | case8 =>
    rintro ⟨⟩
    exact extra_signed_le g rest
  | case9 =>
    rintro ⟨⟩
    exact wordLength_le rest
  | case7 | case10 | case11 | case12 | case13 =>
    rintro ⟨⟩
    exact Nat.zero_le _

end Lexeme

theorem Literal.extra_escape_le (b : UInt8) (rest : Text) :
    (Literal.escape b rest).extra ≤ rest.length := by
  unfold Literal.escape
  split
  · exact Nat.zero_le _
  · split
    · unfold Literal.octalEscape
      simp only
      split
      · split
        · split <;> simp
        · split <;> exact Nat.zero_le _
      · split <;> exact Nat.zero_le _
    · split
      · unfold Literal.codeEscape
        split
        · exact Nat.le_refl _
        · split <;> (simp only; omega)
      · exact Nat.zero_le _

namespace Vocabulary

variable {v : Vocabulary}

/-- Each token is taken from where the ones before it end. -/
theorem spells_scan {line : SourceLine} {after : Bool} {offset column : Nat} {gs : List Glyph}
    {s front : Text} (hs : s = front ++ ofGlyphs gs) (hfront : front.length = offset)
    (hbytes : ∀ g ∈ gs, g.bytes ≠ []) :
    s.Spells offset ((v.scan line after offset column gs).map Prod.fst) := by
  fun_induction Vocabulary.scan v line after offset column gs generalizing front with
  | case1 after offset column =>
    show offset ≤ s.length
    rw [hs, List.length_append]
    omega
  | case2 after offset column g rest _ ih =>
    have hsplit : s = front ++ g.bytes ++ ofGlyphs rest := hs.trans (append_ofGlyphs_cons front g rest)
    have hnext := ih hsplit (by rw [List.length_append, hfront])
      fun x hx => hbytes x (List.mem_cons_of_mem _ hx)
    exact hnext.of_le (Nat.le_add_right ..)
  | case3 after offset column g rest lexeme _ text token =>
    rename_i ih
    have hsplit : s = front ++ text ++ ofGlyphs (rest.drop lexeme.extra) :=
      hs.trans (append_ofGlyphs_take front g rest lexeme.extra)
    have hslice : s.slice? offset (offset + text.length) = some text := by
      rw [hsplit, ← hfront]
      exact slice?_append _ _ _
    have htext : text ≠ [] := by
      have hfirst := hbytes g (List.mem_cons_self ..)
      simp [text, ofGlyphs, hfirst]
    refine ⟨Nat.le_refl _, htext, hslice, ?_⟩
    refine ih hsplit (by rw [List.length_append, hfront]) fun x hx => hbytes x ?_
    exact List.mem_cons_of_mem _ (List.mem_of_mem_drop hx)

theorem spanned_tokenizeText (v : Vocabulary) (text : Text) (line : SourceLine) :
    (v.tokenizeText text line).1.Spanned := by
  have hglyphs : text = [] ++ ofGlyphs text.glyphs := (ofGlyphs_glyphs text).symm
  exact spells_scan hglyphs rfl fun g hg => ne_nil_of_mem_glyphs hg

theorem spanned_tokenizeUnder (v : Vocabulary) (es : Equivalences) (line : SourceLine) :
    (v.tokenizeUnder es line).1.Spanned := by
  unfold tokenizeUnder
  simp only
  split <;> exact spanned_tokenizeText v _ _

theorem spanned_of_mem_tokenizeLines {es : Equivalences} {log : Log} {lines : List SourceLine}
    {l : TokenLine} (h : l ∈ (v.tokenizeLines es log lines).1) : l.Spanned := by
  induction lines generalizing es log with
  | nil => cases h
  | cons line lines ih =>
    rw [tokenizeLines] at h
    simp only at h
    split at h
    all_goals
      rcases List.mem_cons.1 h with rfl | h
      · exact spanned_tokenizeUnder v es line
      · exact ih h

end Vocabulary

theorem spanned_of_mem_tokenizeFiles {v : Vocabulary} {log : Log} {files : List SourceFile}
    {file : Text × Array TokenLine} (h : file ∈ (tokenizeFiles v log files).2) {l : TokenLine}
    (hl : l ∈ file.2.toList) : l.Spanned := by
  induction files generalizing log with
  | nil => cases h
  | cons f files ih =>
    rw [tokenizeFiles] at h
    rcases List.mem_cons.1 h with rfl | h
    · exact Vocabulary.spanned_of_mem_tokenizeLines hl
    · exact ih h

/-! ### Equivalences -/

theorem sublist_equivalenceEdits (es : Equivalences) (skip : Option Nat) (index : Nat)
    (tokens : List Token) :
    ((equivalenceEdits es skip index tokens).map fun e => (e.start, e.stop)).Sublist
      (tokens.map fun t => (t.offset, t.stop)) := by
  induction tokens generalizing index with
  | nil => exact .slnil
  | cons t tokens ih =>
    rw [equivalenceEdits]
    split
    · exact (ih (index + 1)).cons _
    · split
      · exact (ih (index + 1)).cons_cons _
      · exact (ih (index + 1)).cons _

namespace TokenLine

theorem splice?_equivalenceEdits {l : TokenLine} (h : l.Spanned) (es : Equivalences) :
    l.text.splice? 0 (l.equivalenceEdits es) = some (l.text.splice 0 (l.equivalenceEdits es)) :=
  splice?_of_admits (Spells.admits h (sublist_equivalenceEdits es _ 0 l.tokens))

/-- The text from the first to the last of the tokens, if it is a piece of the line. -/
def slice? (l : TokenLine) (first last : Token) : Option Text :=
  (l.text.slice? first.offset last.stop).map Text.trim

theorem slice?_value {l : TokenLine} (h : l.Spanned) {place : Nat} {directive symbol first : Token}
    {rest : List Token} (htokens : l.tokens.drop place = directive :: symbol :: first :: rest) :
    l.slice? first (rest.getLastD first) = some (l.slice first (rest.getLastD first)) := by
  have hvalue : l.text.Spells 0 (first :: rest) := by
    have hdrop := Spells.drop h (place + 2)
    rwa [← List.drop_drop, htokens] at hdrop
  unfold slice? slice
  rw [slice?_of_le hvalue.last.1 hvalue.last.2]
  rfl

end TokenLine

/-! ### Macros -/

namespace Macro

theorem sublist_edits {m : Macro} {call : List Token} {counter : Int} {tokens : List Token}
    {edits : List Edit} (h : m.edits call counter tokens = .ok edits) :
    (edits.map fun e => (e.start, e.stop)).Sublist (tokens.map fun t => (t.offset, t.stop)) := by
  induction tokens generalizing edits with
  | nil =>
    cases h
    exact .slnil
  | cons t tokens ih =>
    rw [Macro.edits] at h
    cases hnew : m.replacement call counter t with
    | error e =>
      rw [hnew] at h
      cases h
    | ok new =>
      rw [hnew] at h
      cases hrest : m.edits call counter tokens with
      | error e =>
        rw [hrest] at h
        cases h
      | ok others =>
        rw [hrest] at h
        cases new with
        | none =>
          cases h
          exact (ih hrest).cons _
        | some text =>
          cases h
          exact (ih hrest).cons_cons _

/-- Arguments and labels are put in by pieces of the line of the body. -/
theorem splice?_edits {m : Macro} {call : List Token} {counter : Int} {l : TokenLine}
    (h : l.Spanned) {edits : List Edit} (hedits : m.edits call counter l.tokens = .ok edits) :
    l.text.splice? 0 edits = some (l.text.splice 0 edits) :=
  splice?_of_admits (Spells.admits h (sublist_edits hedits))

end Macro

end Rv32Assembler
