import Rv32Assembler.Proofs.EquivalenceLines
import Rv32Assembler.Proofs.Respelling
/-!
# One line with the values of equivalences

The names in a line that stand for texts are replaced once, by these texts as they are, and the line is
read anew. When each of the texts is a passage of another line, every identifier of the new line is
accounted for: the line has kept it, a text has brought it in at its place, or it stands right behind a
number that lies across an end of a text (`Vocabulary.clears_of_mem_tokenizeUnder`).
-/

namespace Rv32Assembler

open Text

/-! ### Places in a text with replacements -/

namespace Text

/-- Where a place in the old text comes to, if the text is not replaced there. -/
def moved (place done : Nat) : List Edit → Nat → Nat
  | [], n => place + (n - done)
  | e :: edits, n =>
    if n ≤ e.start then place + (n - done)
    else moved (place + (e.start - done) + e.text.length) e.stop edits n

variable {s : Text} {place done : Nat} {edits : List Edit}

theorem Admits.le_start (h : s.Admits done edits) {e : Edit} (he : e ∈ edits) : done ≤ e.start := by
  induction edits generalizing done with
  | nil => cases he
  | cons x edits ih =>
    rcases List.mem_cons.1 he with rfl | he
    · exact h.1
    · have hlater := ih h.2.2 he
      have := h.1
      have := h.2.1
      omega

/-- A replacement stands where the place that it begins at comes to. -/
theorem slice?_moved (h : s.Admits done edits) (hedits : ∀ e ∈ edits, e.start < e.stop) {front : Text}
    (hfront : front.length = place) {e : Edit} (he : e ∈ edits) :
    (front ++ s.splice done edits).slice? (moved place done edits e.start)
      (moved place done edits e.start + e.text.length) = some e.text := by
  induction edits generalizing front place done with
  | nil => cases he
  | cons x edits ih =>
    obtain ⟨hstart, hstop, hrest⟩ := h
    obtain ⟨hx, hedits⟩ := List.forall_mem_cons.1 hedits
    have hlength := hrest.le_length
    have hkept : (front ++ (s.drop done).take (x.start - done)).length = place + (x.start - done) := by
      simp only [List.length_append, List.length_take, List.length_drop, hfront]
      omega
    have hsplit : front ++ s.splice done (x :: edits)
        = front ++ (s.drop done).take (x.start - done) ++ x.text ++ s.splice x.stop edits := by
      simp only [splice, List.append_assoc]
    rw [hsplit]
    rcases List.mem_cons.1 he with rfl | he
    · rw [moved, if_pos (Nat.le_refl _), ← hkept]
      exact slice?_append _ _ _
    · have hlater : ¬ e.start ≤ x.start := by
        have := hrest.le_start he
        omega
      rw [moved, if_neg hlater]
      refine ih hrest hedits ?_ he
      rw [List.length_append, hkept]

theorem moved_advance {n m : Nat} (h : s.Admits (done + n) edits) (hm : done + n ≤ m) :
    moved (place + n) (done + n) edits m = moved place done edits m := by
  cases edits with
  | nil =>
    rw [moved, moved]
    omega
  | cons e edits =>
    have hstart : place + n + (e.start - (done + n)) = place + (e.start - done) := by
      have := h.1
      omega
    have hplace : place + n + (m - (done + n)) = place + (m - done) := by omega
    rw [moved, moved, hstart, hplace]

theorem moved_done (h : s.Admits done edits) : moved place done edits done = place := by
  cases edits with
  | nil => simp [moved]
  | cons e edits => rw [moved, if_pos h.1, Nat.sub_self, Nat.add_zero]

end Text

/-! ### Names that give way to their values -/

/-- The token at place `k` of those from `index` on keeps its name: it is the label of a line, or it stands
at `skip`. -/
def KeepsName (skip : Option Nat) (index : Nat) (tokens : List Token) (k : Nat) : Prop :=
  some (index + k) = skip ∨ index + k = 0 ∧ tokens[k + 1]?.map Token.kind = some .colon

theorem keepsName_succ {skip : Option Nat} {index k : Nat} {t : Token} {tokens : List Token} :
    KeepsName skip index (t :: tokens) (k + 1) ↔ KeepsName skip (index + 1) tokens k := by
  have hindex : index + (k + 1) = index + 1 + k := by omega
  rw [KeepsName, KeepsName, hindex, List.getElem?_cons_succ]

theorem equivalenceEdits_cons (es : Equivalences) (skip : Option Nat) (index : Nat) (t : Token)
    (rest : List Token) :
    (equivalenceEdits es skip index (t :: rest) = equivalenceEdits es skip (index + 1) rest ∧
      (t.kind = .identifier → es.find? t.text = none ∨ KeepsName skip index (t :: rest) 0)) ∨
    ∃ e, t.kind = .identifier ∧ ¬ KeepsName skip index (t :: rest) 0 ∧ es.find? t.text = some e ∧
      equivalenceEdits es skip index (t :: rest)
        = ⟨t.offset, t.stop, e.value⟩ :: equivalenceEdits es skip (index + 1) rest := by
  have hkeeps : KeepsName skip index (t :: rest) 0 ↔ (some index == skip ||
      (index == 0 && (rest.head?.map Token.kind) == some .colon)) = true := by
    simp [KeepsName, List.head?_eq_getElem?]
  rw [equivalenceEdits]
  by_cases hkind : t.kind = .identifier
  · by_cases hkept : KeepsName skip index (t :: rest) 0
    · refine .inl ⟨if_pos ?_, fun _ => .inr hkept⟩
      rw [Bool.or_assoc, hkeeps.1 hkept, Bool.or_true]
    · have hno := hkept
      rw [hkeeps, Bool.not_eq_true] at hno
      have hgives : (t.kind != .identifier || some index == skip ||
          (index == 0 && (rest.head?.map Token.kind) == some .colon)) = false := by
        rw [Bool.or_assoc, hno, Bool.or_false, hkind]
        rfl
      rw [hgives, if_neg Bool.false_ne_true]
      cases hfind : es.find? t.text with
      | none => exact .inl ⟨rfl, fun _ => .inl rfl⟩
      | some e => exact .inr ⟨e, hkind, hkept, rfl, rfl⟩
  · refine .inl ⟨if_pos ?_, fun h => absurd h hkind⟩
    rw [bne_iff_ne.2 hkind, Bool.true_or, Bool.true_or]

theorem mem_equivalenceEdits {es : Equivalences} {skip : Option Nat} {index k : Nat} {tokens : List Token}
    {t : Token} {e : Equivalence} (ht : tokens[k]? = some t) (hkind : t.kind = .identifier)
    (hkeeps : ¬ KeepsName skip index tokens k) (he : es.find? t.text = some e) :
    ⟨t.offset, t.stop, e.value⟩ ∈ equivalenceEdits es skip index tokens := by
  induction tokens generalizing index k with
  | nil => cases ht
  | cons x tokens ih =>
    cases k with
    | zero =>
      obtain rfl : x = t := Option.some_inj.1 ht
      rcases equivalenceEdits_cons es skip index x tokens with ⟨-, hkept⟩ | ⟨e', -, -, he', hedits⟩
      · rw [he] at hkept
        exact absurd ((hkept hkind).resolve_left nofun) hkeeps
      · obtain rfl : e' = e := Option.some_inj.1 (he'.symm.trans he)
        rw [hedits]
        exact List.mem_cons_self ..
    | succ k =>
      have hmem := ih ht (fun h => hkeeps (keepsName_succ.2 h))
      rcases equivalenceEdits_cons es skip index x tokens with ⟨hsame, -⟩ | ⟨_, -, -, -, hedits⟩
      · rwa [hsame]
      · rw [hedits]
        exact List.mem_cons_of_mem _ hmem

/-- The account tells the names of the tokens that are kept, and takes the values that are put in. -/
structure Account.Knows (a : Account) (v : Vocabulary) (es : Equivalences) (skip : Option Nat)
    (index place done : Nat) (tokens : List Token) : Prop where
  kept (k : Nat) (t : Token) (ht : tokens[k]? = some t) (hkind : t.kind = .identifier)
    (hkeeps : es.find? t.text = none ∨ KeepsName skip index tokens k) :
    a.kept t.text (moved place done (equivalenceEdits es skip index tokens) t.offset)
  takes (k : Nat) (t : Token) (e : Equivalence) (ht : tokens[k]? = some t) (hkind : t.kind = .identifier)
    (hkeeps : ¬ KeepsName skip index tokens k) (he : es.find? t.text = some e) :
    ∃ vs, e.value = ofGlyphs vs ∧
      a.Takes v (moved place done (equivalenceEdits es skip index tokens) t.offset) vs

namespace Account.Knows

variable {a : Account} {v : Vocabulary} {es : Equivalences} {skip : Option Nat} {index place done : Nat}
  {t : Token} {tokens : List Token} {s : Text}

theorem advance {n : Nat} (h : a.Knows v es skip index place done tokens)
    (hspells : s.Spells (done + n) tokens) : a.Knows v es skip index (place + n) (done + n) tokens := by
  have hmoved {k : Nat} {t : Token} (ht : tokens[k]? = some t) :
      moved (place + n) (done + n) (equivalenceEdits es skip index tokens) t.offset
        = moved place done (equivalenceEdits es skip index tokens) t.offset :=
    moved_advance (hspells.admits (sublist_equivalenceEdits es skip index tokens))
      (hspells.le_offset (List.mem_of_getElem? ht))
  refine ⟨fun k t ht hkind hkeeps => ?_, fun k t e ht hkind hkeeps he => ?_⟩
  · rw [hmoved ht]
    exact h.kept k t ht hkind hkeeps
  · rw [hmoved ht]
    exact h.takes k t e ht hkind hkeeps he

theorem of_kept (h : a.Knows v es skip index place done (t :: tokens))
    (hsame : equivalenceEdits es skip index (t :: tokens) = equivalenceEdits es skip (index + 1) tokens) :
    a.Knows v es skip (index + 1) place done tokens := by
  refine ⟨fun k x hx hkind hkeeps => ?_, fun k x e hx hkind hkeeps he => ?_⟩
  · rw [← hsame]
    exact h.kept (k + 1) x hx hkind (hkeeps.imp_right keepsName_succ.2)
  · rw [← hsame]
    exact h.takes (k + 1) x e hx hkind (fun hkept => hkeeps (keepsName_succ.1 hkept)) he

theorem of_replaced {value : Text} (h : a.Knows v es skip index place t.offset (t :: tokens))
    (hedits : equivalenceEdits es skip index (t :: tokens)
      = ⟨t.offset, t.stop, value⟩ :: equivalenceEdits es skip (index + 1) tokens)
    (hspells : s.Spells t.stop tokens) (htext : t.text ≠ []) :
    a.Knows v es skip (index + 1) (place + value.length) t.stop tokens := by
  have hpos : 0 < t.text.length := List.length_pos_iff.2 htext
  have hmoved {k : Nat} {x : Token} (hx : tokens[k]? = some x) :
      moved place t.offset (equivalenceEdits es skip index (t :: tokens)) x.offset
        = moved (place + value.length) t.stop (equivalenceEdits es skip (index + 1) tokens) x.offset := by
    have hlater : ¬ x.offset ≤ t.offset := by
      have hle := hspells.le_offset (List.mem_of_getElem? hx)
      rw [Token.stop] at hle
      omega
    rw [hedits, moved, if_neg hlater, Nat.sub_self, Nat.add_zero]
  refine ⟨fun k x hx hkind hkeeps => ?_, fun k x e hx hkind hkeeps he => ?_⟩
  · rw [← hmoved hx]
    exact h.kept (k + 1) x hx hkind (hkeeps.imp_right keepsName_succ.2)
  · rw [← hmoved hx]
    exact h.takes (k + 1) x e hx hkind (fun hkept => hkeeps (keepsName_succ.1 hkept)) he

end Account.Knows

theorem Text.take_drop_piece {s front piece rest : Text} (hs : s = front ++ piece ++ rest) :
    (s.drop front.length).take piece.length = piece := by
  rw [hs, List.append_assoc, List.drop_left, List.take_left]

theorem Text.Spells.splice_advance {s : Text} {done n : Nat} {tokens : List Token}
    (h : s.Spells (done + n) tokens) (es : Equivalences) (skip : Option Nat) (index : Nat) :
    s.splice done (equivalenceEdits es skip index tokens)
      = (s.drop done).take n ++ s.splice (done + n) (equivalenceEdits es skip index tokens) := by
  rw [splice_of_admits (h.admits (sublist_equivalenceEdits es skip index tokens)) (Nat.le_add_right ..),
    Nat.add_sub_cancel_left]

namespace Vocabulary

variable {v : Vocabulary} {a : Account} {line : SourceLine} {after : Bool} {offset column place : Nat}
  {g : Glyph} {gs : List Glyph} {es : Equivalences} {skip : Option Nat} {index : Nat}

/-- The characters of a line from a token on, and those of the line with the values. -/
theorem exists_respells_scan {s front : Text} (hs : s = front ++ ofGlyphs gs)
    (hfront : front.length = offset) (hbytes : ∀ g ∈ gs, g.bytes ≠ [])
    {tokens : List Token} (htokens : (v.scan line after offset column gs).map Prod.fst = tokens)
    (hknows : a.Knows v es skip index place offset tokens) :
    ∃ ns, Respells a v after gs place ns ∧
      ofGlyphs ns = s.splice offset (equivalenceEdits es skip index tokens) := by
  fun_induction Vocabulary.scan v line after offset column gs generalizing front index place tokens with
  | case1 after offset column =>
    subst htokens
    refine ⟨[], .nil, ?_⟩
    rw [List.map_nil, equivalenceEdits, splice, hs, ← hfront, List.drop_left]
  | case2 after offset column g rest hread ih =>
    have hsplit : s = front ++ g.bytes ++ ofGlyphs rest := hs.trans (append_ofGlyphs_cons front g rest)
    have hlength : (front ++ g.bytes).length = offset + g.bytes.length := by
      rw [List.length_append, hfront]
    have hrest := (List.forall_mem_cons.1 hbytes).2
    have hspells : s.Spells (offset + g.bytes.length) tokens :=
      htokens ▸ spells_scan hsplit hlength hrest
    obtain ⟨ns, hns, htext⟩ := ih hsplit hlength hrest htokens (hknows.advance hspells)
    refine ⟨g :: ns, .separator (Lexeme.read_eq_none_iff.1 hread) hns, ?_⟩
    rw [ofGlyphs_cons, htext, hspells.splice_advance es skip index, ← hfront, take_drop_piece hsplit]
  | case3 after offset column g rest lexeme hread text =>
    rename_i token ih
    have hsplit : s = front ++ text ++ ofGlyphs (rest.drop lexeme.extra) :=
      hs.trans (append_ofGlyphs_take front g rest lexeme.extra)
    have hlength : (front ++ text).length = offset + text.length := by
      rw [List.length_append, hfront]
    have hrest : ∀ x ∈ rest.drop lexeme.extra, x.bytes ≠ [] :=
      fun x hx => hbytes x (List.mem_cons_of_mem _ (List.mem_of_mem_drop hx))
    obtain ⟨later, hlater⟩ : ∃ later, (v.scan line lexeme.kind.isValue (offset + text.length)
      (column + 1 + lexeme.extra) (rest.drop lexeme.extra)).map Prod.fst = later := ⟨_, rfl⟩
    have hspells : s.Spells (offset + text.length) later := hlater ▸ spells_scan hsplit hlength hrest
    rw [List.map_cons, hlater] at htokens
    subst htokens
    rcases equivalenceEdits_cons es skip index token later with
      ⟨hsame, hkeeps⟩ | ⟨e, hkind, hkeeps, he, hedits⟩
    · have hadmits := hspells.admits (sublist_equivalenceEdits es skip (index + 1) later)
      obtain ⟨ns, hns, htext⟩ := ih hsplit hlength hrest hlater ((hknows.of_kept hsame).advance hspells)
      refine ⟨_, .kept hread (fun hkind => ?_) hns, ?_⟩
      · have hkept := hknows.kept 0 token rfl hkind (hkeeps hkind)
        rwa [hsame, moved_done (hadmits.of_le (Nat.le_add_right ..))] at hkept
      · rw [hsame, ← List.cons_append, ofGlyphs_append, htext,
          hspells.splice_advance es skip (index + 1), ← hfront, take_drop_piece hsplit]
    · have htext : text ≠ [] := by
        have hg := hbytes g (List.mem_cons_self ..)
        simp [text, ofGlyphs_cons, hg]
      have hlexeme : lexeme.kind = .identifier := hkind
      obtain ⟨hstart, hextra, hclass⟩ :=
        (Lexeme.agrees_of_read hread).word (.inl (by rw [hlexeme]; rfl))
      obtain ⟨vs, hvalue, htakes⟩ := hknows.takes 0 token e rfl hkind hkeeps he
      obtain ⟨ns, hns, hmore⟩ := ih hsplit hlength hrest hlater (hknows.of_replaced hedits hspells htext)
      rw [hedits, moved, if_pos (Nat.le_refl _), Nat.sub_self, Nat.add_zero] at htakes
      rw [hvalue, hclass, hextra] at hns
      refine ⟨vs ++ ns, .replaced hstart htakes hns, ?_⟩
      rw [hedits, splice, Nat.sub_self, List.take_zero, List.nil_append, ofGlyphs_append, hmore, hvalue]
      rfl

end Vocabulary

/-! ### One line -/

namespace TokenLine

/-- The token at place `k` keeps its name: it is the label of the line, or the symbol that it defines. -/
def Keeps (l : TokenLine) (k : Nat) : Prop :=
  k = 0 ∧ l.tokens[1]?.map Token.kind = some .colon ∨ l.equivalence?.map (· + 1) = some k

instance (l : TokenLine) (k : Nat) : Decidable (l.Keeps k) := inferInstanceAs (Decidable (_ ∨ _))

theorem keepsName_iff {l : TokenLine} {k : Nat} :
    KeepsName (l.equivalence?.map (· + 1)) 0 l.tokens k ↔ l.Keeps k := by
  rw [KeepsName, Keeps, Nat.zero_add, or_comm, eq_comm (a := some k)]
  refine or_congr_left (and_congr_right fun hk => ?_)
  rw [hk]

/-- The token gives way to the value of the equivalence. -/
def Replaces (l : TokenLine) (es : Equivalences) (t : Token) (e : Equivalence) : Prop :=
  ∃ k, l.tokens[k]? = some t ∧ t.kind = .identifier ∧ ¬ l.Keeps k ∧ es.find? t.text = some e

/-- Where a place in the line comes to when the values are put in. -/
def comesTo (l : TokenLine) (es : Equivalences) (n : Nat) : Nat := moved 0 0 (l.equivalenceEdits es) n

/-- A value begins or ends at the place of the new line. -/
def SeamAt (l : TokenLine) (es : Equivalences) (n : Nat) : Prop :=
  ∃ t e, l.Replaces es t e ∧ (n = l.comesTo es t.offset ∨ n = l.comesTo es t.offset + e.value.length)

end TokenLine

/-- The place is inside of the token. -/
def Token.Straddles (t : Token) (n : Nat) : Prop := t.offset < n ∧ n < t.stop

namespace Vocabulary

variable {v : Vocabulary} {line : SourceLine} {es : Equivalences}

theorem tokenizeUnder_eq (v : Vocabulary) (es : Equivalences) (line : SourceLine) :
    v.tokenizeUnder es line
      = v.tokenizeText (line.text.splice 0 ((v.tokenize line).1.equivalenceEdits es)) line := by
  unfold tokenizeUnder
  simp only
  split
  · rename_i hnone
    rw [hnone, splice, List.drop_zero]
    rfl
  · rfl

theorem slice?_of_replaces {t : Token} {e : Equivalence} (h : (v.tokenize line).1.Replaces es t e) :
    let n := (v.tokenize line).1.comesTo es t.offset
    (v.tokenizeUnder es line).1.text.slice? n (n + e.value.length) = some e.value := by
  obtain ⟨k, ht, hkind, hkeeps, he⟩ := h
  have hspells : line.text.Spells 0 (v.tokenize line).1.tokens := v.spanned_tokenizeText line.text line
  have hsublist := sublist_equivalenceEdits es ((v.tokenize line).1.equivalence?.map (· + 1)) 0
    (v.tokenize line).1.tokens
  have hpositive : ∀ e ∈ (v.tokenize line).1.equivalenceEdits es, e.start < e.stop := by
    intro e he
    obtain ⟨t, ht, hsame⟩ := List.mem_map.1 (hsublist.subset (List.mem_map_of_mem he))
    obtain ⟨hstart, hstop⟩ := Prod.mk.inj hsame
    rw [← hstart, ← hstop, Token.stop]
    exact Nat.lt_add_of_pos_right (List.length_pos_iff.2 (hspells.piece_of_mem ht).1)
  have hmem := mem_equivalenceEdits ht hkind (mt TokenLine.keepsName_iff.1 hkeeps) he
  rw [tokenizeUnder_eq]
  exact slice?_moved (hspells.admits hsublist) hpositive List.length_nil hmem

/-- What may be said of places in a line with the values of equivalences, when it is known which names
each of them mentions, and how far behind its start. -/
def accountOf (v : Vocabulary) (es : Equivalences) (line : SourceLine)
    (mentions : Equivalence → Text → Nat → Prop) : Account where
  kept name n := ∃ k t, (v.tokenize line).1.tokens[k]? = some t ∧
    (es.find? t.text = none ∨ (v.tokenize line).1.Keeps k) ∧ name = t.text ∧
    n = (v.tokenize line).1.comesTo es t.offset
  named name n := ∃ t e m, (v.tokenize line).1.Replaces es t e ∧ mentions e name m ∧
    n = (v.tokenize line).1.comesTo es t.offset + m
  crossed start stop := ∃ n, (v.tokenize line).1.SeamAt es n ∧ start < n ∧ n < stop
  behind n := ∃ u ∈ (v.tokenizeUnder es line).1.tokens, u.kind.isNumeric = true ∧ u.stop = n ∧
    ∃ m, (v.tokenize line).1.SeamAt es m ∧ u.Straddles m

variable {mentions : Equivalence → Text → Nat → Prop}
  (hvalues : ∀ t e, (v.tokenize line).1.Replaces es t e → ∃ vs, e.value = ofGlyphs vs ∧
    Passage v (fun name n => n ≤ e.value.length ∧ mentions e name (e.value.length - n)) vs)
include hvalues

theorem knows_accountOf : (v.accountOf es line mentions).Knows v es
    ((v.tokenize line).1.equivalence?.map (· + 1)) 0 0 0 (v.tokenize line).1.tokens := by
  refine ⟨fun k t ht _ hkeeps => ⟨k, t, ht, hkeeps.imp_right TokenLine.keepsName_iff.1, rfl, rfl⟩,
    fun k t e ht hkind hkeeps he => ?_⟩
  have hreplaces : (v.tokenize line).1.Replaces es t e :=
    ⟨k, ht, hkind, mt TokenLine.keepsName_iff.2 hkeeps, he⟩
  obtain ⟨vs, hvalue, hpassage⟩ := hvalues t e hreplaces
  have hwidth : e.value.length = width vs := by rw [hvalue, width]
  refine ⟨vs, hvalue, hpassage.imp fun name n hnamed => ⟨t, e, _, hreplaces, hnamed.2, ?_⟩, ?_, ?_⟩
  · rw [← hwidth, Nat.add_sub_assoc hnamed.1]
    rfl
  · exact fun start later hstart hlater => ⟨_, ⟨t, e, hreplaces, .inl rfl⟩, hstart, hlater⟩
  · refine fun start later hstart hlater => ⟨_, ⟨t, e, hreplaces, .inr rfl⟩, ?_, ?_⟩
    · rw [hwidth]
      exact hstart
    · rw [hwidth]
      exact hlater

/-- Every identifier of a line with values is accounted for. -/
theorem clears_of_mem_tokenizeUnder {t : Token} (ht : t ∈ (v.tokenizeUnder es line).1.tokens)
    (hkind : t.kind = .identifier) : (v.accountOf es line mentions).Clears t := by
  have hline : line.text = [] ++ ofGlyphs (glyphs line.text) := (ofGlyphs_glyphs line.text).symm
  obtain ⟨ns, hns, htext⟩ := exists_respells_scan hline rfl (fun g hg => ne_nil_of_mem_glyphs hg) rfl
    (knows_accountOf hvalues)
  have hglyphs : glyphs (ofGlyphs ns) = ns := hns.legible [] (.of_glyphs line.text)
  have hread : (v.tokenizeUnder es line).1.tokens = (v.scan line false 0 0 ns).map Prod.fst := by
    rw [tokenizeUnder_eq]
    change (v.scan line false 0 0 (glyphs (line.text.splice 0 _))).map Prod.fst = _
    rw [TokenLine.equivalenceEdits, ← hglyphs, htext]
    rfl
  have hbytes : ∀ g ∈ ns, g.bytes ≠ [] := by
    rw [← hglyphs]
    exact fun g hg => ne_nil_of_mem_glyphs hg
  have hcarries : Carries _ v line _ _ ns := carries_of_respells hns hbytes
  rw [hread] at ht
  obtain ⟨p, hp, rfl⟩ := List.mem_map.1 ht
  refine hcarries.holds false 0 (fun u hu hnumeric hcrossed => ⟨u.1, ?_, hnumeric, rfl, hcrossed⟩) p hp
    hkind
  rw [hread]
  exact List.mem_map_of_mem hu

end Vocabulary

end Rv32Assembler
