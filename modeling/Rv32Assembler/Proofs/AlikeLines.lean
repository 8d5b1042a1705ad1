import Rv32Assembler.Proofs.Definitions
/-!
# Alike lines

The lines of two files have the same tokens but for their places and the numbers of their lines. Alike
lines are read alike as long as the macros of the two files correspond. How they do depends on how the
lines of the one file come from those of the other; what reading asks of the correspondence is
`MacroPool.Tracks`, and from it follows that alike lines come to alike calls (`Tracks.callIn?`) and
otherwise make alike states (`Tracks.readPlainLine`).
-/

namespace Rv32Assembler

/-! ### Lines -/

/-- The lines have the same text and, but for their places, the same tokens. -/
structure TokenLine.Alike (l l' : TokenLine) : Prop where
  tokens : List.Forall₂ Token.Alike l.tokens l'.tokens
  text : l'.text = l.text

theorem TokenLine.Alike.refl (l : TokenLine) : l.Alike l :=
  ⟨List.forall₂_same.2 fun t _ => .refl t, rfl⟩

theorem Vocabulary.scan_alike (v : Vocabulary) (line line' : SourceLine) (afterValue : Bool)
    (offset column : Nat) (gs : List Text.Glyph) :
    List.Forall₂ (fun p p' : Token × Option LexicalError => p.1.Alike p'.1 ∧ p'.2 = p.2)
      (v.scan line afterValue offset column gs) (v.scan line' afterValue offset column gs) := by
  fun_induction Vocabulary.scan v line afterValue offset column gs with
  | case1 =>
    rw [scan]
    exact .nil
  | case2 afterValue offset column g rest hread ih =>
    rw [scan, hread]
    exact ih
  | case3 afterValue offset column g rest lexeme hread text token ih =>
    rw [scan, hread]
    exact .cons ⟨⟨rfl, rfl, rfl, rfl, rfl⟩, rfl⟩ ih

theorem Vocabulary.tokenizeText_alike (v : Vocabulary) (text : Text) (line line' : SourceLine) :
    (v.tokenizeText text line).1.Alike (v.tokenizeText text line').1 := by
  refine ⟨?_, rfl⟩
  unfold tokenizeText
  rw [List.forall₂_map_left_iff, List.forall₂_map_right_iff]
  exact (v.scan_alike line line' false 0 0 text.glyphs).imp fun _ _ h => h.1

theorem Vocabulary.tokenize_alike (v : Vocabulary) {line line' : SourceLine}
    (h : line'.text = line.text) : (v.tokenize line).1.Alike (v.tokenize line').1 := by
  unfold tokenize
  rw [h]
  exact v.tokenizeText_alike line.text line line'

theorem Vocabulary.lexicalMessages_tokenizeText_alike (v : Vocabulary) (text : Text)
    (line line' : SourceLine) (note note' : Text) :
    List.Forall₂ (fun m m' : Message => m'.warning = m.warning)
      (lexicalMessages note (v.tokenizeText text line).2)
      (lexicalMessages note' (v.tokenizeText text line').2) := by
  unfold tokenizeText lexicalMessages
  rw [List.forall₂_map_left_iff, List.forall₂_map_right_iff]
  have hscan := v.scan_alike line line' false 0 0 text.glyphs
  generalize v.scan line false 0 0 text.glyphs = ps, v.scan line' false 0 0 text.glyphs = ps' at hscan
  simp only
  induction hscan with
  | nil => exact .nil
  | @cons p p' _ _ hp _ ih =>
    obtain ⟨t, problem⟩ := p
    obtain ⟨t', problem'⟩ := p'
    obtain rfl : problem' = problem := hp.2
    cases problem' with
    | none => exact ih
    | some e => exact .cons rfl ih

theorem Vocabulary.lexicalMessages_alike (v : Vocabulary) {line line' : SourceLine}
    (h : line'.text = line.text) (note note' : Text) :
    List.Forall₂ (fun m m' : Message => m'.warning = m.warning)
      (lexicalMessages note (v.tokenize line).2) (lexicalMessages note' (v.tokenize line').2) := by
  unfold tokenize
  rw [h]
  exact v.lexicalMessages_tokenizeText_alike line.text line line' note note'

theorem Vocabulary.eq_nil_alike (v : Vocabulary) {line line' : SourceLine}
    (h : line'.text = line.text) (hnil : (v.tokenize line).2 = []) : (v.tokenize line').2 = [] := by
  have hlength := (v.lexicalMessages_alike h [] []).length_eq
  rw [lexicalMessages, lexicalMessages, List.length_map, List.length_map, hnil] at hlength
  exact List.length_eq_zero_iff.1 hlength.symm

theorem rel_getLast? {ts ts' : List Token} (h : List.Forall₂ Token.Alike ts ts') :
    Option.Rel Token.Alike ts.getLast? ts'.getLast? := by
  rw [← List.head?_reverse, ← List.head?_reverse]
  have hreverse := List.rel_reverse h
  generalize ts.reverse = us, ts'.reverse = us' at hreverse
  cases hreverse with
  | nil => exact .none
  | cons ht _ => exact .some ht

theorem forall₂_dropLast {ts ts' : List Token} (h : List.Forall₂ Token.Alike ts ts') :
    List.Forall₂ Token.Alike ts.dropLast ts'.dropLast := by
  rw [List.dropLast_eq_take, List.dropLast_eq_take, h.length_eq]
  exact List.forall₂_take _ h

theorem map_text {ts ts' : List Token} (h : List.Forall₂ Token.Alike ts ts') :
    ts'.map Token.text = ts.map Token.text := by
  induction h with
  | nil => rfl
  | cons ht _ ih => rw [List.map_cons, List.map_cons, ht.text, ih]

theorem rel_find? {ts ts' : List Token} (h : List.Forall₂ Token.Alike ts ts') {q : Token → Bool}
    (hq : ∀ {t t' : Token}, t.Alike t' → q t' = q t) :
    Option.Rel Token.Alike (ts.find? q) (ts'.find? q) := by
  induction h with
  | nil => exact .none
  | cons ht _ ih =>
    simp only [List.find?_cons, hq ht]
    split
    · exact .some ht
    · exact ih

namespace TokenLine.Alike

variable {l l' : TokenLine}

theorem withoutComment (h : l.Alike l') : l.withoutComment.Alike l'.withoutComment := by
  have hlast := rel_getLast? h.tokens
  unfold TokenLine.withoutComment
  generalize l.tokens.getLast? = last, l'.tokens.getLast? = last' at hlast
  cases hlast with
  | none => exact h
  | some ht =>
    simp only [ht.kind]
    split
    · exact ⟨forall₂_dropLast h.tokens, h.text⟩
    · exact h

theorem any_kind (h : l.Alike l') (p : Kind → Bool) :
    (l'.tokens.any fun t => p t.kind) = l.tokens.any fun t => p t.kind := by
  have htokens := h.tokens
  generalize l.tokens = ts, l'.tokens = ts' at htokens
  induction htokens with
  | nil => rfl
  | cons ht _ ih => rw [List.any_cons, List.any_cons, ht.kind, ih]

theorem isWrong (h : l.Alike l') : l'.isWrong = l.isWrong :=
  h.withoutComment.any_kind fun k => k == .error

end TokenLine.Alike

theorem forall₂_afterLabels {ts ts' : List Token} (h : List.Forall₂ Token.Alike ts ts') :
    List.Forall₂ Token.Alike (afterLabels ts) (afterLabels ts') := by
  fun_induction afterLabels ts generalizing ts' with
  | case1 label colon rest hlabel ih =>
    rcases h with _ | ⟨hfirst, _ | ⟨hsecond, hrest⟩⟩
    rw [afterLabels, hfirst.kind, hsecond.kind, if_pos hlabel]
    exact ih hrest
  | case2 label colon rest hlabel =>
    rcases h with _ | ⟨hfirst, _ | ⟨hsecond, hrest⟩⟩
    rw [afterLabels, hfirst.kind, hsecond.kind, if_neg hlabel]
    exact .cons hfirst (.cons hsecond hrest)
  | case3 ts hshort =>
    rcases h with _ | ⟨hfirst, _ | ⟨hsecond, hrest⟩⟩
    · exact .nil
    · exact .cons hfirst .nil
    · exact absurd rfl (hshort _ _ _)

theorem TokenLine.Alike.directive? {l l' : TokenLine} (h : l.Alike l') :
    l'.directive? = l.directive? := by
  unfold TokenLine.directive?
  rw [h.isWrong]
  have hafter := forall₂_afterLabels h.withoutComment.tokens
  split
  · rfl
  · generalize afterLabels l.withoutComment.tokens = ts,
      afterLabels l'.withoutComment.tokens = ts' at hafter
    cases hafter with
    | nil => rfl
    | cons ht _ => simp only [ht.kind, ht.text]

theorem TokenLine.Alike.delimits {l l' : TokenLine} (h : l.Alike l') : l'.delimits = l.delimits := by
  rw [TokenLine.delimits, TokenLine.delimits, h.directive?]

theorem TokenLine.Alike.equivalence? {l l' : TokenLine} (h : l.Alike l') :
    l'.equivalence? = l.equivalence? := by
  have hplace {ts ts' : List Token} (hts : List.Forall₂ Token.Alike ts ts') (start : Nat) :
      equivalenceFrom? start ts' = equivalenceFrom? start ts := by
    induction hts generalizing start with
    | nil => rfl
    | cons ht _ ih => simp only [equivalenceFrom?, ht.kind, ht.text, ih]
  exact hplace h.tokens 0

theorem forall₂_bareParameters {ts ts' : List Token} (h : List.Forall₂ Token.Alike ts ts') :
    List.Forall₂ Token.Alike (MacroPool.bareParameters ts) (MacroPool.bareParameters ts') := by
  cases h with
  | nil => exact .nil
  | @cons t t' ts ts' ht hts =>
    have hlast := rel_getLast? hts
    unfold MacroPool.bareParameters
    simp only
    generalize ts.getLast? = last, ts'.getLast? = last' at hlast
    cases hlast with
    | none => exact .cons ht hts
    | some hu =>
      simp only [ht.kind, hu.kind]
      split
      · exact forall₂_dropLast hts
      · exact .cons ht hts

theorem forall₂_bareCall {ts ts' : List Token} (h : List.Forall₂ Token.Alike ts ts') :
    List.Forall₂ Token.Alike (Reading.bareCall ts) (Reading.bareCall ts') := by
  cases h with
  | nil => exact .nil
  | cons hname hafter =>
    cases hafter with
    | nil => exact .cons hname .nil
    | @cons left left' rest rest' hleft hrest =>
      have hlast := rel_getLast? hrest
      unfold Reading.bareCall
      simp only
      generalize rest.getLast? = last, rest'.getLast? = last' at hlast
      cases hlast with
      | none => exact .cons hname (.cons hleft hrest)
      | some hright =>
        simp only [hleft.kind, hright.kind]
        split
        · exact .cons hname (forall₂_dropLast hrest)
        · exact .cons hname (.cons hleft hrest)

/-- Alike outcomes: both succeed with related results, or both fail. -/
inductive Except.Alike {ε α : Type} (R : α → α → Prop) : Except ε α → Except ε α → Prop where
  | ok {a a' : α} : R a a' → Except.Alike R (.ok a) (.ok a')
  | error (e e' : ε) : Except.Alike R (.error e) (.error e')

/-! ### Macros -/

namespace MacroPool

variable {p p' : MacroPool}

theorem isDefining_alike {O : Macro × List Text → Macro × List Text → Prop}
    (h : Option.Rel O p.current p'.current) : p'.isDefining = p.isDefining := by
  unfold MacroPool.isDefining
  generalize p.current = d, p'.current = d' at h
  cases h <;> rfl

theorem matching_alike {Q : Macro → Macro → Prop}
    (hname : ∀ {m m' : Macro}, Q m m' → m'.name = m.name)
    (hparameters : ∀ {m m' : Macro}, Q m m' → m'.parameters = m.parameters)
    (hless : ∀ {b b' m m' : Macro}, Q b b' → Q m m' → (b'.first < m'.first ↔ b.first < m.first))
    (h : List.Forall₂ Q p.macros p'.macros) {call call' : List Token}
    (hcall : List.Forall₂ Token.Alike call call') :
    Option.Rel Q (p.matching call) (p'.matching call') := by
  have hlater {ms ms' : List Macro} (hms : List.Forall₂ Q ms ms') {b b' : Option Macro}
      (hb : Option.Rel Q b b') : Option.Rel Q (ms.foldl later b) (ms'.foldl later b') := by
    induction hms generalizing b b' with
    | nil => exact hb
    | @cons m m' _ _ hm _ ih =>
      apply ih
      cases hb with
      | none => exact .some hm
      | @some b b' hb =>
        simp only [later, hless hb hm]
        split
        · exact .some hm
        · exact .some hb
  cases hcall with
  | nil => exact .none
  | @cons t t' ts ts' ht hts =>
    unfold MacroPool.matching
    simp only [ht.text, ← hts.length_eq]
    apply hlater _ .none
    generalize p.macros = ms, p'.macros = ms' at h
    induction h with
    | nil => exact .nil
    | cons hm _ ih =>
      simp only [List.filter_cons, hname hm, hparameters hm]
      split
      · exact .cons hm ih
      · exact ih

theorem begin_alike (hdefining : p'.isDefining = p.isDefining) (i i' : Int) {ts ts' : List Token}
    (hts : List.Forall₂ Token.Alike ts ts') :
    Except.Alike (fun q q' => ∃ m m' : Macro, q = { p with current := some (m, []) } ∧
        q' = { p' with current := some (m', []) } ∧ m'.name = m.name ∧
        m'.parameters = m.parameters ∧ m.first = i ∧ m'.first = i')
      (p.begin ts i) (p'.begin ts' i') := by
  unfold MacroPool.begin MacroPool.start
  rw [hdefining]
  split
  · exact .error _ _
  · cases hts with
    | nil => exact .error _ _
    | @cons t t' ts ts' ht hts =>
      simp only [ht.kind]
      split
      · exact .error _ _
      · have hparameters := forall₂_bareParameters hts
        have hfind := rel_find? (q := fun t => t.kind != .macroParameter) hparameters
          fun ht => by rw [ht.kind]
        generalize (bareParameters ts).find? (fun t => t.kind != .macroParameter) = bad,
          (bareParameters ts').find? (fun t => t.kind != .macroParameter) = bad' at hfind
        cases hfind with
        | some _ => exact .error _ _
        | none => exact .ok ⟨_, _, rfl, rfl, ht.text, map_text hparameters, rfl, rfl⟩

/-- The end of corresponding definitions is refused in both files, or in none. -/
theorem commit_alike {O : Macro × List Text → Macro × List Text → Prop}
    (hcurrent : Option.Rel O p.current p'.current) (i i' line line' : Int) {ts ts' : List Token}
    (hts : List.Forall₂ Token.Alike ts ts') :
    Except.Alike (fun q q' => ∃ d d', O d d' ∧ p.current = some d ∧
        q = { p with macros := p.macros ++ [closed d i line], current := none } ∧
        q' = { p' with macros := p'.macros ++ [closed d' i' line'], current := none })
      (p.commit i line ts) (p'.commit i' line' ts') := by
  have hempty : ts'.isEmpty = ts.isEmpty := by cases hts <;> rfl
  unfold MacroPool.commit MacroPool.finish
  rw [hempty]
  generalize hd : p.current = d, hd' : p'.current = d' at hcurrent
  cases hcurrent with
  | none => exact .error _ _
  | @some d d' hopened =>
    simp only
    split
    · exact .error _ _
    · exact .ok ⟨d, d', hopened, rfl, rfl, rfl⟩

end MacroPool

/-! ### Text of expansions -/

namespace Macro

variable {m m' : Macro} {call call' : List Token} {counter counter' : Int}

theorem replacement_alike (hparameters : m'.parameters = m.parameters) (hlabels : m'.labels = m.labels)
    (hcall : List.Forall₂ Token.Alike call call') (hcounter : counter' = counter ∨ m.labels = #[])
    {t t' : Token} (ht : t.Alike t') :
    m'.replacement call' counter' t' = m.replacement call counter t := by
  unfold Macro.replacement
  rw [ht.kind, ht.text, hparameters]
  split
  · cases m.parameters.findIdx? fun p => p == t.text with
    | none => rfl
    | some i =>
      have hargument : call'[i + 1]?.map Token.text = call[i + 1]?.map Token.text := by
        rw [← List.getElem?_map, ← List.getElem?_map, map_text hcall]
      simp only
      cases hc : call[i + 1]? <;> cases hc' : call'[i + 1]? <;> simp_all
  · have hlabel : m'.hasLabel t.text = m.hasLabel t.text := by
      rw [Macro.hasLabel, Macro.hasLabel, hlabels]
    rw [hlabel]
    rcases hcounter with rfl | hnone
    · rfl
    · have hfalse : m.hasLabel t.text = false := by
        rw [Macro.hasLabel, hnone]
        rfl
      simp [hfalse]

theorem edits_alike (hparameters : m'.parameters = m.parameters) (hlabels : m'.labels = m.labels)
    (hcall : List.Forall₂ Token.Alike call call') (hcounter : counter' = counter ∨ m.labels = #[])
    {ts ts' : List Token} (hts : List.Forall₂ Token.Alike ts ts') :
    m'.edits call' counter' ts' = m.edits call counter ts := by
  induction hts with
  | nil => rfl
  | cons ht _ ih =>
    rw [Macro.edits, Macro.edits, replacement_alike hparameters hlabels hcall hcounter ht, ih]
    simp only [Token.stop, ht.offset, ht.text]

theorem substitute_alike (hparameters : m'.parameters = m.parameters) (hlabels : m'.labels = m.labels)
    (hcall : List.Forall₂ Token.Alike call call') (hcounter : counter' = counter ∨ m.labels = #[])
    {lines lines' : Array TokenLine} {i i' : Int} (hi : i ∈ Reading.bodyIndices m)
    (hi' : i' ∈ Reading.bodyIndices m') {l l' : TokenLine} (hl : lineAt? lines i = some l)
    (hl' : lineAt? lines' i' = some l') (hline : l.Alike l') :
    m'.substitute lines' i' call' counter' = m.substitute lines i call counter := by
  have hinside := Reading.mem_bodyIndices hi
  have hinside' := Reading.mem_bodyIndices hi'
  unfold Macro.substitute
  rw [if_neg (by simp; omega), if_neg (by simp; omega), hl, hl']
  simp only [hline.text, edits_alike hparameters hlabels hcall hcounter hline.tokens]

end Macro

/-! ### Reading -/

/-- What reading asks of a correspondence `P` between the macros of two files, where single macros
correspond by `Q`. Definitions start and end at places that correspond by `places`, and they have
labels only if expansions have the same numbers in both files. -/
structure MacroPool.Tracks (P : MacroPool → MacroPool → Prop) (Q : Macro → Macro → Prop)
    (counted : Prop) (places : Int → Int → Prop) : Prop where
  isDefining : ∀ {p p' : MacroPool}, P p p' → p'.isDefining = p.isDefining
  addLabel : ∀ {p p' : MacroPool}, P p p' → (p.isDefining = true → counted) →
    ∀ name, P (p.addLabel name) (p'.addLabel name)
  matching : ∀ {p p' : MacroPool}, P p p' → ∀ {call call' : List Token},
    List.Forall₂ Token.Alike call call' → Option.Rel Q (p.matching call) (p'.matching call')
  begin : ∀ {p p' : MacroPool}, P p p' → ∀ {i i' : Int}, places i i' → ∀ {ts ts' : List Token},
    List.Forall₂ Token.Alike ts ts' → Except.Alike P (p.begin ts i) (p'.begin ts' i')
  commit : ∀ {p p' : MacroPool}, P p p' → ∀ {i i' : Int}, places i i' → ∀ (line line' : Int)
    {ts ts' : List Token}, List.Forall₂ Token.Alike ts ts' →
    Except.Alike P (p.commit i line ts) (p'.commit i' line' ts')

/-- The calls are the same, of corresponding macros. -/
structure MacroCall.Tracks (P : MacroPool → MacroPool → Prop) (Q : Macro → Macro → Prop)
    (c c' : MacroCall) : Prop where
  before : c.before.Alike P c'.before
  first : c.first.Alike c'.first
  callee : Q c.callee c'.callee
  tokens : List.Forall₂ Token.Alike c.tokens c'.tokens

namespace MacroPool.Tracks

variable {P : MacroPool → MacroPool → Prop} {Q : Macro → Macro → Prop} {counted : Prop}
  {places : Int → Int → Prop} {r r' : Reading} {note note' : Text} {l l' : TokenLine} {i i' : Int}

open Reading

theorem defineLabel (T : Tracks P Q counted places) (h : r.Alike P r')
    (hcounted : r.pool.isDefining = true → counted) {t t' : Token} (ht : t.Alike t') :
    (r.defineLabel note t).Alike P (r'.defineLabel note' t') := by
  unfold Reading.defineLabel
  rw [T.isDefining h.pool, ht.text]
  split
  · exact h.set_pool (T.addLabel h.pool hcounted _)
  · rw [h.labels, h.cursors]
    split
    · exact { h with labels := rfl }
    · exact h.report rfl

/-- A line of a definition has labels only if expansions have the same numbers. -/
theorem defineLabels (T : Tracks P Q counted places) (h : r.Alike P r') {ts ts' : List Token}
    (hts : List.Forall₂ Token.Alike ts ts')
    (hlabels : r.pool.isDefining = true → leadingLabels ts ≠ [] → counted) :
    (r.defineLabels note ts).1.Alike P (r'.defineLabels note' ts').1 := by
  induction ts using afterLabels.induct generalizing r r' ts' with
  | case1 label colon rest hlabel ih =>
    rcases hts with _ | ⟨hfirst, _ | ⟨hsecond, hrest⟩⟩
    rw [leadingLabels, if_pos hlabel] at hlabels
    have hcounted : r.pool.isDefining = true → counted := fun hd => hlabels hd (by simp)
    rw [r.defineLabels_of_label note rest hlabel, Reading.defineLabels, hfirst.kind, hsecond.kind,
      if_pos hlabel]
    apply ih (T.defineLabel h hcounted hfirst) hrest
    intro hd _
    apply hcounted
    have hsame := r.isDefining_defineLabels note [label, colon]
    rw [r.defineLabels_of_label note [] hlabel, Reading.defineLabels] at hsame
    · exact hsame ▸ hd
    · intro _ _ _ hnil
      cases hnil
  | case2 label colon rest hlabel =>
    rcases hts with _ | ⟨hfirst, _ | ⟨hsecond, hrest⟩⟩
    rw [r.defineLabels_of_other note rest hlabel, Reading.defineLabels, hfirst.kind, hsecond.kind,
      if_neg hlabel]
    exact h
  | case3 ts hshort =>
    rcases hts with _ | ⟨hfirst, _ | ⟨hsecond, hrest⟩⟩
    · exact h
    · exact h
    · exact absurd rfl (hshort _ _ _)

theorem executeBegin (T : Tracks P Q counted places) (h : r.Alike P r') (hi : places i i')
    (t t' : Token) {ts ts' : List Token} (hts : List.Forall₂ Token.Alike ts ts') :
    (r.executeBegin note i t ts).Alike P (r'.executeBegin note' i' t' ts') := by
  have hbegin := T.begin h.pool hi hts
  rw [Reading.executeBegin_eq, Reading.executeBegin_eq]
  generalize r.pool.begin ts i = q, r'.pool.begin ts' i' = q' at hbegin
  cases hbegin with
  | ok hpool => exact h.set_pool hpool
  | error => exact h.report rfl

theorem executeEnd (T : Tracks P Q counted places) (h : r.Alike P r') (hi : places i i')
    (t t' : Token) {ts ts' : List Token} (hts : List.Forall₂ Token.Alike ts ts') :
    (r.executeEnd note i t ts).Alike P (r'.executeEnd note' i' t' ts') := by
  have hcommit := T.commit h.pool hi t.line t'.line hts
  rw [Reading.executeEnd_eq, Reading.executeEnd_eq]
  generalize r.pool.commit i t.line ts = q, r'.pool.commit i' t'.line ts' = q' at hcommit
  cases hcommit with
  | ok hpool => exact h.set_pool hpool
  | error => exact h.report rfl

theorem execute (T : Tracks P Q counted places) (h : r.Alike P r') {t t' : Token} (ht : t.Alike t')
    (hi : ∀ d, Directive.ofName? t.text = some d → d = .beginMacro ∨ d = .endMacro → places i i')
    {ts ts' : List Token} (hts : List.Forall₂ Token.Alike ts ts') :
    (r.execute note i t ts).Alike P (r'.execute note' i' t' ts') := by
  unfold Reading.execute
  rw [ht.text, T.isDefining h.pool]
  cases hname : Directive.ofName? t.text with
  | none => exact h.report rfl
  | some d =>
    simp only
    by_cases hbegin : d = .beginMacro
    · subst hbegin
      have hplaces := hi _ hname (.inl rfl)
      split <;> exact T.executeBegin h hplaces t t' hts
    · by_cases hend : d = .endMacro
      · subst hend
        have hplaces := hi _ hname (.inr rfl)
        split <;> exact T.executeEnd h hplaces t t' hts
      · split
        · simp only [beq_eq_false_iff_ne.2 hbegin, beq_eq_false_iff_ne.2 hend]
          exact h
        · exact h.executePlain hbegin hend i i' t t' hts

theorem called? (T : Tracks P Q counted places) (h : r.Alike P r') {ts ts' : List Token}
    (hts : List.Forall₂ Token.Alike ts ts') :
    Option.Rel (fun x x' => Q x.1 x'.1 ∧ List.Forall₂ Token.Alike x.2 x'.2)
      (r.called? ts) (r'.called? ts') := by
  have hbare := forall₂_bareCall hts
  have hfirst := T.matching h.pool hbare
  have hsecond := T.matching h.pool hts
  cases hts with
  | nil => exact .none
  | @cons t t' ts ts' ht hts =>
    unfold Reading.called?
    simp only [ht.kind]
    split
    · generalize r.pool.matching (bareCall (t :: ts)) = q,
        r'.pool.matching (bareCall (t' :: ts')) = q' at hfirst
      cases hfirst with
      | some hm => exact .some ⟨hm, hbare⟩
      | none =>
        simp only
        generalize r.pool.matching (t :: ts) = q, r'.pool.matching (t' :: ts') = q' at hsecond
        cases hsecond with
        | some hm => exact .some ⟨hm, .cons ht hts⟩
        | none => exact .none
    · exact .none

theorem callIn? (T : Tracks P Q counted places) (h : r.Alike P r') (hline : l.Alike l')
    (hlabels : r.pool.isDefining = true → l.labels ≠ [] → counted) :
    Option.Rel (MacroCall.Tracks P Q) (r.callIn? note l) (r'.callIn? note' l') := by
  have hwrong := hline.isWrong
  unfold TokenLine.isWrong at hwrong
  unfold Reading.callIn?
  simp only [hwrong]
  split
  · exact .none
  · rename_i hright
    rw [TokenLine.labels, TokenLine.isWrong, if_neg hright] at hlabels
    have hstate : Alike P (r.defineLabels note l.withoutComment.tokens).1
        (r'.defineLabels note' l'.withoutComment.tokens).1 :=
      T.defineLabels h hline.withoutComment.tokens hlabels
    have hafter := forall₂_afterLabels hline.withoutComment.tokens
    rw [← r.snd_defineLabels note, ← r'.snd_defineLabels note'] at hafter
    generalize r.defineLabels note l.withoutComment.tokens = q,
      r'.defineLabels note' l'.withoutComment.tokens = q' at hstate hafter
    obtain ⟨r, ts⟩ := q
    obtain ⟨r', ts'⟩ := q'
    cases hafter with
    | nil => exact .none
    | @cons t t' ts ts' ht hts =>
      simp only [ht.kind, T.isDefining hstate.pool]
      split
      · exact .none
      · have hcalled := T.called? hstate (.cons ht hts)
        generalize r.called? (t :: ts) = q, r'.called? (t' :: ts') = q' at hcalled
        cases hcalled with
        | none => exact .none
        | some hcall => exact .some ⟨hstate, ht, hcall.1, hcall.2⟩

theorem readPlainLine (T : Tracks P Q counted places) (h : r.Alike P r') {s s' : Scope}
    (hconfig : s'.config = s.config) (hisa : s'.isa = s.isa) (hunit : s'.unit = s.unit)
    (hline : l.Alike l') (hlabels : r.pool.isDefining = true → l.labels ≠ [] → counted)
    (hi : l.delimits = true → places i i') :
    (r.readPlainLine s note i l).Alike P (r'.readPlainLine s' note' i' l') := by
  have hwrong := hline.isWrong
  unfold TokenLine.delimits TokenLine.directive? at hi
  unfold TokenLine.isWrong at hwrong hi
  unfold Reading.readPlainLine
  simp only [hwrong]
  split
  · exact h
  · rename_i hright
    rw [TokenLine.labels, TokenLine.isWrong, if_neg hright] at hlabels
    rw [if_neg hright, ← r.snd_defineLabels note] at hi
    have hstate : Alike P (r.defineLabels note l.withoutComment.tokens).1
        (r'.defineLabels note' l'.withoutComment.tokens).1 :=
      T.defineLabels h hline.withoutComment.tokens hlabels
    have hafter := forall₂_afterLabels hline.withoutComment.tokens
    rw [← r.snd_defineLabels note, ← r'.snd_defineLabels note'] at hafter
    generalize r.defineLabels note l.withoutComment.tokens = q,
      r'.defineLabels note' l'.withoutComment.tokens = q' at hstate hafter hi
    obtain ⟨r, ts⟩ := q
    obtain ⟨r', ts'⟩ := q'
    cases hafter with
    | nil => exact hstate
    | cons ht hts =>
      simp only [ht.kind, T.isDefining hstate.pool] at hi ⊢
      split
      · rename_i hdirective
        rw [if_pos hdirective] at hi
        refine T.execute hstate ht ?_ hts
        rintro d hname (rfl | rfl)
        · exact hi (by rw [hname]; rfl)
        · exact hi (by rw [hname]; rfl)
      · split
        · exact hstate
        · exact hstate.readPlain hconfig hisa hunit l l' ht hts

end MacroPool.Tracks

end Rv32Assembler
