import Rv32Assembler.Isa.Rv32im
import Rv32Assembler.Proofs.NoFault
import Rv32Assembler.Proofs.Padding
import Rv32Assembler.Proofs.Substitution
/-!
# Lines that define equivalences

Equivalences are taken from the lines of a file while these are tokenized, and the directive that
defines one does nothing when the first pass comes to it. So it has an effect only if tokenizing finds
it where the first pass does. It finds it in a line of the file after at most one label; the first pass
skips any number of labels, and it reads the lines that expansions make as well. A directive that has
more labels before it, or that an argument brings into the line, is lost without a message
(`treats_iff_of_mem_readings`).
-/

namespace Rv32Assembler

/-! ### Finding the directive -/

theorem Directive.ofName?_eq_equivalence_iff {s : Text} :
    ofName? s = some .equivalence ↔ s.lower = ".eqv" := by
  unfold ofName?
  constructor
  · intro h
    have hname := List.find?_some h
    exact (eq_of_beq hname).symm
  · intro h
    rw [h]
    decide

namespace TokenLine

/-- After at most one label the line has the directive for equivalences. -/
def statesEquivalence (l : TokenLine) : Bool :=
  (leadingLabels l.withoutComment.tokens).length ≤ 1 &&
    (afterLabels l.withoutComment.tokens).head?.any Token.isEquivalence

theorem directive?_eq_equivalence_iff {l : TokenLine} :
    l.directive? = some .equivalence ↔ l.isWrong = false ∧
      (afterLabels l.withoutComment.tokens).head?.any Token.isEquivalence = true := by
  unfold directive?
  cases l.isWrong with
  | true => simp
  | false =>
    cases afterLabels l.withoutComment.tokens with
    | nil => simp
    | cons t ts =>
      by_cases hdirective : t.kind = .directive <;>
        simp [Token.isEquivalence, hdirective, Directive.ofName?_eq_equivalence_iff]

end TokenLine

/-- The tokens before a directive that tokenizing looks past: colons, and a word in the first place. -/
def LooksPast (start : Nat) (front : List Token) : Prop :=
  (∀ t ∈ front.head?, t.kind = .colon ∨ start = 0 ∧ t.kind.isLabel = true) ∧
    ∀ t ∈ front.tail, t.kind = .colon

theorem LooksPast.nil (start : Nat) : LooksPast start [] := by simp [LooksPast]

theorem LooksPast.kinds {start : Nat} {front : List Token} (h : LooksPast start front) :
    ∀ t ∈ front, t.kind.isLabel = true ∨ t.kind = .colon := by
  cases front with
  | nil => exact List.forall_mem_nil _
  | cons t front =>
    rintro x (_ | ⟨_, hx⟩)
    · exact (h.1 t rfl).elim .inr fun hlabel => .inl hlabel.2
    · exact .inr (h.2 x hx)

theorem looksPast_succ_iff {start : Nat} {front : List Token} :
    LooksPast (start + 1) front ↔ ∀ t ∈ front, t.kind = .colon := by
  cases front with
  | nil => simp [LooksPast]
  | cons t front => simp [LooksPast]

theorem Token.kind_of_isEquivalence {t : Token} (h : t.isEquivalence = true) :
    t.kind = .directive := by
  rw [isEquivalence, Bool.and_eq_true] at h
  exact eq_of_beq h.1

theorem equivalenceFrom?_eq_some_iff {start n : Nat} {ts : List Token} :
    equivalenceFrom? start ts = some n ↔ ∃ front d rest, ts = front ++ d :: rest ∧
      n = start + front.length ∧ d.isEquivalence = true ∧ LooksPast start front := by
  induction ts generalizing start with
  | nil => simp [equivalenceFrom?]
  | cons t ts ih =>
    change (if t.isEquivalence = true then some start else if _ then _ else none) = some n ↔ _
    by_cases hd : t.isEquivalence = true
    · rw [if_pos hd, Option.some_inj]
      constructor
      · rintro rfl
        exact ⟨[], t, ts, rfl, rfl, hd, .nil _⟩
      · rintro ⟨front, d, rest, hsplit, rfl, -, hpast⟩
        cases front with
        | nil => rfl
        | cons x front =>
          obtain ⟨rfl, -⟩ := List.cons.inj hsplit
          have hkind := t.kind_of_isEquivalence hd
          rcases hpast.1 t rfl with h | ⟨-, h⟩ <;> rw [hkind] at h <;> cases h
    · rw [if_neg hd]
      by_cases hpast : (t.kind == .colon || (start == 0 && t.kind.isLabel)) = true
      · rw [if_pos hpast, ih]
        simp only [looksPast_succ_iff]
        simp only [Bool.or_eq_true, beq_iff_eq, Bool.and_eq_true] at hpast
        constructor
        · rintro ⟨front, d, rest, rfl, rfl, heqv, hfront⟩
          refine ⟨t :: front, d, rest, rfl, by simp; omega, heqv, ?_, hfront⟩
          rintro _ ⟨⟩
          exact hpast
        · rintro ⟨front, d, rest, hsplit, rfl, heqv, hfront⟩
          cases front with
          | nil =>
            obtain ⟨rfl, -⟩ := List.cons.inj hsplit
            exact absurd heqv hd
          | cons x front =>
            obtain ⟨rfl, rfl⟩ := List.cons.inj hsplit
            exact ⟨front, d, rest, rfl, by simp; omega, heqv, hfront.2⟩
      · rw [if_neg hpast]
        refine iff_of_false (by simp) ?_
        rintro ⟨front, d, rest, hsplit, -, heqv, hfront⟩
        simp only [Bool.or_eq_true, beq_iff_eq, Bool.and_eq_true] at hpast
        cases front with
        | nil =>
          obtain ⟨rfl, -⟩ := List.cons.inj hsplit
          exact hd heqv
        | cons x front =>
          obtain ⟨rfl, -⟩ := List.cons.inj hsplit
          exact hpast (hfront.1 t rfl)

/-- Tokenizing takes a line for a definition when it finds the directive behind such tokens. -/
theorem TokenLine.isEquivalence_iff {l : TokenLine} :
    l.isEquivalence = true ↔ ∃ front d rest, l.withoutComment.tokens = front ++ d :: rest ∧
      d.isEquivalence = true ∧ LooksPast 0 front := by
  rw [isEquivalence, Option.isSome_iff_exists]
  simp only [equivalence?, equivalenceFrom?_eq_some_iff]
  constructor
  · rintro ⟨_, front, d, rest, hsplit, -, hd, hpast⟩
    exact ⟨front, d, rest, hsplit, hd, hpast⟩
  · rintro ⟨front, d, rest, hsplit, hd, hpast⟩
    exact ⟨_, front, d, rest, hsplit, rfl, hd, hpast⟩

/-- Then it enters an equivalence or reports an error. -/
theorem TokenLine.definition_eq_none_iff {l : TokenLine} (es : Equivalences) :
    l.definition es = .ok none ↔ l.isEquivalence = false := by
  rw [isEquivalence, definition]
  cases hplace : l.withoutComment.equivalence? with
  | none => simp
  | some place =>
    obtain ⟨front, d, rest, hsplit, rfl, -, -⟩ := equivalenceFrom?_eq_some_iff.1 hplace
    have hdrop : l.withoutComment.tokens.drop (0 + front.length) = d :: rest := by
      rw [hsplit, Nat.zero_add, List.drop_left]
    simp only [hdrop, Option.isSome_some, Bool.true_eq_false, iff_false]
    intro hnone
    rcases rest with _ | ⟨symbol, _ | ⟨first, rest⟩⟩
    · cases hnone
    · cases hnone
    · simp only at hnone
      repeat' split at hnone
      all_goals cases hnone

/-! ### Both ways to find it -/

theorem afterLabels_of_not_label {t : Token} (h : t.kind.isLabel = false) (ts : List Token) :
    afterLabels (t :: ts) = t :: ts := by
  cases ts with
  | nil => rfl
  | cons colon ts => rw [afterLabels, h, Bool.false_and, if_neg (by decide)]

theorem afterLabels_of_not_colon {t colon : Token} (h : colon.kind ≠ .colon) (ts : List Token) :
    afterLabels (t :: colon :: ts) = t :: colon :: ts := by
  rw [afterLabels, beq_eq_false_iff_ne.2 h, Bool.and_false, if_neg (by decide)]

theorem afterLabels_of_label {t colon : Token} (ht : t.kind.isLabel = true)
    (hcolon : colon.kind = .colon) (ts : List Token) :
    afterLabels (t :: colon :: ts) = afterLabels ts ∧
      leadingLabels (t :: colon :: ts) = t.text :: leadingLabels ts := by
  rw [afterLabels, leadingLabels, ht, hcolon]
  exact ⟨rfl, rfl⟩

theorem afterLabels_of_leadingLabels_eq_nil {ts : List Token} (h : leadingLabels ts = []) :
    afterLabels ts = ts := by
  fun_cases afterLabels ts with
  | case1 label colon rest hlabel =>
    rw [leadingLabels, if_pos hlabel] at h
    cases h
  | case2 => rfl
  | case3 => rfl

theorem Token.isLabel_of_isEquivalence {t : Token} (h : t.isEquivalence = true) :
    t.kind.isLabel = false := by
  rw [t.kind_of_isEquivalence h]
  rfl

theorem exists_of_any_head? {ts : List Token} (h : ts.head?.any Token.isEquivalence = true) :
    ∃ d rest, ts = d :: rest ∧ d.isEquivalence = true := by
  cases ts with
  | nil => cases h
  | cons d rest => exact ⟨d, rest, rfl, h⟩

theorem Token.Becomes.refl {t : Token}
    (h : t.kind.isLabel = true ∨ t.kind = .colon ∨ t.kind = .directive) : t.Becomes t := by
  refine ⟨Iff.rfl, fun hcomment => ?_, fun hlabel => ?_⟩
  · rw [hcomment] at h
    rcases h with h | h | h <;> cases h
  · rw [← Bool.not_eq_true]
    intro hequivalence
    rw [t.isLabel_of_isEquivalence hequivalence] at hlabel
    cases hlabel

theorem not_comment_of_becomes {ts ts' : List Token} (h : List.Forall₂ Token.Becomes ts ts') :
    ∀ t ∈ ts', t.kind ≠ .comment := by
  induction h with
  | nil => exact List.forall_mem_nil _
  | cons ht _ ih => exact List.forall_mem_cons.2 ⟨ht.comment, ih⟩

namespace TokenLine

theorem isEquivalence_of_statesEquivalence {l : TokenLine} (h : l.statesEquivalence = true) :
    l.isEquivalence = true := by
  rw [statesEquivalence, Bool.and_eq_true, decide_eq_true_eq] at h
  obtain ⟨hlabels, hfirst⟩ := h
  rw [isEquivalence_iff]
  generalize l.withoutComment.tokens = ts at hlabels hfirst
  obtain ⟨d, rest, hafter, hd⟩ := exists_of_any_head? hfirst
  fun_cases afterLabels ts with
  | case1 label colon ts hlabel =>
    rw [leadingLabels, if_pos hlabel, List.length_cons] at hlabels
    have hnone : leadingLabels ts = [] := List.eq_nil_of_length_eq_zero (by omega)
    rw [afterLabels, if_pos hlabel, afterLabels_of_leadingLabels_eq_nil hnone] at hafter
    rw [Bool.and_eq_true, beq_iff_eq] at hlabel
    refine ⟨[label, colon], d, rest, by rw [hafter]; rfl, hd, ?_, ?_⟩
    · rintro t ⟨⟩
      exact .inr ⟨rfl, hlabel.1⟩
    · intro t ht
      rw [List.mem_singleton.1 ht]
      exact hlabel.2
  | case2 label colon ts hlabel =>
    rw [afterLabels, if_neg hlabel] at hafter
    exact ⟨[], d, rest, hafter, hd, .nil 0⟩
  | case3 ts hshort =>
    rw [afterLabels] at hafter
    · exact ⟨[], d, rest, hafter, hd, .nil 0⟩
    · exact hshort

theorem statesEquivalence_of_tokens {l : TokenLine} {d : Token} {rest : List Token}
    (hd : d.isEquivalence = true)
    (hsplit : l.withoutComment.tokens = d :: rest ∨ ∃ label colon : Token,
      l.withoutComment.tokens = label :: colon :: d :: rest ∧ label.kind.isLabel = true ∧
        colon.kind = .colon) : l.statesEquivalence = true := by
  have hafter := afterLabels_of_not_label (Token.isLabel_of_isEquivalence hd) rest
  have hlabels : leadingLabels (d :: rest) = [] := by
    cases rest with
    | nil => rfl
    | cons => rw [leadingLabels, Token.isLabel_of_isEquivalence hd, Bool.false_and, if_neg (by decide)]
  rw [statesEquivalence, Bool.and_eq_true, decide_eq_true_eq]
  rcases hsplit with hsplit | ⟨label, colon, hsplit, hlabel, hcolon⟩
  · rw [hsplit, hlabels, hafter]
    exact ⟨Nat.zero_le _, hd⟩
  · obtain ⟨hskip, hfirst⟩ := afterLabels_of_label hlabel hcolon (d :: rest)
    rw [hsplit, hskip, hfirst, hlabels, hafter]
    exact ⟨Nat.le_refl _, hd⟩

/-- A line that both find stays or becomes one with the directive after at most one label. -/
theorem statesEquivalence_of_becomes {l : TokenLine} {front rest front' ts' : List Token} {d : Token}
    (hsplit : l.withoutComment.tokens = front ++ d :: rest) (hd : d.isEquivalence = true)
    (hpast : LooksPast 0 front) (hbecomes : List.Forall₂ Token.Becomes (front ++ [d]) front')
    (hstarts : front' <+: ts')
    (hfirst : (afterLabels ts').head?.any Token.isEquivalence = true) :
    l.statesEquivalence = true := by
  obtain ⟨later, rfl⟩ := hstarts
  obtain ⟨d', rest', hafter, hd'⟩ := exists_of_any_head? hfirst
  have hcolon {t t' : Token} (h : t.Becomes t') (ht : t.kind = .colon) : t'.isEquivalence = false := by
    simp [Token.isEquivalence, h.colon.2 ht]
  cases front with
  | nil => exact statesEquivalence_of_tokens hd (.inl hsplit)
  | cons t front =>
    obtain ⟨t', front', ht, hlater, rfl⟩ := List.forall₂_cons_left_iff.1 hbecomes
    have hword := hpast.1 t rfl
    have hother : t'.isEquivalence = false := hword.elim (hcolon ht) fun h => ht.label h.2
    -- So there is something to skip, which takes a colon behind a label.
    have hskips : ∀ ts, afterLabels (t' :: ts) = t' :: ts → d' :: rest' ≠ afterLabels (t' :: ts) := by
      intro ts hstays hsame
      rw [hstays] at hsame
      rw [← (List.cons.inj hsame).1, hd'] at hother
      cases hother
    rw [List.cons_append] at hafter
    cases front with
    | nil =>
      obtain ⟨x, _, hx, -, rfl⟩ := List.forall₂_cons_left_iff.1 hlater
      have hnot : x.kind ≠ .colon := fun h => by
        rw [hx.colon, d.kind_of_isEquivalence hd] at h
        cases h
      exact absurd hafter.symm (hskips _ (afterLabels_of_not_colon hnot _))
    | cons colon front =>
      obtain ⟨colon', front', hcolon', hrest, rfl⟩ := List.forall₂_cons_left_iff.1 hlater
      have hkind : colon.kind = .colon := hpast.2 colon (List.mem_cons_self ..)
      by_cases hlabel : t'.kind.isLabel = true
      · cases front with
        | nil =>
          have hnot : t.kind ≠ .colon := fun h => by
            rw [ht.colon.2 h] at hlabel
            cases hlabel
          exact statesEquivalence_of_tokens hd
            (.inr ⟨t, colon, hsplit, (hword.resolve_left hnot).2, hkind⟩)
        | cons more front =>
          obtain ⟨more', front', hmore, -, rfl⟩ := List.forall₂_cons_left_iff.1 hrest
          have hmoreKind : more.kind = .colon := hpast.2 more (by simp)
          have hnot : more'.kind.isLabel = false := by rw [hmore.colon.2 hmoreKind]; rfl
          rw [List.cons_append, List.cons_append, (afterLabels_of_label hlabel
            (hcolon'.colon.2 hkind) _).1, afterLabels_of_not_label hnot] at hafter
          rw [← (List.cons.inj hafter).1, hcolon hmore hmoreKind] at hd'
          cases hd'
      · exact absurd hafter.symm (hskips _ (afterLabels_of_not_label (by simpa using hlabel) _))

theorem exists_comments (l : TokenLine) :
    ∃ comments, l.tokens = l.withoutComment.tokens ++ comments ∧ ∀ t ∈ comments, t.kind = .comment := by
  unfold withoutComment
  split
  · rename_i t hlast
    split
    · rename_i hcomment
      refine ⟨[t], (List.dropLast_append_getLast? t hlast).symm, ?_⟩
      intro x hx
      rw [List.mem_singleton.1 hx]
      exact eq_of_beq hcomment
    · exact ⟨[], (List.append_nil _).symm, List.forall_mem_nil _⟩
  · exact ⟨[], (List.append_nil _).symm, List.forall_mem_nil _⟩

theorem prefix_withoutComment {l : TokenLine} {front : List Token} (h : front <+: l.tokens)
    (hfront : ∀ t ∈ front, t.kind ≠ .comment) : front <+: l.withoutComment.tokens := by
  obtain ⟨comments, htokens, hcomments⟩ := l.exists_comments
  rcases List.prefix_or_prefix_of_prefix h ⟨comments, htokens.symm⟩ with hshort | ⟨more, rfl⟩
  · exact hshort
  · rw [htokens, List.prefix_append_right_inj] at h
    cases more with
    | nil => simp
    | cons t more =>
      exact absurd (hcomments t (h.subset (List.mem_cons_self ..))) (hfront t (by simp))

end TokenLine

/-! ### Tokenizing a file -/

namespace Vocabulary

/-- The equivalences in force and the log after further lines. -/
def afterLines (v : Vocabulary) (state : Equivalences × Log) (lines : List SourceLine) :
    Equivalences × Log :=
  lines.foldl (fun state line => (v.tokenizeNext state.1 state.2 line).2) state

/-- The equivalences in force before the line at place `i` of a file. -/
def inForce (v : Vocabulary) (log : Log) (lines : List SourceLine) (i : Nat) : Equivalences :=
  (v.afterLines ([], log) (lines.take i)).1

/-- Tokenizing a file takes the line at place `i` for a definition: it enters an equivalence, or it
reports why it does not. -/
def Treats (v : Vocabulary) (log : Log) (lines : List SourceLine) (i : Nat) : Prop :=
  ∃ line, lines[i]? = some line ∧
    let es := v.inForce log lines i
    let tokenized := v.tokenizeUnder es line
    let lexed := (v.tokenizeFile log (lines.take i)).2.addAll (lexicalMessages [] tokenized.2)
    (∃ e, tokenized.1.definition es = .ok (some e) ∧ v.inForce log lines (i + 1) = es ++ [e]) ∨
      ∃ t error, tokenized.1.definition es = .error (t, error) ∧
        (v.tokenizeFile log (lines.take (i + 1))).2 = lexed.add (.ofToken t error.message false [])

variable {v : Vocabulary} {log : Log} {lines : List SourceLine} {i : Nat} {F : TokenLine}

theorem tokenizeNext_eq (v : Vocabulary) (es : Equivalences) (log : Log) (line : SourceLine) :
    let tokenized := v.tokenizeUnder es line
    let lexed := log.addAll (lexicalMessages [] tokenized.2)
    (v.tokenizeNext es log line).1 = tokenized.1 ∧
      (∀ e, tokenized.1.definition es = .ok (some e) →
        (v.tokenizeNext es log line).2.1 = es ++ [e]) ∧
      ∀ t error, tokenized.1.definition es = .error (t, error) →
        (v.tokenizeNext es log line).2.2 = lexed.add (.ofToken t error.message false []) := by
  intro tokenized lexed
  unfold tokenizeNext
  simp only
  cases tokenized.1.definition es with
  | ok defined =>
    refine ⟨rfl, ?_, by simp⟩
    rintro e ⟨⟩
    rfl
  | error failure =>
    refine ⟨rfl, by simp, ?_⟩
    rintro t error ⟨⟩
    rfl

theorem tokenizeLines_eq (v : Vocabulary) (state : Equivalences × Log) (lines : List SourceLine) :
    (v.tokenizeLines state.1 state.2 lines).2 = (v.afterLines state lines).2 ∧
      ∀ i, (v.tokenizeLines state.1 state.2 lines).1[i]? = lines[i]?.map fun line =>
        (v.tokenizeUnder (v.afterLines state (lines.take i)).1 line).1 := by
  induction lines generalizing state with
  | nil => exact ⟨rfl, fun _ => rfl⟩
  | cons line lines ih =>
    obtain ⟨hlog, htokens⟩ := ih (v.tokenizeNext state.1 state.2 line).2
    rw [tokenizeLines_cons]
    refine ⟨hlog, fun i => ?_⟩
    cases i with
    | zero => exact congrArg some (v.tokenizeNext_eq state.1 state.2 line).1
    | succ i => exact htokens i

theorem afterLines_succ (v : Vocabulary) (log : Log) {line : SourceLine} (hline : lines[i]? = some line) :
    v.afterLines ([], log) (lines.take (i + 1)) =
      (v.tokenizeNext (v.inForce log lines i) (v.afterLines ([], log) (lines.take i)).2 line).2 := by
  rw [List.take_add_one, hline, Option.toList_some, afterLines, List.foldl_append]
  rfl

theorem eq_tokenizeUnder (hF : (v.tokenizeFile log lines).1[i]? = some F) :
    lines[i]? = some F.source ∧ F = (v.tokenizeUnder (v.inForce log lines i) F.source).1 := by
  rw [tokenizeFile, (v.tokenizeLines_eq ([], log) lines).2] at hF
  obtain ⟨line, hline, rfl⟩ := Option.map_eq_some_iff.1 hF
  rw [source_tokenizeUnder]
  exact ⟨hline, rfl⟩

/-- Of the tokenized lines those are taken for definitions in which tokenizing finds the directive. -/
theorem treats_iff (hF : (v.tokenizeFile log lines).1[i]? = some F) :
    v.Treats log lines i ↔ F.isEquivalence = true := by
  rw [tokenizeFile, (v.tokenizeLines_eq ([], log) lines).2] at hF
  obtain ⟨line, hline, rfl⟩ := Option.map_eq_some_iff.1 hF
  rw [← Bool.not_eq_false, ← TokenLine.definition_eq_none_iff (v.inForce log lines i)]
  change _ ↔ ¬(v.tokenizeUnder (v.inForce log lines i) line).1.definition _ = _
  constructor
  · rintro ⟨line', hline', ⟨e, he, -⟩ | ⟨t, error, herror, -⟩⟩ <;> cases hline.symm.trans hline'
    · simp [he]
    · simp [herror]
  · intro hdefines
    have hstep := v.afterLines_succ log hline
    have hlog : ∀ i, (v.tokenizeFile log (lines.take i)).2 = (v.afterLines ([], log) (lines.take i)).2 :=
      fun i => (v.tokenizeLines_eq ([], log) (lines.take i)).1
    obtain ⟨-, hentered, hrefused⟩ := v.tokenizeNext_eq (v.inForce log lines i)
      (v.afterLines ([], log) (lines.take i)).2 line
    refine ⟨line, hline, ?_⟩
    simp only [hlog, hstep]
    cases hdefinition : (v.tokenizeUnder (v.inForce log lines i) line).1.definition
        (v.inForce log lines i) with
    | error failure => exact .inr ⟨failure.1, failure.2, rfl, hrefused _ _ hdefinition⟩
    | ok defined =>
      cases defined with
      | none => exact absurd hdefinition hdefines
      | some e =>
        refine .inl ⟨e, rfl, ?_⟩
        rw [inForce, hstep]
        exact hentered e hdefinition

theorem exists_tokenizeText (hF : (v.tokenizeFile log lines).1[i]? = some F) :
    ∃ line, F = (v.tokenizeText F.text line).1 := by
  rw [tokenizeFile, (v.tokenizeLines_eq ([], log) lines).2] at hF
  obtain ⟨line, -, rfl⟩ := Option.map_eq_some_iff.1 hF
  refine ⟨line, ?_⟩
  unfold tokenizeUnder
  simp only
  split <;> rfl

end Vocabulary

/-! ### The first pass -/

namespace LineReading

/-- When the first pass comes to the directive outside of a definition, it only defines labels. -/
theorem result_of_equivalence {w : LineReading} (h : w.line.directive? = some .equivalence)
    (hplain : w.before.pool.isDefining = false) :
    w.result = .ok (w.before.defineLabels w.note w.line.withoutComment.tokens).1 := by
  obtain ⟨hwrong, hfirst⟩ := TokenLine.directive?_eq_equivalence_iff.1 h
  obtain ⟨d, rest, hafter, hd⟩ := exists_of_any_head? hfirst
  have hdirective : (d.kind == .directive) = true := by rw [d.kind_of_isEquivalence hd]; rfl
  have hcall : w.call? = none := by
    unfold call? Reading.callIn?
    rw [TokenLine.isWrong] at hwrong
    simp only [hwrong, Bool.false_eq_true, if_false]
    rw [w.before.snd_defineLabels, hafter]
    simp [hdirective]
  have hname : Directive.ofName? d.text = some .equivalence := by
    rw [Token.isEquivalence, Bool.and_eq_true] at hd
    exact Directive.ofName?_eq_equivalence_iff.2 (eq_of_beq hd.2)
  rw [result_of_none hcall, plain_eq, hwrong, if_neg (by decide), hafter]
  simp only [hdirective, if_true, Reading.execute, hname, Reading.isDefining_defineLabels, hplain,
    Bool.false_eq_true, if_false]
  rfl

end LineReading

/-- What is read is a line of the file, or what an expansion makes of one. -/
theorem Scope.exists_line_of_mem_readings {s : Scope} {session : Session} {name : Text}
    {w : LineReading} (hw : w ∈ s.readings (.start session name)) :
    ∃ F, Macro.lineAt? s.lines w.index = some F ∧
      (w.callers = [] ∧ w.line = F ∨ w.callers ≠ [] ∧ ∃ (m : Macro) (call : List Token)
        (counter : Nat) (edits : List Text.Edit) (line : SourceLine),
        m.edits call counter F.tokens = .ok edits ∧
          w.line = (s.vocabulary.tokenizeText (F.text.splice 0 edits) line).1) := by
  have hscope := (proper_of_mem_readings hw).2
  obtain ⟨_, ⟨line, i⟩, _, r, hsplit, -, hw⟩ := LineReading.exists_append_of_mem_inTurn hw
  unfold nextReadings at hw
  split at hw
  · cases hw
  · rcases LineReading.exists_bodyLine?_of_mem_readings hw with rfl | ⟨u, c, r, i, hbody⟩
    · refine ⟨line, Macro.lineAt?_of_mem_zipIdx (p := (line, i)) ?_, .inl ⟨rfl, rfl⟩⟩
      rw [hsplit]
      exact List.mem_append_right _ (List.mem_cons_self ..)
    · obtain ⟨hsame, hcallers, hindex, -⟩ := LineReading.of_bodyLine? hbody
      rw [hcallers, hindex, ← hscope, hsame]
      unfold LineReading.bodyLine? at hbody
      split at hbody
      · cases hbody
      · split at hbody
        · rename_i F text hF htext
          cases hbody
          unfold Macro.substitute at htext
          rw [hF] at htext
          split at htext
          · cases htext
          · obtain ⟨edits, hedits, rfl⟩ := exists_of_map_eq_ok htext
            exact ⟨F, hF, .inr ⟨List.cons_ne_nil _ _, c.callee, c.tokens, c.counter, edits, _, hedits, rfl⟩⟩
        · cases hbody

/-- Where the first pass finds the directive, tokenizing has found it exactly if the line of the file has
it already, after at most one label. -/
theorem isEquivalence_iff_of_mem_readings {s : Scope} {log : Log} {lines : List SourceLine}
    (hs : s.lines = (s.vocabulary.tokenizeFile log lines).1.toArray) {session : Session} {name : Text}
    {w : LineReading} (hw : w ∈ s.readings (.start session name))
    (hdirective : w.line.directive? = some .equivalence) :
    ∃ F, (s.vocabulary.tokenizeFile log lines).1[w.index.toNat]? = some F ∧
      Macro.lineAt? s.lines w.index = some F ∧ (w.callers = [] → w.line = F) ∧
      (F.isEquivalence = true ↔ F.statesEquivalence = true) := by
  obtain ⟨F, hF, hline⟩ := Scope.exists_line_of_mem_readings hw
  have hget : (s.vocabulary.tokenizeFile log lines).1[w.index.toNat]? = some F := by
    rw [Macro.lineAt?, hs] at hF
    split at hF
    · cases hF
    · simpa using hF
  refine ⟨F, hget, hF, fun hnone => ?_, fun hfound => ?_, TokenLine.isEquivalence_of_statesEquivalence⟩
  · rcases hline with ⟨-, hline⟩ | ⟨hcallers, -⟩
    · exact hline
    · exact absurd hnone hcallers
  · obtain ⟨front, d, rest, hsplit, hd, hpast⟩ := TokenLine.isEquivalence_iff.1 hfound
    have hfirst := (TokenLine.directive?_eq_equivalence_iff.1 hdirective).2
    have hfront := hpast.kinds
    suffices hbecomes : ∃ front', front' <+: w.line.tokens ∧
        List.Forall₂ Token.Becomes (front ++ [d]) front' by
      obtain ⟨front', hstarts, hbecomes⟩ := hbecomes
      refine TokenLine.statesEquivalence_of_becomes hsplit hd hpast hbecomes
        (TokenLine.prefix_withoutComment hstarts (not_comment_of_becomes hbecomes)) hfirst
    obtain ⟨comments, htokens, -⟩ := F.exists_comments
    rw [hsplit, List.append_assoc, List.cons_append] at htokens
    rcases hline with ⟨-, rfl⟩ | ⟨-, m, call, counter, edits, line, hedits, hline⟩
    · refine ⟨front ++ [d], ⟨rest ++ comments, by rw [htokens]; simp⟩, List.forall₂_same.2 fun t ht => ?_⟩
      rcases List.mem_append.1 ht with ht | ht
      · exact .refl ((hfront t ht).imp_right .inl)
      · rw [List.mem_singleton.1 ht]
        exact .refl (.inr (.inr (d.kind_of_isEquivalence hd)))
    · obtain ⟨source, hsource⟩ := Vocabulary.exists_tokenizeText hget
      have hspans : F.Spanned := by
        rw [hsource]
        exact s.vocabulary.spanned_tokenizeText F.text source
      rw [TokenLine.Spanned, htokens] at hspans
      rw [htokens] at hedits
      have hscan : (s.vocabulary.scan source false 0 0 (Text.glyphs (F.text.drop 0))).map Prod.fst
          = front ++ d :: (rest ++ comments) := by
        rw [← htokens, hsource]
        rfl
      rw [hline]
      exact (Vocabulary.renders_splice hspans hscan hedits hfront (d.kind_of_isEquivalence hd)).1
        false 0 0

/-- The directive for equivalences has an effect, when the first pass comes to it outside of a
definition, exactly if the line of the file has it after at most one label. Then the line enters an
equivalence or is reported while the file is tokenized. A directive behind more labels, or one that an
argument of a macro brings into the line, does nothing at all. -/
theorem treats_iff_of_mem_readings {s : Scope} {log : Log} {lines : List SourceLine}
    (hs : s.lines = (s.vocabulary.tokenizeFile log lines).1.toArray) {session : Session} {name : Text}
    {w : LineReading} (hw : w ∈ s.readings (.start session name))
    (hdirective : w.line.directive? = some .equivalence)
    (hplain : w.before.pool.isDefining = false) :
    w.result = .ok (w.before.defineLabels w.note w.line.withoutComment.tokens).1 ∧
      ∃ F, Macro.lineAt? s.lines w.index = some F ∧ (w.callers = [] → w.line = F) ∧
        (s.vocabulary.Treats log lines w.index.toNat ↔ F.statesEquivalence = true) := by
  obtain ⟨F, hget, hF, hsame, hfound⟩ := isEquivalence_iff_of_mem_readings hs hw hdirective
  exact ⟨LineReading.result_of_equivalence hdirective hplain, F, hF, hsame,
    (Vocabulary.treats_iff hget).trans hfound⟩

/-- A file with the directive behind two labels and behind one, and in a macro as an argument and as it
stands. -/
def labelledSource : SourceFile :=
  .ofText "a.s" (".data\nx: .word 7\na: b: .eqv x 5\nc: .eqv y 6\n.macro define(%d)\n%d z 7\n.eqv w 8\n"
    ++ ".end_macro\ndefine(.eqv)\n.word x\n")

def labelledReadings : List LineReading :=
  (labelledSource.scope {} Rv32im.registry).readings (.start (.ofConfig {}) "a.s")

/-- The file is read without a message, but the directive behind two labels and the one that is an
argument have no effect; the others have. -/
theorem treats_iff_of_labelledSource :
    (Reading.readLines (labelledSource.scope {} Rv32im.registry)
        (.start (.ofConfig {}) "a.s")).toOption.map (fun r => r.log.messages) = some [] ∧
    ∀ p ∈ [(2, false), (3, true), (9, false), (10, true)], ∃ w, labelledReadings[p.1]? = some w ∧
      w.line.directive? = some .equivalence ∧ w.before.pool.isDefining = false ∧
      ((Rv32im.registry.vocabulary true).Treats (Session.ofConfig {}).log labelledSource.lines
        w.index.toNat ↔ p.2 = true) := by
  refine ⟨by decide +kernel, ?_⟩
  have hsource : ∀ p ∈ [(2, false), (3, true), (9, false), (10, true)],
      labelledReadings[p.1]?.map (fun w => (w.line.directive?, w.before.pool.isDefining,
        (Macro.lineAt? (labelledSource.scope {} Rv32im.registry).lines w.index).map
          TokenLine.statesEquivalence)) = some (some .equivalence, false, some p.2) := by
    decide +kernel
  intro p hp
  obtain ⟨w, hw, hfacts⟩ := Option.map_eq_some_iff.1 (hsource p hp)
  obtain ⟨hdirective, hrest⟩ := Prod.mk.inj hfacts
  obtain ⟨hplain, hstates⟩ := Prod.mk.inj hrest
  obtain ⟨-, F, hF, -, htreats⟩ := treats_iff_of_mem_readings
    (s := labelledSource.scope {} Rv32im.registry) rfl (List.mem_of_getElem? hw) hdirective hplain
  rw [hF, Option.map_some, Option.some_inj] at hstates
  exact ⟨w, hw, hdirective, hplain, hstates ▸ htreats⟩

end Rv32Assembler
