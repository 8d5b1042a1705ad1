import Rv32Assembler.Proofs.Lexing
import Rv32Assembler.Proofs.Run
/-!
# Regular actions

What all actions of a journal have in common, whatever the source: an alignment is to a multiple that
divides the address space, and the tokens of an instruction are what their kinds say. The first holds
by the directives that align, the second because every line, those of macro bodies included, was read
by the same vocabulary.
-/

namespace Rv32Assembler

/-- The tokens of the line are what their kinds say. -/
def TokenLine.Lexed (v : Vocabulary) (l : TokenLine) : Prop := ∀ t ∈ l.tokens, t.Lexed v

/-- What holds of every action that comes from a source. -/
def Action.Regular (v : Vocabulary) : Action → Prop
  | .align _ multiple => multiple = 0 ∨ multiple ∣ 2 ^ 32
  | .instruction _ _ operator operands => ∀ t ∈ operator :: operands, t.Lexed v
  | _ => True

/-! ### Lines -/

theorem TokenLine.Lexed.withoutComment {v : Vocabulary} {l : TokenLine} (h : l.Lexed v) :
    l.withoutComment.Lexed v := by
  unfold TokenLine.withoutComment
  split
  · split
    · exact fun t ht => h t (List.mem_of_mem_dropLast ht)
    · exact h
  · exact h

namespace Vocabulary

theorem lexed_tokenizeText (v : Vocabulary) (text : Text) (line : SourceLine) :
    (v.tokenizeText text line).1.Lexed v := fun _ ht => lexed_of_mem_tokenizeText ht

theorem lexed_tokenizeUnder (v : Vocabulary) (es : Equivalences) (line : SourceLine) :
    (v.tokenizeUnder es line).1.Lexed v := by
  unfold tokenizeUnder
  simp only
  split
  · exact lexed_tokenizeText v _ _
  · exact lexed_tokenizeText v _ _

theorem lexed_tokenizeLines {v : Vocabulary} {es : Equivalences} {log : Log}
    {lines : List SourceLine} {l : TokenLine} (h : l ∈ (v.tokenizeLines es log lines).1) :
    l.Lexed v := by
  induction lines generalizing es log with
  | nil => cases h
  | cons line lines ih =>
    rw [tokenizeLines] at h
    simp only at h
    split at h
    · rcases List.mem_cons.1 h with rfl | h
      · exact lexed_tokenizeUnder v es line
      · exact ih h
    · rcases List.mem_cons.1 h with rfl | h
      · exact lexed_tokenizeUnder v es line
      · exact ih h

end Vocabulary

theorem lexed_tokenizeFiles {v : Vocabulary} {log : Log} {files : List SourceFile}
    {name : Text} {lines : Array TokenLine} (h : (name, lines) ∈ (tokenizeFiles v log files).2)
    {l : TokenLine} (hl : l ∈ lines.toList) : l.Lexed v := by
  induction files generalizing log with
  | nil => cases h
  | cons f files ih =>
    rw [tokenizeFiles] at h
    rcases List.mem_cons.1 h with heq | h
    · cases heq
      exact Vocabulary.lexed_tokenizeLines hl
    · exact ih h

/-! ### Actions -/

/-- All of the actions are regular. -/
structure Action.AllRegular (v : Vocabulary) (actions : List Action) : Prop where
  regular : ∀ a ∈ actions, a.Regular v

namespace Action

variable {v : Vocabulary}

theorem allRegular_nil : AllRegular v [] := ⟨fun _ ha => absurd ha List.not_mem_nil⟩

theorem allRegular_cons {a : Action} {actions : List Action} (h : a.Regular v)
    (h' : AllRegular v actions) : AllRegular v (a :: actions) :=
  ⟨List.forall_mem_cons.2 ⟨h, h'.regular⟩⟩

theorem allRegular_singleton {a : Action} (h : a.Regular v) : AllRegular v [a] :=
  allRegular_cons h allRegular_nil

theorem allRegular_append {as bs : List Action} (h : AllRegular v as) (h' : AllRegular v bs) :
    AllRegular v (as ++ bs) := ⟨List.forall_mem_append.2 ⟨h.regular, h'.regular⟩⟩

theorem allRegular_replicate {a : Action} {n : Nat} (h : a.Regular v) :
    AllRegular v (List.replicate n a) := ⟨fun _ hb => List.eq_of_mem_replicate hb ▸ h⟩

end Action

open Rv32Assembler.Action

theorem Scope.allRegular_inTurn {α : Type} {s : Scope} {v : Vocabulary}
    {actions : Reading → α → List Action} {xs : List α}
    (h : ∀ r, ∀ x ∈ xs, AllRegular v (actions r x)) (r : Reading) :
    AllRegular v (s.inTurn actions r xs) := by
  induction xs generalizing r with
  | nil => exact allRegular_nil
  | cons x xs ih =>
    rw [inTurn]
    exact allRegular_append (h r x (List.mem_cons_self ..))
      (ih (fun r y hy => h r y (List.mem_cons_of_mem _ hy)) _)

namespace Reading

variable {v : Vocabulary}

theorem allRegular_integerActions (note : Text) (d : Directive) (item : DataItem) :
    AllRegular v (integerActions note d item) := by
  unfold integerActions
  by_cases hinteger : item.token.kind.isInteger = true
  · simp only [hinteger, if_true]
    generalize (if item.negated = true then Literal.wrap64 (-item.token.value)
      else item.token.value) = value
    refine allRegular_append ?_ (allRegular_replicate trivial)
    by_cases hfits : fitsWidth value d.width = true
    · rw [if_pos hfits]
      exact allRegular_nil
    · rw [if_neg hfits]
      exact allRegular_singleton trivial
  · simp only [hinteger, if_false, Bool.false_eq_true]
    split
    · exact allRegular_replicate trivial
    · exact allRegular_singleton trivial

theorem allRegular_realActions (note : Text) (d : Directive) (item : DataItem) :
    AllRegular v (realActions note d item) := by
  unfold realActions
  cases hvalue : realValue? item.token with
  | none =>
    simp only [hvalue]
    exact allRegular_singleton trivial
  | some x =>
    simp only [hvalue]
    generalize (if item.negated = true then x.negate else x) = value
    split
    · split
      · exact allRegular_singleton trivial
      · exact allRegular_replicate trivial
    · exact allRegular_replicate trivial

theorem allRegular_numericActions (r : Reading) (note : Text) (d : Directive)
    (operands : List Token) : AllRegular v (r.numericActions note d operands) := by
  have hwidth : d.width = 0 ∨ d.width ∣ 2 ^ 32 := by cases d <;> decide
  unfold numericActions
  simp only
  refine allRegular_append (allRegular_append ?_ ?_) ?_
  · split
    · exact allRegular_singleton hwidth
    · exact allRegular_nil
  · refine ⟨fun a ha => ?_⟩
    obtain ⟨item, -, ha⟩ := List.mem_flatMap.1 ha
    unfold itemActions at ha
    split at ha
    · exact (allRegular_integerActions note d item).regular a ha
    · exact (allRegular_realActions note d item).regular a ha
  · refine ⟨fun a ha => ?_⟩
    obtain ⟨p, -, rfl⟩ := List.mem_map.1 ha
    exact trivial

theorem allRegular_stringActions (r : Reading) (note : Text) (d : Directive)
    (operands : List Token) : AllRegular v (r.stringActions note d operands) := by
  have hreports {t : Token} {problem : Option Literal.EscapeError} :
      AllRegular v (problem.toList.map fun e => .report note t (.escape e)) := by
    refine ⟨fun a ha => ?_⟩
    obtain ⟨e, -, rfl⟩ := List.mem_map.1 ha
    exact trivial
  induction operands generalizing r with
  | nil => exact allRegular_nil
  | cons t rest ih =>
    rw [stringActions]
    simp only
    split
    · exact allRegular_cons trivial (ih _)
    · split
      · exact allRegular_append hreports (allRegular_cons trivial (ih _))
      · exact allRegular_append hreports (allRegular_singleton trivial)

theorem allRegular_dataActions (r : Reading) (note : Text) (d : Directive)
    (operands : List Token) : AllRegular v (r.dataActions note d operands) := by
  unfold dataActions
  split
  · exact allRegular_stringActions r note d operands
  · exact allRegular_numericActions r note d operands

theorem allRegular_alignActions (r : Reading) (note : Text) (directive : Token)
    (operands : List Token) : AllRegular v (r.alignActions note directive operands) := by
  have hpower {n : Int} (hn : n ≤ 31) : (1 <<< n.toNat : Nat) ∣ 2 ^ 32 := by
    rw [Nat.one_shiftLeft]
    exact Nat.pow_dvd_pow 2 (by omega)
  unfold alignActions
  split
  · simp only
    split
    · exact allRegular_singleton trivial
    · split
      · exact allRegular_singleton trivial
      · rename_i hmax
        unfold maxAlign at hmax
        split
        · refine allRegular_append ?_ (allRegular_singleton (.inr (hpower (by omega))))
          split
          · exact allRegular_singleton trivial
          · exact allRegular_nil
        · split
          · exact allRegular_singleton trivial
          · exact allRegular_singleton (.inr (hpower (by omega)))
  · exact allRegular_singleton trivial

theorem allRegular_sectionActions (note : Text) (directive : Token) (operands : List Token) :
    AllRegular v (sectionActions note directive operands) := by
  unfold sectionActions
  split
  · simp only
    split
    · exact allRegular_singleton trivial
    · split <;> exact allRegular_singleton trivial
  · exact allRegular_singleton trivial

theorem allRegular_executeActions (r : Reading) (note : Text) (index : Int) (directive : Token)
    (operands : List Token) : AllRegular v (r.executeActions note index directive operands) := by
  unfold executeActions
  split
  · exact allRegular_singleton trivial
  · rename_i d _
    split
    · split
      · exact allRegular_singleton trivial
      · split
        · exact allRegular_singleton trivial
        · exact allRegular_nil
    · cases d with
      | namedSection => exact allRegular_sectionActions note directive operands
      | align => exact allRegular_alignActions r note directive operands
      | equivalence => exact allRegular_nil
      | word | half | byte | doubleWord | float | double | ascii | asciz | string =>
        refine allRegular_cons trivial ?_
        split
        · exact allRegular_dataActions _ note _ operands
        · exact allRegular_singleton trivial
      | _ => exact allRegular_singleton trivial

theorem allRegular_labelActions (note : Text) (tokens : List Token) :
    AllRegular v (labelActions note tokens).1 ∧ (labelActions note tokens).2 ⊆ tokens := by
  fun_induction labelActions note tokens with
  | case1 label colon rest hlabel ih =>
    refine ⟨allRegular_cons trivial ih.1, fun t ht => ?_⟩
    exact List.mem_cons_of_mem _ (List.mem_cons_of_mem _ (ih.2 ht))
  | case2 label colon rest hlabel => exact ⟨allRegular_nil, fun _ ht => ht⟩
  | case3 tokens hshort => exact ⟨allRegular_nil, fun _ ht => ht⟩

theorem allRegular_plainActions (r : Reading) (note : Text) (tokenLine : TokenLine) {first : Token}
    {rest : List Token} (h : ∀ t ∈ first :: rest, t.Lexed v) :
    AllRegular v (r.plainActions note tokenLine first rest) := by
  unfold plainActions
  split
  · exact allRegular_singleton trivial
  · split
    · split
      · exact allRegular_dataActions r note _ (first :: rest)
      · exact allRegular_singleton trivial
    · split
      · exact allRegular_singleton trivial
      · exact allRegular_singleton h

theorem allRegular_expandActions {s : Scope} {m : Macro} {call : List Token} {counter : Int}
    {note : Text} {next : Int → TokenLine → Reading → List Action}
    (hnext : ∀ i line r, line.Lexed s.vocabulary → AllRegular s.vocabulary (next i line r))
    (r : Reading) (i : Int) :
    AllRegular s.vocabulary (expandActions s m call counter note next r i) := by
  unfold expandActions
  split
  · exact allRegular_nil
  · split
    · exact allRegular_nil
    · split
      · exact allRegular_singleton trivial
      · exact allRegular_cons trivial (hnext _ _ _ (Vocabulary.lexed_tokenizeText _ _ _))

/-- A lexed line does what is regular, in macro calls too: their lines are lexed anew. -/
theorem allRegular_lineActions {s : Scope} {stack : CallStack} {note : Text} {index : Int}
    {tokenLine : TokenLine} (h : tokenLine.Lexed s.vocabulary) (r : Reading) :
    AllRegular s.vocabulary (lineActions s stack note index tokenLine r) := by
  unfold lineActions
  simp only
  split
  · exact allRegular_nil
  · obtain ⟨hlabels, hrest⟩ :=
      allRegular_labelActions (v := s.vocabulary) note tokenLine.withoutComment.tokens
    refine allRegular_append hlabels ?_
    split
    · exact allRegular_nil
    · rename_i first rest htokens
      rw [htokens] at hrest
      split
      · exact allRegular_executeActions _ note index first rest
      · split
        · exact allRegular_nil
        · split
          · exact allRegular_plainActions _ note tokenLine fun t ht => h.withoutComment t (hrest ht)
          · split
            · exact allRegular_singleton trivial
            · split
              · refine allRegular_cons trivial (Scope.allRegular_inTurn ?_ _)
                intro r i _
                exact allRegular_expandActions (fun _ _ _ hline => allRegular_lineActions hline _) r i
              · exact allRegular_nil
termination_by s.room stack

theorem allRegular_fileActions {s : Scope} (h : ∀ l ∈ s.lines.toList, l.Lexed s.vocabulary)
    (r : Reading) : AllRegular s.vocabulary (fileActions s r) := by
  refine Scope.allRegular_inTurn ?_ r
  intro r x hx
  simp only
  split
  · exact allRegular_nil
  · exact allRegular_lineActions (h _ (List.fst_mem_of_mem_zipIdx hx)) r

end Reading

/-! ### Runs -/

theorem Scope.action_mem_of_mem_moments {s : Scope} {r : Reading} {actions : List Action}
    {m : Moment} (h : m ∈ s.moments r actions) : m.action ∈ actions := by
  induction actions generalizing r with
  | nil => cases h
  | cons a actions ih =>
    rcases List.mem_cons.1 h with rfl | h
    · exact List.mem_cons_self ..
    · exact List.mem_cons_of_mem _ (ih h)

theorem Session.Reads.regular {config : Config} {isa : Registry} {unit : Nat}
    {session last : Session} {files : List (Text × Array TokenLine)} {moments : List Moment}
    {units : List SourceUnit} (h : Reads config isa unit session files moments units last)
    (hlexed : ∀ f ∈ files, ∀ l ∈ f.2.toList, l.Lexed (isa.vocabulary true)) {m : Moment}
    (hm : m ∈ moments) : m.action.Regular (isa.vocabulary true) := by
  induction h with
  | nil => cases hm
  | @cons _ session _ _ name _ _ _ _ _ s actions _ hscope hactions _ _ _ _ ih =>
    rcases List.mem_append.1 hm with hm | hm
    · subst hscope hactions
      exact (Reading.allRegular_fileActions (hlexed _ (List.mem_cons_self ..)) _).regular _
        (Scope.action_mem_of_mem_moments hm)
    · exact ih (fun f hf => hlexed f (List.mem_cons_of_mem _ hf)) hm

theorem lexed_of_tokenizeFiles {v : Vocabulary} {log log' : Log} {files : List SourceFile}
    {tokenized : List (Text × Array TokenLine)}
    (h : tokenizeFiles v log files = (log', tokenized)) {f : Text × Array TokenLine}
    (hf : f ∈ tokenized) {l : TokenLine} (hl : l ∈ f.2.toList) : l.Lexed v := by
  have hfile : (f.1, f.2) ∈ (tokenizeFiles v log files).2 := by
    rw [h]
    exact hf
  exact lexed_tokenizeFiles hfile hl

theorem Run.regular {config : Config} {isa : Registry} {files : List SourceFile}
    {program : Program} (run : Run config isa files program) {m : Moment}
    (hm : m ∈ moments config isa files) : m.action.Regular (isa.vocabulary true) := by
  obtain ⟨log, tokenized, htokens, hreads⟩ := run.reads
  exact hreads.regular (fun f hf l hl => lexed_of_tokenizeFiles htokens hf hl) hm

end Rv32Assembler
