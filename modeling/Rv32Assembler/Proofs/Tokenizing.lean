import Rv32Assembler.Assembly.Program
import Rv32Assembler.Proofs.Step
/-!
# Tokenizing without equivalences

A file in which no line defines an equivalence is tokenized line by line, and if that leaves no error
it leaves the log alone. So such a file can be replaced by another without a change to what is made of
the other files (`exists_tokenizeFiles`).
-/

namespace Rv32Assembler

def SourceFile.ofLines (name : Text) (texts : List Text) : SourceFile :=
  ⟨name, texts.zipIdx.map fun (text, i) => ⟨text, name, i + 1⟩, []⟩

/-- The line defines an equivalence, or is meant to. -/
def TokenLine.isEquivalence (l : TokenLine) : Bool := l.withoutComment.equivalence?.isSome

def SourceFile.DefinesNone (f : SourceFile) (v : Vocabulary) : Prop :=
  ∀ l ∈ f.lines, (v.tokenize l).1.isEquivalence = false

instance (f : SourceFile) (v : Vocabulary) : Decidable (f.DefinesNone v) :=
  inferInstanceAs (Decidable (∀ l ∈ f.lines, _))

theorem equivalenceEdits_nil (skip : Option Nat) (index : Nat) (tokens : List Token) :
    equivalenceEdits [] skip index tokens = [] := by
  induction tokens generalizing index with
  | nil => rfl
  | cons t tokens ih =>
    rw [equivalenceEdits, ih]
    split <;> rfl

namespace Vocabulary

variable {v : Vocabulary}

theorem tokenizeUnder_nil (line : SourceLine) : v.tokenizeUnder [] line = v.tokenize line := by
  unfold tokenizeUnder TokenLine.equivalenceEdits
  simp only [equivalenceEdits_nil]

theorem tokenizeLines_of_plain {lines : List SourceLine}
    (h : ∀ l ∈ lines, (v.tokenize l).1.isEquivalence = false) (log : Log) :
    v.tokenizeLines [] log lines
      = (lines.map fun l => (v.tokenize l).1,
         log.addAll (lines.flatMap fun l => lexicalMessages [] (v.tokenize l).2)) := by
  induction lines generalizing log with
  | nil => rfl
  | cons line lines ih =>
    have hline : (v.tokenize line).1.definition [] = .ok none := by
      have hnone := h line (List.mem_cons_self ..)
      rw [TokenLine.isEquivalence, Option.isSome_eq_false_iff, Option.isNone_iff_eq_none] at hnone
      unfold TokenLine.definition
      simp only [hnone]
    rw [tokenizeLines, tokenizeUnder_nil]
    simp only [hline, Option.toList_none, List.append_nil]
    rw [ih fun l hl => h l (List.mem_cons_of_mem _ hl), Log.addAll_addAll]
    rfl

theorem clean_of_tokenizeLines {es : Equivalences} {log : Log} {lines : List SourceLine}
    (h : (v.tokenizeLines es log lines).2.hasErrors = false) : log.hasErrors = false := by
  induction lines generalizing es log with
  | nil => exact h
  | cons line lines ih =>
    rw [tokenizeLines] at h
    simp only at h
    split at h
    · exact (Log.hasErrors_addAll_eq_false_iff.1 (ih h)).1
    · exact (Log.hasErrors_addAll_eq_false_iff.1 (Log.hasErrors_add_eq_false_iff.1 (ih h)).1).1

theorem eq_nil_of_warnings {note : Text} {problems : List LexicalProblem}
    (h : ∀ m ∈ lexicalMessages note problems, m.warning = true) : problems = [] := by
  cases problems with
  | nil => rfl
  | cons problem problems => cases h _ (List.mem_cons_self ..)

end Vocabulary

def SourceFile.tokenized (f : SourceFile) (v : Vocabulary) : List TokenLine :=
  f.lines.map fun l => (v.tokenize l).1

namespace SourceFile.DefinesNone

variable {v : Vocabulary} {f f' : SourceFile}

theorem tokenizeFile (h : f.DefinesNone v) (hright : ∀ l ∈ f.lines, (v.tokenize l).2 = [])
    (log : Log) : v.tokenizeFile log f.lines = (f.tokenized v, log) := by
  have hnone : (f.lines.flatMap fun l => lexicalMessages [] (v.tokenize l).2) = [] := by
    rw [List.flatMap_eq_nil_iff]
    intro l hl
    rw [hright l hl]
    rfl
  rw [Vocabulary.tokenizeFile, Vocabulary.tokenizeLines_of_plain h, hnone]
  rfl

theorem eq_nil_of_clean (h : f.DefinesNone v) {log : Log}
    (hclean : (v.tokenizeFile log f.lines).2.hasErrors = false) {l : SourceLine}
    (hl : l ∈ f.lines) : (v.tokenize l).2 = [] := by
  rw [Vocabulary.tokenizeFile, Vocabulary.tokenizeLines_of_plain h] at hclean
  have hwarnings := (Log.hasErrors_addAll_eq_false_iff.1 hclean).2
  apply Vocabulary.eq_nil_of_warnings
  intro m hm
  exact hwarnings m (List.mem_flatMap.2 ⟨l, hl, hm⟩)

end SourceFile.DefinesNone

/-! ### Files one after the other -/

theorem clean_of_tokenizeFiles {v : Vocabulary} {log : Log} {files : List SourceFile}
    (h : (tokenizeFiles v log files).1.hasErrors = false) : log.hasErrors = false := by
  induction files generalizing log with
  | nil => exact h
  | cons f files ih =>
    exact (Log.hasErrors_addAll_eq_false_iff.1 (Vocabulary.clean_of_tokenizeLines (ih h))).1

theorem exists_tokenizeFiles {v : Vocabulary} {log log₁ : Log} {before after : List SourceFile}
    {f : SourceFile} {tokenized : List (Text × Array TokenLine)}
    (h : tokenizeFiles v log (before ++ f :: after) = (log₁, tokenized))
    (hclean : log₁.hasErrors = false) (hf : f.DefinesNone v) (hmessages : f.messages = []) :
    (∀ l ∈ f.lines, (v.tokenize l).2 = []) ∧ ∃ earlier later, earlier.length = before.length ∧
      tokenized = earlier ++ (f.name, (f.tokenized v).toArray) :: later ∧
      ∀ f' : SourceFile, f'.DefinesNone v → f'.messages = [] →
        (∀ l ∈ f'.lines, (v.tokenize l).2 = []) →
        tokenizeFiles v log (before ++ f' :: after)
          = (log₁, earlier ++ (f'.name, (f'.tokenized v).toArray) :: later) := by
  induction before generalizing log tokenized with
  | nil =>
    rw [List.nil_append, tokenizeFiles, hmessages] at h
    have hlog : (v.tokenizeFile log f.lines).2.hasErrors = false := by
      rw [← (Prod.mk.inj h).1] at hclean
      exact clean_of_tokenizeFiles hclean
    have hright (l : SourceLine) (hl : l ∈ f.lines) := hf.eq_nil_of_clean hlog hl
    refine ⟨hright, [], (tokenizeFiles v log after).2, rfl, ?_, ?_⟩
    · have hfile := hf.tokenizeFile hright log
      simp only [Log.addAll, List.foldl_nil, hfile] at h
      exact (Prod.mk.inj h).2.symm
    · intro f' hf' hmessages' hright'
      have hfile := hf.tokenizeFile hright log
      have hfile' := hf'.tokenizeFile hright' log
      simp only [Log.addAll, List.foldl_nil, hfile] at h
      rw [List.nil_append, tokenizeFiles, hmessages']
      simp only [Log.addAll, List.foldl_nil, hfile']
      rw [(Prod.mk.inj h).1]
      rfl
  | cons g before ih =>
    rw [List.cons_append, tokenizeFiles] at h
    simp only at h
    obtain ⟨hlog, htokenized⟩ := Prod.mk.inj h
    obtain ⟨hright, earlier, later, hlength, hrest, hreplace⟩ := ih (Prod.ext hlog rfl)
    refine ⟨hright, (g.name, (v.tokenizeFile (log.addAll g.messages) g.lines).1.toArray) :: earlier,
      later, by rw [List.length_cons, List.length_cons, hlength], ?_, ?_⟩
    · exact htokenized.symm.trans (congrArg (List.cons _) hrest)
    · intro f' hf' hmessages' hright'
      rw [List.cons_append, tokenizeFiles]
      simp only [hreplace f' hf' hmessages' hright']
      rfl

end Rv32Assembler
