import Rv32Assembler.Proofs.AlikePrograms
import Rv32Assembler.Proofs.ErrorLimit
import Rv32Assembler.Proofs.Thinning
/-!
# Padding

Inert lines can be put anywhere into a file: into the body of a macro, between a label and its data,
among equivalences. The lines of the padded file are tokenized like those of the file
(`PaddedLines.exists_tokenizeLines`), so the file is the padded one thinned, and the first passes end
alike (`exists_firstPass_padded`). Assembling the padded files succeeds exactly when assembling the
files does, and the programs agree (`assemble_padded`).
-/

namespace Rv32Assembler

/-- The first lines are the second with inert lines put in between. -/
inductive PaddedLines : List Text → List Text → Prop where
  | nil : PaddedLines [] []
  | keep (text : Text) {texts texts' : List Text} :
      PaddedLines texts texts' → PaddedLines (text :: texts) (text :: texts')
  | insert {text : Text} {texts texts' : List Text} :
      text.isInert = true → PaddedLines texts texts' → PaddedLines (text :: texts) texts'

/-- The first file is the second with inert lines put in between, or the same file. A file that is made
of a text is by definition the file of its lines. -/
inductive SourceFile.Padded : SourceFile → SourceFile → Prop where
  | same (f : SourceFile) : Padded f f
  | lines (name : Text) {texts texts' : List Text} :
      PaddedLines texts texts' → Padded (ofLines name texts) (ofLines name texts')

/-! ### Equivalences -/

/-- The equivalences are the same, from other lines. -/
structure Equivalence.Alike (e e' : Equivalence) : Prop where
  name : e'.name = e.name
  value : e'.value = e.value

section

variable {es es' : Equivalences} {l l' : TokenLine}

theorem Equivalences.rel_find? (hes : List.Forall₂ Equivalence.Alike es es') (name : Text) :
    Option.Rel Equivalence.Alike (es.find? name) (es'.find? name) := by
  unfold Equivalences.find?
  induction hes with
  | nil => exact .none
  | cons he _ ih =>
    simp only [List.find?_cons, he.name]
    split
    · exact .some he
    · exact ih

theorem TokenLine.Alike.equivalenceEdits (h : l.Alike l')
    (hes : List.Forall₂ Equivalence.Alike es es') :
    l'.equivalenceEdits es' = l.equivalenceEdits es := by
  have hedits {ts ts' : List Token} (hts : List.Forall₂ Token.Alike ts ts') (skip : Option Nat)
      (index : Nat) : Rv32Assembler.equivalenceEdits es' skip index ts'
        = Rv32Assembler.equivalenceEdits es skip index ts := by
    induction hts generalizing index with
    | nil => rfl
    | @cons t t' ts ts' ht hts ih =>
      have hnext : ts'.head?.map Token.kind = ts.head?.map Token.kind := by
        cases hts with
        | nil => rfl
        | cons hu _ => exact congrArg some hu.kind
      have hfind := Equivalences.rel_find? hes t.text
      simp only [Rv32Assembler.equivalenceEdits, ht.kind, ht.text, ht.offset, Token.stop, hnext, ih]
      split
      · rfl
      · generalize es.find? t.text = e, es'.find? t.text = e' at hfind
        cases hfind with
        | none => rfl
        | some he => simp only [he.value]
  rw [TokenLine.equivalenceEdits, TokenLine.equivalenceEdits, h.equivalence?]
  exact hedits h.tokens _ 0

theorem TokenLine.Alike.slice (h : l.Alike l') {first first' last last' : Token}
    (hfirst : first.Alike first') (hlast : last.Alike last') :
    l'.slice first' last' = l.slice first last := by
  simp only [TokenLine.slice, Token.stop, h.text, hfirst.offset, hlast.offset, hlast.text]

/-- Alike lines define the same, or are wrong. -/
theorem TokenLine.Alike.definition (h : l.Alike l') (hes : List.Forall₂ Equivalence.Alike es es') :
    Except.Alike (Option.Rel Equivalence.Alike) (l.definition es) (l'.definition es') := by
  have hbare := h.withoutComment
  unfold TokenLine.definition
  simp only [hbare.equivalence?]
  cases l.withoutComment.equivalence? with
  | none => exact .ok .none
  | some place =>
    have htokens := List.forall₂_drop place hbare.tokens
    simp only
    generalize l.withoutComment.tokens.drop place = ts, l'.withoutComment.tokens.drop place = ts'
      at htokens
    rcases htokens with _ | ⟨hdirective, hoperands⟩
    · exact .ok .none
    rcases hoperands with _ | @⟨symbol, symbol', _, _, hsymbol, hvalue⟩
    · exact .error _ _
    rcases hvalue with _ | @⟨first, first', rest, rest', hfirst, hrest⟩
    · exact .error _ _
    · clear hdirective
      simp only [hsymbol.kind, hsymbol.text]
      split
      · exact .error _ _
      · have hself := rel_find? (q := fun t => t.kind == .identifier && t.text == symbol.text)
          (.cons hfirst hrest) fun ht => by rw [ht.kind, ht.text]
        generalize (first :: rest).find? (fun t => t.kind == .identifier && t.text == symbol.text)
          = own, (first' :: rest').find? (fun t => t.kind == .identifier && t.text == symbol.text)
          = own' at hself
        cases hself with
        | some _ => exact .error _ _
        | none =>
          have hlast : (rest.getLastD first).Alike (rest'.getLastD first') := by
            have hrel := rel_getLast? hrest
            rw [List.getLastD_eq_getLast?, List.getLastD_eq_getLast?]
            generalize rest.getLast? = t, rest'.getLast? = t' at hrel
            cases hrel with
            | none => exact hfirst
            | some ht => exact ht
          have hfind := Equivalences.rel_find? hes symbol.text
          simp only [hbare.slice hfirst hlast]
          generalize es.find? symbol.text = e, es'.find? symbol.text = e' at hfind
          cases hfind with
          | none => exact .ok (.some ⟨rfl, rfl⟩)
          | some he =>
            simp only [he.value]
            split <;> exact .error _ _

end

/-! ### Tokens -/

namespace Vocabulary

variable {v : Vocabulary} {es es' : Equivalences} {log log' : Log} {line line' : SourceLine}

theorem source_tokenizeUnder (v : Vocabulary) (es : Equivalences) (line : SourceLine) :
    (v.tokenizeUnder es line).1.source = line := by
  unfold tokenizeUnder
  simp only
  split <;> rfl

theorem tokenizeUnder_alike (hes : List.Forall₂ Equivalence.Alike es es')
    (h : line'.text = line.text) :
    (v.tokenizeUnder es line).1.Alike (v.tokenizeUnder es' line').1 ∧
      List.Forall₂ (fun m m' : Message => m'.warning = m.warning)
        (lexicalMessages [] (v.tokenizeUnder es line).2)
        (lexicalMessages [] (v.tokenizeUnder es' line').2) := by
  unfold tokenizeUnder
  simp only [(v.tokenize_alike h).equivalenceEdits hes, h]
  split
  · exact ⟨v.tokenize_alike h, v.lexicalMessages_alike h [] []⟩
  · exact ⟨v.tokenizeText_alike _ line line', v.lexicalMessages_tokenizeText_alike _ line line' [] []⟩

theorem tokenizeUnder_inert (h : line.text.isInert = true) (es : Equivalences) :
    v.tokenizeUnder es line = v.tokenize line := by
  have hedits : (v.tokenize line).1.equivalenceEdits es = [] :=
    (v.tokenizeText_inert h line).1.equivalenceEdits es
  unfold tokenizeUnder
  simp only [hedits]

/-- The tokens of the next line, and the equivalences and the log after it. -/
def tokenizeNext (v : Vocabulary) (es : Equivalences) (log : Log) (line : SourceLine) :
    TokenLine × Equivalences × Log :=
  let tokenized := v.tokenizeUnder es line
  let log := log.addAll (lexicalMessages [] tokenized.2)
  match tokenized.1.definition es with
  | .ok defined => (tokenized.1, es ++ defined.toList, log)
  | .error (t, error) => (tokenized.1, es, log.add (.ofToken t error.message false []))

theorem tokenizeLines_cons (v : Vocabulary) (es : Equivalences) (log : Log) (line : SourceLine)
    (lines : List SourceLine) :
    v.tokenizeLines es log (line :: lines)
      = let next := v.tokenizeNext es log line
        let rest := v.tokenizeLines next.2.1 next.2.2 lines
        (next.1 :: rest.1, rest.2) := by
  rw [tokenizeLines]
  unfold tokenizeNext
  simp only
  cases (v.tokenizeUnder es line).1.definition es <;> rfl

theorem source_tokenizeNext (v : Vocabulary) (es : Equivalences) (log : Log) (line : SourceLine) :
    (v.tokenizeNext es log line).1.source = line := by
  have hsource := v.source_tokenizeUnder es line
  unfold tokenizeNext
  simp only
  cases (v.tokenizeUnder es line).1.definition es <;> exact hsource

theorem tokenizeNext_alike (hes : List.Forall₂ Equivalence.Alike es es') (hlog : log.Alike log')
    (h : line'.text = line.text) :
    (v.tokenizeNext es log line).1.Alike (v.tokenizeNext es' log' line').1 ∧
      List.Forall₂ Equivalence.Alike (v.tokenizeNext es log line).2.1
        (v.tokenizeNext es' log' line').2.1 ∧
      (v.tokenizeNext es log line).2.2.Alike (v.tokenizeNext es' log' line').2.2 := by
  obtain ⟨hline, hmessages⟩ := tokenizeUnder_alike (v := v) hes h
  have hdefinition := hline.definition hes
  have hlexed := hlog.addAll hmessages
  unfold tokenizeNext
  simp only
  generalize (v.tokenizeUnder es line).1.definition es = d,
    (v.tokenizeUnder es' line').1.definition es' = d' at hdefinition
  cases hdefinition with
  | error => exact ⟨hline, hes, hlexed.add rfl⟩
  | ok hdefined =>
    refine ⟨hline, List.rel_append hes ?_, hlexed⟩
    cases hdefined with
    | none => exact .nil
    | some he => exact .cons he .nil

theorem tokenizeNext_inert (h : line.text.isInert = true) (es : Equivalences) (log : Log) :
    v.tokenizeNext es log line = ((v.tokenize line).1, es, log) := by
  obtain ⟨hinert, hright⟩ := v.tokenizeText_inert h line
  unfold tokenizeNext
  rw [tokenizeUnder_inert h]
  simp only [tokenize, hright, hinert.definition, Option.toList_none, List.append_nil]
  rfl

end Vocabulary

/-! ### Places -/

/-- The lines that are marked stay. -/
def Selection.ofMarks (marks : List Bool) : Selection where
  keeps i := decide (0 ≤ i) && marks[i.toNat]?.getD false
  place i := (marks.take i.toNat).count true
  place_succ i := by
    by_cases hi : 0 ≤ i
    · obtain ⟨n, rfl⟩ := Int.eq_ofNat_of_zero_le hi
      have hnext : ((n : Int) + 1).toNat = n + 1 := by omega
      rw [hnext, Int.toNat_natCast, List.take_add_one, List.count_append]
      rcases hmark : marks[n]? with _ | _ | _
      · simp
      · simp
      · simp [hi]
    · have hnext : (i + 1).toNat = 0 := by omega
      have hthis : i.toNat = 0 := by omega
      simp [hi, hnext, hthis]

namespace Selection

theorem keeps_ofMarks (before : List Bool) (mark : Bool) (after : List Bool) :
    (ofMarks (before ++ mark :: after)).keeps before.length = mark := by
  simp [ofMarks]

theorem place_ofMarks (before after : List Bool) :
    (ofMarks (before ++ after)).place before.length = before.count true := by
  simp [ofMarks]

end Selection

/-- The lines that are marked stay, and lines are numbered by their places. -/
def Thinning.ofMarks (marks : List Bool) : Thinning where
  toSelection := .ofMarks marks
  twins n n' := ∃ i, (Selection.ofMarks marks).keeps i = true ∧ n = i + 1 ∧
    n' = (Selection.ofMarks marks).place i + 1
  eq_iff := by
    rintro _ _ _ _ ⟨i, hi, rfl, rfl⟩ ⟨j, hj, rfl, rfl⟩
    have hless := (Selection.ofMarks marks).place_lt (j := j) hi
    have hmore := (Selection.ofMarks marks).place_lt (j := i) hj
    omega

def Thinning.same : Thinning where
  keeps _ := true
  place i := i
  place_succ _ := rfl
  twins n n' := n' = n
  eq_iff := by
    rintro n _ m _ rfl rfl
    exact Iff.rfl

theorem Thinning.relates_same (lines : Array TokenLine) : Thinning.same.Relates lines lines where
  kept := by
    have hall : (lines.toList.zipIdx.filter fun p => same.keeps p.2) = lines.toList.zipIdx :=
      List.filter_eq_self.2 fun _ _ => rfl
    rw [hall]
    exact List.forall₂_same.2 fun p _ => ⟨rfl, .refl p.1, rfl⟩
  inert _ _ hdropped := by cases hdropped

/-! ### Padded files -/

def SourceFile.numbered (name : Text) (n : Nat) (texts : List Text) : List SourceLine :=
  (texts.zipIdx n).map fun (text, i) => ⟨text, name, i + 1⟩

theorem SourceFile.numbered_cons (name : Text) (n : Nat) (text : Text) (texts : List Text) :
    numbered name n (text :: texts) = ⟨text, name, n + 1⟩ :: numbered name (n + 1) texts := by
  rw [numbered, List.zipIdx_cons, List.map_cons]
  rfl

/-- The lines that stay of padded lines are tokenized like those without padding. The marks `before`
tell the lines before these. -/
theorem PaddedLines.exists_tokenizeLines {texts texts' : List Text} (h : PaddedLines texts texts')
    (v : Vocabulary) (name : Text) {es es' : Equivalences}
    (hes : List.Forall₂ Equivalence.Alike es es') {log log' : Log} (hlog : log.Alike log')
    (before : List Bool) :
    ∃ after,
      let padded := v.tokenizeLines es log (SourceFile.numbered name before.length texts)
      let plain := v.tokenizeLines es' log' (SourceFile.numbered name (before.count true) texts')
      let θ := Thinning.ofMarks (before ++ after)
      padded.2.Alike plain.2 ∧
        List.Forall₂ θ.Pairs ((padded.1.zipIdx before.length).filter fun p => θ.keeps p.2)
          (plain.1.zipIdx (before.count true)) ∧
        ∀ p ∈ padded.1.zipIdx before.length, θ.keeps p.2 = false → p.1.IsInert := by
  induction h generalizing es es' log log' before with
  | nil => exact ⟨[], hlog, .nil, nofun⟩
  | keep text _ ih =>
    have htext : SourceLine.text ⟨text, name, before.count true + 1⟩
        = SourceLine.text ⟨text, name, before.length + 1⟩ := rfl
    obtain ⟨hline, hes₁, hlog₁⟩ := Vocabulary.tokenizeNext_alike (v := v) hes hlog htext
    obtain ⟨after, hlogs, hkept, hinert⟩ := ih hes₁ hlog₁ (before ++ [true])
    have hmark : (Thinning.ofMarks (before ++ true :: after)).keeps before.length = true :=
      Selection.keeps_ofMarks before true after
    have hplace := Selection.place_ofMarks before (true :: after)
    rw [List.append_assoc, List.singleton_append] at hkept hinert
    rw [List.length_append, List.length_singleton, List.count_append, List.count_singleton_self]
      at hlogs hkept
    rw [List.length_append, List.length_singleton] at hinert
    refine ⟨true :: after, ?_⟩
    simp only [SourceFile.numbered_cons, Vocabulary.tokenizeLines_cons, List.zipIdx_cons]
    refine ⟨hlogs, ?_, ?_⟩
    · simp only [List.filter_cons, hmark, if_true]
      refine .cons ⟨hplace, hline, ?_⟩ hkept
      simp only [Vocabulary.source_tokenizeNext]
      exact ⟨before.length, hmark, rfl, by rw [hplace]⟩
    · intro p hp hdropped
      rcases List.mem_cons.1 hp with rfl | hp
      · cases hmark.symm.trans hdropped
      · exact hinert p hp hdropped
  | @insert text texts texts' htext _ ih =>
    obtain ⟨after, hlogs, hkept, hinert⟩ := ih hes hlog (before ++ [false])
    have hmark : (Thinning.ofMarks (before ++ false :: after)).keeps before.length = false :=
      Selection.keeps_ofMarks before false after
    have hline : (SourceLine.text ⟨text, name, before.length + 1⟩).isInert = true := htext
    rw [List.append_assoc, List.singleton_append] at hkept hinert
    rw [List.length_append, List.length_singleton, List.count_append] at hlogs hkept
    rw [List.length_append, List.length_singleton] at hinert
    refine ⟨false :: after, ?_⟩
    simp only [SourceFile.numbered_cons, Vocabulary.tokenizeLines_cons, List.zipIdx_cons,
      Vocabulary.tokenizeNext_inert hline]
    refine ⟨hlogs, ?_, ?_⟩
    · simp only [List.filter_cons, hmark, Bool.false_eq_true, if_false]
      exact hkept
    · intro p hp hdropped
      rcases List.mem_cons.1 hp with rfl | hp
      · exact (v.tokenizeText_inert htext _).1
      · exact hinert p hp hdropped

/-- The tokenized files have the same name, and the second is the first thinned. -/
structure TokensThinned (x x' : Text × Array TokenLine) : Prop where
  name : x'.1 = x.1
  lines : ∃ θ : Thinning, θ.Relates x.2 x'.2

namespace SourceFile.Padded

variable {f f' : SourceFile} {log log' : Log}

theorem tokenizeFile (h : f.Padded f') (v : Vocabulary) (hlog : log.Alike log') :
    let padded := v.tokenizeFile (log.addAll f.messages) f.lines
    let plain := v.tokenizeFile (log'.addAll f'.messages) f'.lines
    padded.2.Alike plain.2 ∧
      TokensThinned (f.name, padded.1.toArray) (f'.name, plain.1.toArray) := by
  cases h with
  | same f =>
    obtain ⟨tokens, ms, htokens⟩ := exists_tokenizeLines v [] f.lines
    have hmessages (ms : List Message) :
        List.Forall₂ (fun m m' : Message => m'.warning = m.warning) ms ms :=
      List.forall₂_same.2 fun _ _ => rfl
    simp only [Vocabulary.tokenizeFile, htokens]
    exact ⟨(hlog.addAll (hmessages f.messages)).addAll (hmessages ms), rfl, .same,
      Thinning.relates_same tokens.toArray⟩
  | lines name hpadded =>
    obtain ⟨marks, hlogs, hkept, hinert⟩ := hpadded.exists_tokenizeLines v name .nil hlog []
    exact ⟨hlogs, rfl, .ofMarks marks, hkept, hinert⟩

theorem tokenizeFiles {files files' : List SourceFile}
    (h : List.Forall₂ SourceFile.Padded files files') (v : Vocabulary) (hlog : log.Alike log') :
    (tokenizeFiles v log files).1.Alike (tokenizeFiles v log' files').1 ∧
      List.Forall₂ TokensThinned (tokenizeFiles v log files).2 (tokenizeFiles v log' files').2 := by
  induction h generalizing log log' with
  | nil => exact ⟨hlog, .nil⟩
  | cons hf _ ih =>
    obtain ⟨hfile, hthinned⟩ := hf.tokenizeFile v hlog
    obtain ⟨hfiles, hrest⟩ := ih hfile
    exact ⟨hfiles, .cons hthinned hrest⟩

end SourceFile.Padded

/-! ### Passes -/

namespace Session.Alike

variable {session session' : Session}

theorem exists_readFile_thinned (h : session.Alike session') {θ : Thinning} {s s' : Scope}
    (hs : s.Thinned θ s') (name : Text) :
    ∃ next u next' u', session.readFile s name = .ok (next, u) ∧
      session'.readFile s' name = .ok (next', u') ∧ next.Alike next' ∧ u.Alike u' := by
  have hstart : Reading.Thinned θ s s' (.start session name) (.start session' name) :=
    ⟨h.start name ⟨.nil, .none, rfl⟩, s.fits_start session name, s'.fits_start session' name⟩
  obtain ⟨stop, stop', hstop, hstop', hstops⟩ := hs.exists_readLines hstart
  obtain ⟨hnext, hunit⟩ := hstops.alike.finish hstops.alike.pool.isDefining name
  refine ⟨_, _, _, _, ?_, ?_, hnext, hunit⟩
  · rw [Session.readFile, hstop]
    rfl
  · rw [Session.readFile, hstop']
    rfl

theorem exists_readFiles_thinned (h : session.Alike session') (config : Config) (isa : Registry)
    (unit : Nat) {files files' : List (Text × Array TokenLine)}
    (hfiles : List.Forall₂ TokensThinned files files') :
    ∃ last units last' units', session.readFiles config isa unit files = .ok (last, units) ∧
      session'.readFiles config isa unit files' = .ok (last', units') ∧ last.Alike last' ∧
      List.Forall₂ SourceUnit.Alike units units' := by
  induction hfiles generalizing session session' unit with
  | nil => exact ⟨session, [], session', [], rfl, rfl, h, .nil⟩
  | @cons file file' files files' hfile _ ih =>
    obtain ⟨name, lines⟩ := file
    obtain ⟨name', lines'⟩ := file'
    obtain rfl : name' = name := hfile.name
    obtain ⟨θ, hlines⟩ := hfile.lines
    rw [Session.readFiles, Session.readFiles, h.log.exceeded]
    split
    · exact ⟨session, [], session', [], rfl, rfl, h, .nil⟩
    · have hscope : Scope.Thinned θ ⟨config, isa, unit, lines⟩ ⟨config, isa, unit, lines'⟩ :=
        ⟨rfl, rfl, rfl, hlines⟩
      obtain ⟨next, u, next', u', hread, hread', hnext, hu⟩ := h.exists_readFile_thinned hscope name'
      obtain ⟨last, us, last', us', hrest, hrest', hlast, hus⟩ := ih hnext (unit + 1)
      refine ⟨last, u :: us, last', u' :: us', ?_, ?_, hlast, .cons hu hus⟩
      · simp only [hread, hrest, bind, Except.bind, pure, Except.pure]
      · simp only [hread', hrest', bind, Except.bind, pure, Except.pure]

end Session.Alike

theorem exists_firstPass_padded (config : Config) (isa : Registry) {files files' : List SourceFile}
    (h : List.Forall₂ SourceFile.Padded files files') :
    ∃ session units session' units', firstPass config isa files = .ok (session, units) ∧
      firstPass config isa files' = .ok (session', units') ∧ session.Alike session' ∧
      List.Forall₂ SourceUnit.Alike units units' := by
  obtain ⟨hlog, htokens⟩ := SourceFile.Padded.tokenizeFiles h (isa.vocabulary true)
    (.refl (Session.ofConfig config).log)
  have hstart : Session.Alike
      { Session.ofConfig config with
        log := (tokenizeFiles (isa.vocabulary true) (Session.ofConfig config).log files).1 }
      { Session.ofConfig config with
        log := (tokenizeFiles (isa.vocabulary true) (Session.ofConfig config).log files').1 } :=
    ⟨rfl, rfl, hlog, rfl⟩
  obtain ⟨last, units, last', units', hread, hread', hlast, hunits⟩ :=
    hstart.exists_readFiles_thinned config isa 0 htokens
  exact ⟨_, units, _, units', firstPass_eq_ok rfl hread, firstPass_eq_ok rfl hread',
    hlast.patchUnits hunits, hunits⟩

/-- Inert lines have no effect. Whatever files they are put into and wherever, the files are assembled
exactly when they are without these lines, to the same bytes and symbols, the same entry and, apart
from their sources, the same machine statements. -/
theorem assemble_padded (config : Config) (isa : Registry) {padded files : List SourceFile}
    (h : List.Forall₂ SourceFile.Padded padded files) :
    ((∃ program, assemble config isa padded = .ok (.ok program)) ↔
        ∃ program, assemble config isa files = .ok (.ok program)) ∧
      ∀ program program', assemble config isa padded = .ok (.ok program) →
        assemble config isa files = .ok (.ok program') → program.Agrees program' := by
  obtain ⟨session, units, session', units', hpass, hpass', hsession, hunits⟩ :=
    exists_firstPass_padded config isa h
  refine ⟨⟨?_, ?_⟩, ?_⟩
  · rintro ⟨program, hassemble⟩
    obtain ⟨program', hassemble', -⟩ :=
      exists_assemble_of_firstPass hassemble hpass hpass' hsession hunits
    exact ⟨program', hassemble'⟩
  · rintro ⟨program', hassemble'⟩
    obtain ⟨program, hassemble, -⟩ :=
      exists_assemble_of_firstPass hassemble' hpass' hpass hsession.symm
        (hunits.flip.imp fun _ _ hu => hu.symm)
    exact ⟨program, hassemble⟩
  · intro program program' hassemble hassemble'
    obtain ⟨found, hfound, hagrees⟩ :=
      exists_assemble_of_firstPass hassemble hpass hpass' hsession hunits
    cases hfound.symm.trans hassemble'
    exact hagrees

/-- Equivalences, a macro with a label of its own, and data under a label. -/
def countdownLines : List Text :=
  [".eqv start 3", ".eqv step -1", ".macro countdown(%r)", "li %r, start", "again: addi %r, %r, step",
   "bnez %r, again", ".end_macro", ".data", "steps:", ".word start, step", ".text",
   "main: countdown(t0)", "countdown(t1)"]

/-- Inert lines among the equivalences, in the macro, and between the label and its data. -/
def paddedCountdownLines : List Text :=
  [".eqv start 3", "# how far", ".eqv step -1", ".macro countdown(%r)", "\t, # %r: start", "li %r, start",
   "again: addi %r, %r, step", "", "bnez %r, again", ".end_macro", ".data", "steps:", " ,\r",
   ".word start, step", ".text", "main: countdown(t0)", "#", "countdown(t1)"]

theorem assemble_padded_countdown :
    PaddedLines paddedCountdownLines countdownLines ∧ ∃ program program',
      assemble {} Rv32im.registry [.ofLines "a.s" paddedCountdownLines] = .ok (.ok program) ∧
      assemble {} Rv32im.registry [.ofLines "a.s" countdownLines] = .ok (.ok program') ∧
      program.Agrees program' := by
  have hpadded : PaddedLines paddedCountdownLines countdownLines := by
    refine .keep _ (.insert ?_ (.keep _ (.keep _ (.insert ?_ (.keep _ (.keep _ (.insert ?_ (.keep _
      (.keep _ (.keep _ (.keep _ (.insert ?_ (.keep _ (.keep _ (.keep _ (.insert ?_ (.keep _
      .nil)))))))))))))))))
    all_goals decide +kernel
  obtain ⟨hsame, hagrees⟩ := assemble_padded {} Rv32im.registry
    (.cons (.lines "a.s" hpadded) .nil)
  have hprogram :
      (programInOrder? {} Rv32im.registry [.ofLines "a.s" countdownLines]).isSome = true := by
    decide +kernel
  obtain ⟨program', hfound⟩ := Option.isSome_iff_exists.1 hprogram
  have hassemble' := assemble_of_programInOrder? hfound
  obtain ⟨program, hassemble⟩ := hsame.2 ⟨program', hassemble'⟩
  exact ⟨hpadded, program, program', hassemble, hassemble', hagrees _ _ hassemble hassemble'⟩

end Rv32Assembler
