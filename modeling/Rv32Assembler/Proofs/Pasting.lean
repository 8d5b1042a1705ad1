import Rv32Assembler.Isa.Rv32im
import Rv32Assembler.Proofs.AlikePrograms
import Rv32Assembler.Proofs.Tokenizing
/-!
# Pasting expansions

A line of a file that is a macro call can be replaced by the lines that the call makes of the macro's
body, and the file then makes the same program (`exists_assemble_of_pasted`). The lines after the call
move; the lines of the body, which the call reads under the number of its own line on the call stack,
are read as lines of the file.

That asks for a source that does not depend on when its lines are tokenized, nor on the numbers of
expansions. So no expansion makes a line that defines an equivalence, which would take effect only in a
file; none makes a line that delimits a definition; and the lines of definitions have no labels.
-/

namespace Rv32Assembler

/-! ### Places -/

/-- One line makes room for others. -/
def Renumbering.paste (k count : Nat) : Renumbering where
  place i := if i < k then i else i + count - 1
  kept i := i ≠ k
  fresh i := k ≤ i ∧ i < k + count
  counted := False
  place_lt {i j} _ _ := by
    split <;> split <;> omega
  not_fresh {i} _ := by
    split <;> omega

theorem Renumbering.place_of_lt {k count : Nat} {i : Int} (h : i < k) :
    (paste k count).place i = i := if_pos h

theorem Renumbering.place_of_le {k count : Nat} {i : Int} (h : (k : Int) ≤ i) :
    (paste k count).place i = i + count - 1 := if_neg (Int.not_lt.2 h)

/-- The tokenized lines from one at place `m` on. -/
def Vocabulary.tokenizeFrom (v : Vocabulary) (name : Text) (m : Nat) (texts : List Text) :
    List TokenLine :=
  (texts.zipIdx m).map fun (text, i) => (v.tokenize ⟨text, name, i + 1⟩).1

theorem SourceFile.tokenized_ofLines (v : Vocabulary) (name : Text) (texts : List Text) :
    (ofLines name texts).tokenized v = v.tokenizeFrom name 0 texts := by
  rw [tokenized, ofLines, List.map_map]
  rfl

namespace Vocabulary

variable (v : Vocabulary) (name : Text)

theorem tokenizeFrom_append (m : Nat) (texts more : List Text) :
    v.tokenizeFrom name m (texts ++ more)
      = v.tokenizeFrom name m texts ++ v.tokenizeFrom name (m + texts.length) more := by
  rw [tokenizeFrom, List.zipIdx_append, List.map_append]
  rfl

theorem tokenizeFrom_cons (m : Nat) (text : Text) (texts : List Text) :
    v.tokenizeFrom name m (text :: texts)
      = (v.tokenize ⟨text, name, m + 1⟩).1 :: v.tokenizeFrom name (m + 1) texts := rfl

theorem length_tokenizeFrom (m : Nat) (texts : List Text) :
    (v.tokenizeFrom name m texts).length = texts.length := by
  rw [tokenizeFrom, List.length_map, List.length_zipIdx]

theorem lineAt?_tokenizeFrom (texts : List Text) (j : Nat) :
    Macro.lineAt? (v.tokenizeFrom name 0 texts).toArray j
      = texts[j]?.map fun text => (v.tokenize ⟨text, name, j + 1⟩).1 := by
  rw [Macro.lineAt?, if_neg (by omega), Int.toNat_natCast, List.getElem?_toArray, tokenizeFrom,
    List.getElem?_map, List.getElem?_zipIdx, Option.map_map, Nat.zero_add]
  rfl

end Vocabulary

theorem Scope.moved_paste (config : Config) (isa : Registry) (unit : Nat) (name call : Text)
    (pre body post : List Text) :
    Scope.Moved (.paste pre.length body.length)
      ⟨config, isa, unit, ((isa.vocabulary true).tokenizeFrom name 0 (pre ++ call :: post)).toArray⟩
      ⟨config, isa, unit,
        ((isa.vocabulary true).tokenizeFrom name 0 (pre ++ body ++ post)).toArray⟩ := by
  refine ⟨rfl, rfl, rfl, ?_⟩
  intro i hkept l hl
  obtain ⟨-, hlow, -⟩ := Macro.mem_of_lineAt? hl
  obtain ⟨j, rfl⟩ := Int.eq_ofNat_of_zero_le hlow
  have hne : (j : Int) ≠ pre.length := hkept
  simp only [Vocabulary.lineAt?_tokenizeFrom, Option.map_eq_some_iff] at hl
  obtain ⟨text, htext, rfl⟩ := hl
  have hnumber : ((isa.vocabulary true).tokenize ⟨text, name, j + 1⟩).1.source.line - 1 = (j : Int) := by
    show (j : Int) + 1 - 1 = j
    omega
  obtain ⟨j', hj', htext'⟩ : ∃ j' : Nat,
      (Renumbering.paste pre.length body.length).place j = j' ∧
        (pre ++ body ++ post)[j']? = some text := by
    rcases Nat.lt_or_ge j pre.length with hj | hj
    · refine ⟨j, Renumbering.place_of_lt (by omega), ?_⟩
      rw [List.getElem?_append_left hj] at htext
      rw [List.append_assoc, List.getElem?_append_left hj, htext]
    · refine ⟨j + body.length - 1, ?_, ?_⟩
      · rw [Renumbering.place_of_le (by omega)]
        omega
      · obtain ⟨d, rfl⟩ : ∃ d, j = pre.length + (d + 1) := ⟨j - pre.length - 1, by omega⟩
        rw [List.getElem?_append_right (by omega), Nat.add_sub_cancel_left,
          List.getElem?_cons_succ] at htext
        have hplace : pre.length + (d + 1) + body.length - 1 = (pre ++ body).length + d := by
          rw [List.length_append]
          omega
        rw [hplace, List.getElem?_append_right (by omega), Nat.add_sub_cancel_left, htext]
  rw [hj', Vocabulary.lineAt?_tokenizeFrom, htext']
  refine ⟨_, rfl, (isa.vocabulary true).tokenize_alike rfl, ?_, ?_⟩
  · rw [hnumber]
    exact hkept
  · show (j' : Int) + 1 = _
    rw [Renumbering.number, hnumber, hj']

/-! ### The call and its body -/

namespace LineReading

/-- A reading in a source whose expansions can be pasted. -/
structure Pasteable (v : LineReading) : Prop where
  labels : v.before.pool.isDefining = true → v.line.labels = []
  delimits : v.callers ≠ [] → v.line.delimits = false
  equivalence : v.callers ≠ [] → v.line.isEquivalence = false

instance (v : LineReading) : Decidable v.Pasteable :=
  decidable_of_iff
    ((v.before.pool.isDefining = true → v.line.labels = []) ∧
      (v.callers ≠ [] → v.line.delimits = false) ∧ (v.callers ≠ [] → v.line.isEquivalence = false))
    ⟨fun h => ⟨h.1, h.2.1, h.2.2⟩, fun h => ⟨h.labels, h.delimits, h.equivalence⟩⟩

theorem Pasteable.plain {v : LineReading} (h : v.Pasteable) (ρ : Renumbering) : v.Plain ρ := by
  refine ⟨?_, ?_⟩
  · intro hdefining hlabels
    exact absurd (h.labels hdefining) hlabels
  · intro hcallers hdelimits
    rw [h.delimits hcallers] at hdelimits
    cases hdelimits

theorem exists_of_bodyLine? {v w : LineReading} {c : MacroCall} {r : Reading} {i : Int}
    (h : v.bodyLine? c r i = some w) :
    ∃ body text, Macro.lineAt? v.scope.lines i = some body ∧
      c.callee.substitute v.scope.lines i c.tokens c.counter = .ok text ∧
      w.line = (v.scope.vocabulary.tokenize ⟨text, body.source.file, body.source.line⟩).1 ∧
      w.before = { r with
        log := r.log.addAll (lexicalMessages (Reading.expansionNote c.callee v.line.source.line)
          (v.scope.vocabulary.tokenize ⟨text, body.source.file, body.source.line⟩).2) } := by
  unfold bodyLine? at h
  split at h
  · cases h
  · split at h
    · rename_i body text hbody htext
      cases h
      exact ⟨body, text, hbody, htext, rfl, rfl⟩
    · cases h

theorem exists_text_of_clean {v w : LineReading} {c : MacroCall} {r r₁ : Reading} {i : Int}
    (hw : v.bodyLine? c r i = some w) (hread : v.readBodyLine c r i = .ok r₁)
    (hclean : r₁.log.hasErrors = false) :
    ∃ text, c.callee.substitute v.scope.lines i c.tokens c.counter = .ok text ∧ w.before = r ∧
      ∀ file line, w.line.Alike (v.scope.vocabulary.tokenize ⟨text, file, line⟩).1 ∧
        (v.scope.vocabulary.tokenize ⟨text, file, line⟩).2 = [] := by
  obtain ⟨body, text, -, htext, hline, hbefore⟩ := exists_of_bodyLine? hw
  rw [readBodyLine_of_some hw] at hread
  have hright := clean_of_result hread hclean
  rw [hbefore] at hright
  have hproblems := Vocabulary.eq_nil_of_warnings (Log.hasErrors_addAll_eq_false_iff.1 hright).2
  refine ⟨text, htext, ?_, ?_⟩
  · rw [hbefore, hproblems]
    rfl
  · intro file line
    rw [hline]
    refine ⟨v.scope.vocabulary.tokenize_alike rfl, v.scope.vocabulary.eq_nil_alike ?_ hproblems⟩
    rfl

theorem exists_bodyLine_of_mem {v : LineReading} {c : MacroCall} {is : List Int} {r last : Reading}
    (hread : is.foldlM (v.readBodyLine c) r = .ok last) (hlast : last.log.hasErrors = false)
    {i : Int} (hi : i ∈ is) :
    ∃ r₀ r₁ w, v.bodyLine? c r₀ i = some w ∧ v.readBodyLine c r₀ i = .ok r₁ ∧
      r₁.log.hasErrors = false ∧ w ∈ inTurn (v.bodyReadings c) (v.readBodyLine c) r is := by
  induction is generalizing r with
  | nil => cases hi
  | cons j is ih =>
    rw [List.foldlM_cons] at hread
    obtain ⟨r₁, hfirst, hrest⟩ := exists_of_bind_eq_ok hread
    have hclean := clean_of_foldlM clean_of_readBodyLine hrest hlast
    rw [inTurn, hfirst]
    rcases List.mem_cons.1 hi with rfl | hi
    · obtain ⟨w, hw⟩ := exists_bodyLine?_of_clean hfirst hclean
      refine ⟨r, r₁, w, hw, hfirst, hclean, List.mem_append_left _ ?_⟩
      rw [bodyReadings, hw]
      exact w.self_mem_readings
    · obtain ⟨r₀, r₂, w, hw, hread, hclean, hmem⟩ := ih hrest hi
      exact ⟨r₀, r₂, w, hw, hread, hclean, List.mem_append_right _ hmem⟩

variable {ρ : Renumbering} {n : Int}

/-- The line of a file at the place is what a call makes of the body line at place `i`. -/
structure Pastes (ρ : Renumbering) (v : LineReading) (c : MacroCall) (s' : Scope) (i : Int)
    (p' : TokenLine × Nat) : Prop where
  inside : i ∈ Reading.bodyIndices c.callee
  line : p' ∈ s'.lines.toList.zipIdx
  fresh : ρ.fresh p'.2
  text : ∃ text file, c.callee.substitute v.scope.lines i c.tokens c.counter = .ok text ∧
    p'.1 = (v.scope.vocabulary.tokenize ⟨text, file, p'.2 + 1⟩).1

/-- A line of a body is read in step with the line of a file that is pasted in its place. -/
theorem Pastes.exists_readNext {v : LineReading} {c : MacroCall} {s' : Scope} {i : Int}
    {p' : TokenLine × Nat} (h : Pastes ρ v c s' i p') (hv : v.Proper) (hc : v.call? = some c)
    (hnew : v.line.source.line ∉ v.stack.lines) (hs : v.scope.Moved ρ s') {r r' r₁ : Reading}
    (hr : Reading.InStep ρ n v.scope s' r r') (hpasteable : ∀ w ∈ v.bodyReadings c r i, w.Pasteable)
    (hread : v.readBodyLine c r i = .ok r₁) (hclean : r₁.log.hasErrors = false) :
    ∃ r₁', s'.readNext r' p' = .ok r₁' ∧ Reading.InStep ρ n v.scope s' r₁ r₁' := by
  obtain ⟨w, hw⟩ := exists_bodyLine?_of_clean hread hclean
  obtain ⟨text, file, htext, hline⟩ := h.text
  obtain ⟨text', htext', hbefore, hmade⟩ := exists_text_of_clean hw hread hclean
  obtain rfl : text' = text := Except.ok.inj (htext'.symm.trans htext)
  rw [bodyReadings, hw] at hpasteable
  have hfits := hv.fits_readBodyLine hc hnew h.inside hr.fits hread
  have hcallers : w.callers ≠ [] := by
    rw [(of_bodyLine? hw).2.1]
    exact List.cons_ne_nil _ _
  have hdelimits := (hpasteable w w.self_mem_readings).delimits hcallers
  have hproper' := proper_of_mem_zipIdx hr.fits' h.line
  have hnumber : p'.1.source.line - 1 = p'.2 := by
    rw [hline]
    show (p'.2 : Int) + 1 - 1 = p'.2
    omega
  have hinStep : w.InStep ρ n ⟨s', [], p'.2, p'.1, r'⟩ := by
    refine ⟨hv.bodyLine? hnew hr.fits hw, hproper', ?_, ?_, ?_, ?_, .inr ⟨?_, rfl⟩, ?_⟩
    · rw [(of_bodyLine? hw).1]
      exact hs
    · show w.line.Alike p'.1
      rw [hline]
      exact (hmade _ _).1
    · rw [hbefore]
      exact hr.alike
    · intro k hk
      cases hk
    · rw [hnumber]
      exact h.fresh
    · rw [hdelimits]
      intro hfalse
      cases hfalse
  have hbefore' : r'.log.hasErrors = false := by
    rw [hr.alike.log.hasErrors, clean_of_readBodyLine hread hclean]
  rw [readBodyLine_of_some hw] at hread
  obtain ⟨r₁', hread', halike⟩ :=
    hinStep.exists_result (fun u hu => (hpasteable u hu).plain ρ) hread hclean
  obtain ⟨q', hq', hfits'⟩ := hproper'.exists_result
  cases hread'.symm.trans hq'
  rw [(Scope.readNext_of_clean hbefore' p').1]
  exact ⟨r₁', hread', halike, hfits, hfits'⟩

/-- A call is read in step with the lines that are pasted in its place. -/
theorem exists_foldlM_of_pasted {v : LineReading} {c : MacroCall} (hv : v.Proper)
    (hc : v.call? = some c) {s' : Scope} (hs : v.scope.Moved ρ s') {made : List (TokenLine × Nat)}
    (hmade : List.Forall₂ (Pastes ρ v c s') (Reading.bodyIndices c.callee) made) {r' after : Reading}
    (hr : Reading.InStep ρ n v.scope s' c.entered r') (hpasteable : ∀ w ∈ v.readings, w.Pasteable)
    (hread : v.result = .ok after) (hclean : after.log.hasErrors = false) :
    ∃ after', made.foldlM s'.readNext r' = .ok after' ∧
      Reading.InStep ρ n v.scope s' after after' := by
  have hnew := not_mem_of_clean hc hread hclean
  rw [result_of_some hc, if_neg hnew, if_pos (hv.room hnew)] at hread
  rw [hv.readings_of_expanded hc hnew] at hpasteable
  exact exists_foldlM (Q := Pasteable) clean_of_readBodyLine
    (fun hp hr hpasteable hread hclean => hp.exists_readNext hv hc hnew hs hr hpasteable hread hclean)
    hmade hr (fun w hw => hpasteable w (List.mem_append_right _ hw)) hread hclean

end LineReading

/-! ### The file -/

theorem Reading.defineLabels_of_none {r : Reading} {note : Text} {tokens : List Token}
    (h : leadingLabels tokens = []) : (r.defineLabels note tokens).1 = r := by
  unfold defineLabels
  split
  · rw [leadingLabels] at h
    split at h
    · cases h
    · rename_i hlabel
      rw [if_neg hlabel]
  · rfl

namespace LineReading

theorem before_of_call? {v : LineReading} {c : MacroCall} (hc : v.call? = some c)
    (hlabels : v.line.labels = []) : c.before = v.before := by
  have hright : ¬v.line.isWrong = true := by
    intro hwrong
    rw [call?, Reading.callIn?] at hc
    simp only at hc
    rw [TokenLine.isWrong] at hwrong
    rw [if_pos hwrong] at hc
    cases hc
  rw [TokenLine.labels, if_neg hright] at hlabels
  rw [(of_call? hc).1, Reading.defineLabels_of_none hlabels]

theorem inTurn_append {α : Type} {readings : Reading → α → List LineReading}
    {read : Reading → α → Except Fault Reading} {xs : List α} {r r₁ : Reading}
    (h : xs.foldlM read r = .ok r₁) (ys : List α) :
    inTurn readings read r (xs ++ ys)
      = inTurn readings read r xs ++ inTurn readings read r₁ ys := by
  induction xs generalizing r with
  | nil =>
    cases h
    rfl
  | cons x xs ih =>
    rw [List.foldlM_cons] at h
    obtain ⟨r₂, hfirst, hrest⟩ := exists_of_bind_eq_ok h
    simp only [List.cons_append, inTurn, hfirst, ih hrest, List.append_assoc]

end LineReading

/-- The reading of a line of a file, outside all expansions, with the lines before it and after it. -/
structure LineReading.Divides (v : LineReading) (r stop after : Reading) (lines later : List TokenLine) :
    Prop where
  callers : v.callers = []
  index : v.index = lines.length
  place : v.scope.lines.toList.zipIdx
    = lines.zipIdx ++ (v.line, lines.length) :: later.zipIdx (lines.length + 1)
  before : lines.zipIdx.foldlM v.scope.readNext r = .ok v.before
  result : v.result = .ok after
  rest : (later.zipIdx (lines.length + 1)).foldlM v.scope.readNext after = .ok stop
  clean : after.log.hasErrors = false
  readings : v.scope.readings r = inTurn v.scope.nextReadings v.scope.readNext r lines.zipIdx ++
    (v.readings ++ inTurn v.scope.nextReadings v.scope.readNext after (later.zipIdx (lines.length + 1)))

namespace Scope

theorem exists_divides {s : Scope} {r stop : Reading} (hread : Reading.readLines s r = .ok stop)
    (hstop : stop.log.hasErrors = false) {v : LineReading} (hv : v ∈ s.readings r)
    (houter : v.callers = []) : v.scope = s ∧ ∃ after lines later, v.Divides r stop after lines later := by
  obtain ⟨ys, x, zs, before, hsplit, hbefore, hmem⟩ := LineReading.exists_append_of_mem_inTurn hv
  obtain ⟨lines, rest, -, rfl, hrest⟩ := List.zipIdx_eq_append_iff.1 hsplit
  cases rest with
  | nil => cases hrest
  | cons line later =>
    rw [List.zipIdx_cons, List.cons.injEq, Nat.zero_add] at hrest
    obtain ⟨rfl, rfl⟩ := hrest
    rw [readLines_eq, hsplit, List.foldlM_append, hbefore] at hread
    obtain ⟨after, hafter, hlater⟩ : ∃ after, s.readNext before (line, lines.length) = .ok after ∧
        (later.zipIdx (lines.length + 1)).foldlM s.readNext after = .ok stop := by
      apply exists_of_bind_eq_ok
      rw [← List.foldlM_cons]
      exact hread
    have hclean := LineReading.clean_of_foldlM clean_of_readNext hlater hstop
    obtain ⟨hresult, hown⟩ := readNext_of_clean (clean_of_readNext hafter hclean) (line, lines.length)
    rw [hown] at hmem
    rcases LineReading.callers_of_mem_readings hmem with rfl | hinner
    · refine ⟨rfl, after, lines, later, rfl, rfl, hsplit, hbefore, ?_, hlater, hclean, ?_⟩
      · rw [← hresult, hafter]
      · rw [readings, hsplit, LineReading.inTurn_append hbefore, LineReading.inTurn, hafter, hown]
    · exact absurd houter hinner

/-- A file with the lines of the body in place of the call is read in step. -/
theorem exists_readLines_of_pasted {session : Session} {name : Text} {stop after : Reading}
    {lines later lines' made later' : List TokenLine} {v : LineReading}
    (hv : v.Divides (.start session name) stop after lines later)
    (hstop : stop.log.hasErrors = false)
    (hpasteable : ∀ w ∈ v.scope.readings (.start session name), w.Pasteable) {c : MacroCall}
    (hc : v.call? = some c) (halone : v.line.labels = []) {s' : Scope}
    (hmoved : v.scope.Moved (.paste lines.length made.length) s')
    (hlines' : s'.lines.toList = lines' ++ (made ++ later'))
    (hlength : lines'.length = lines.length) (hlength' : later'.length = later.length)
    (hmade : List.Forall₂ (fun i (p : TokenLine × Nat) => ∃ text file,
        c.callee.substitute v.scope.lines i c.tokens c.counter = .ok text ∧
        p.1 = (v.scope.vocabulary.tokenize ⟨text, file, p.2 + 1⟩).1)
      (Reading.bodyIndices c.callee) (made.zipIdx lines.length)) :
    c.callee.labels = #[] ∧ ∃ stop' n, Reading.readLines s' (.start session name) = .ok stop' ∧
      Reading.InStep (.paste lines.length made.length) n v.scope s' stop stop' := by
  have hplaces' : s'.lines.toList.zipIdx = lines'.zipIdx ++
      (made.zipIdx lines.length ++ later'.zipIdx (lines.length + made.length)) := by
    rw [hlines', List.zipIdx_append, List.zipIdx_append, Nat.zero_add, hlength]
  have hearly (p : TokenLine × Nat) (hp : p ∈ lines.zipIdx 0) : p ∈ v.scope.lines.toList.zipIdx := by
    rw [hv.place]
    exact List.mem_append_left _ hp
  have hearly' (p : TokenLine × Nat) (hp : p ∈ lines'.zipIdx 0) : p ∈ s'.lines.toList.zipIdx := by
    rw [hplaces']
    exact List.mem_append_left _ hp
  have hmiddle (p : TokenLine × Nat) (hp : p ∈ made.zipIdx lines.length) :
      p ∈ s'.lines.toList.zipIdx := by
    rw [hplaces']
    exact List.mem_append_right _ (List.mem_append_left _ hp)
  have hlate (p : TokenLine × Nat) (hp : p ∈ later.zipIdx (lines.length + 1)) :
      p ∈ v.scope.lines.toList.zipIdx := by
    rw [hv.place]
    exact List.mem_append_right _ (List.mem_cons_of_mem _ hp)
  have hlate' (p : TokenLine × Nat) (hp : p ∈ later'.zipIdx (lines.length + made.length)) :
      p ∈ s'.lines.toList.zipIdx := by
    rw [hplaces']
    exact List.mem_append_right _ (List.mem_append_right _ hp)
  have hself : v ∈ v.scope.readings (.start session name) := by
    rw [hv.readings]
    exact List.mem_append_right _ (List.mem_append_left _ v.self_mem_readings)
  have hproper := (proper_of_mem_readings hself).1
  rw [hv.readings] at hpasteable
  -- The lines before the call stay where they are.
  obtain ⟨before', n, hbefore', hbefores⟩ := hmoved.exists_readLines hlength hearly hearly'
    (fun j hj => by
      refine ⟨?_, Renumbering.place_of_lt (by omega)⟩
      show ((0 + j : Nat) : Int) ≠ lines.length
      omega)
    ⟨(Session.Alike.refl session).start name (MacroPool.Moved.fresh name),
      v.scope.fits_start session name, s'.fits_start session name⟩
    (fun w hw => (hpasteable w (List.mem_append_left _ hw)).plain _) hv.before
    (LineReading.clean_of_result hv.result hv.clean)
  -- The call makes the lines that are pasted. No definition is open then, so it does not matter
  -- how far lines stay together.
  have hentered : Reading.InStep (.paste lines.length made.length)
      ((lines.length + 1 : Nat) : Int) v.scope s' c.entered before' := by
    have hpool := hbefores.alike.pool.restart (LineReading.current_of_call? hc)
      ((lines.length + 1 : Nat) : Int)
    refine ⟨?_, hproper.fits_entered hc, hbefores.fits'⟩
    rw [MacroCall.entered, LineReading.before_of_call? hc halone]
    exact hbefores.alike.set_pool { hpool with counter := fun hcounted => hcounted.elim }
  have hpastes : List.Forall₂ (LineReading.Pastes (.paste lines.length made.length) v c s')
      (Reading.bodyIndices c.callee) (made.zipIdx lines.length) := by
    have hinside := (List.forall₂_and_left _ _).2 ⟨fun i hi => hi, hmade⟩
    have hboth := (List.forall₂_and_left _ _).2 ⟨fun p hp => hp, hinside.flip⟩
    refine hboth.flip.imp ?_
    rintro i p ⟨hp, hi, htext⟩
    refine ⟨hi, hmiddle p hp, ?_, htext⟩
    have hlow := List.le_snd_of_mem_zipIdx hp
    have hhigh := List.snd_lt_add_of_mem_zipIdx hp
    show (lines.length : Int) ≤ p.2 ∧ (p.2 : Int) < lines.length + made.length
    omega
  obtain ⟨after', hafter', hafters⟩ := LineReading.exists_foldlM_of_pasted hproper hc hmoved hpastes
    hentered (fun w hw => hpasteable w (List.mem_append_right _ (List.mem_append_left _ hw)))
    hv.result hv.clean
  -- The lines after the call move together.
  obtain ⟨stop', m, hstop', hstops⟩ := hmoved.exists_readLines hlength' hlate hlate'
    (fun j hj => by
      refine ⟨?_, ?_⟩
      · show ((lines.length + 1 + j : Nat) : Int) ≠ lines.length
        omega
      · rw [Renumbering.place_of_le (by omega)]
        omega)
    hafters (fun w hw => (hpasteable w (List.mem_append_right _ (List.mem_append_right _ hw))).plain _)
    hv.rest hstop
  have hcallee := (LineReading.of_call? hc).2.2.1
  rw [LineReading.before_of_call? hc halone] at hcallee
  refine ⟨(hbefores.alike.pool.silent id).1 _ hcallee, stop', m, ?_, hstops⟩
  rw [readLines_eq, hplaces', List.foldlM_append, hbefore']
  show List.foldlM s'.readNext before' _ = _
  rw [List.foldlM_append, hafter']
  exact hstop'

end Scope

/-! ### The program -/

theorem Macro.substitute_of_labels_eq {m : Macro} (h : m.labels = #[]) (lines : Array TokenLine) (i : Int)
    (call : List Token) (counter counter' : Int) :
    m.substitute lines i call counter' = m.substitute lines i call counter := by
  have hlabel (name : Text) : m.hasLabel name = false := by
    rw [hasLabel, h]
    rfl
  have hedits (tokens : List Token) :
      m.edits call counter' tokens = m.edits call counter tokens := by
    induction tokens with
    | nil => rfl
    | cons t tokens ih =>
      have hreplacement : m.replacement call counter' t = m.replacement call counter t := by
        simp only [replacement, hlabel, Bool.and_false, Bool.false_eq_true, if_false]
      rw [edits, edits, ih, hreplacement]
  unfold substitute
  simp only [hedits]

theorem TokenLine.Alike.isEquivalence {l l' : TokenLine} (h : l.Alike l') :
    l'.isEquivalence = l.isEquivalence := by
  rw [TokenLine.isEquivalence, TokenLine.isEquivalence, h.withoutComment.equivalence?]

namespace SourceFile

theorem text_mem_of_mem_lines {name : Text} {texts : List Text} {l : SourceLine}
    (h : l ∈ (ofLines name texts).lines) : l.text ∈ texts := by
  obtain ⟨p, hp, rfl⟩ := List.mem_map.1 h
  exact List.fst_mem_of_mem_zipIdx hp

theorem exists_of_text_mem (name : Text) {texts : List Text} {text : Text} (h : text ∈ texts) :
    ∃ l ∈ (ofLines name texts).lines, l.text = text := by
  obtain ⟨i, hi, rfl⟩ := List.getElem_of_mem h
  exact ⟨_, List.mem_map_of_mem (List.mk_mem_zipIdx_iff_getElem?.2 (List.getElem?_eq_getElem hi)), rfl⟩

end SourceFile

/-- A text that makes no equivalence, and no error. -/
def Vocabulary.Admits (v : Vocabulary) (text : Text) : Prop :=
  ∀ file line, (v.tokenize ⟨text, file, line⟩).1.isEquivalence = false ∧
    (v.tokenize ⟨text, file, line⟩).2 = []

theorem Vocabulary.admits_of_line {v : Vocabulary} {l : SourceLine}
    (hnone : (v.tokenize l).1.isEquivalence = false) (hright : (v.tokenize l).2 = []) :
    v.Admits l.text := by
  intro file line
  have hsame : SourceLine.text ⟨l.text, file, line⟩ = l.text := rfl
  rw [(v.tokenize_alike hsame).isEquivalence]
  exact ⟨hnone, v.eq_nil_alike hsame hright⟩

theorem LineReading.exists_body {v : LineReading} (hv : v.Proper) {c : MacroCall}
    (hc : v.call? = some c) {after : Reading} (hread : v.result = .ok after)
    (hclean : after.log.hasErrors = false) (hpasteable : ∀ w ∈ v.readings, w.Pasteable) :
    ∃ body, List.Forall₂ (fun i text =>
        c.callee.substitute v.scope.lines i c.tokens c.counter = .ok text)
      (Reading.bodyIndices c.callee) body ∧ ∀ text ∈ body, v.scope.vocabulary.Admits text := by
  have hnew := not_mem_of_clean hc hread hclean
  rw [result_of_some hc, if_neg hnew, if_pos (hv.room hnew)] at hread
  rw [hv.readings_of_expanded hc hnew] at hpasteable
  have htext (i : Int) (hi : i ∈ Reading.bodyIndices c.callee) :
      ∃ text, c.callee.substitute v.scope.lines i c.tokens c.counter = .ok text ∧
        v.scope.vocabulary.Admits text := by
    obtain ⟨r, r₁, w, hw, hline, hr₁, hmem⟩ := exists_bodyLine_of_mem hread hclean hi
    obtain ⟨text, htext, -, hmade⟩ := exists_text_of_clean hw hline hr₁
    refine ⟨text, htext, ?_⟩
    intro file line
    obtain ⟨halike, hright⟩ := hmade file line
    have hcallers : w.callers ≠ [] := by
      rw [(of_bodyLine? hw).2.1]
      exact List.cons_ne_nil _ _
    rw [halike.isEquivalence]
    exact ⟨(hpasteable w (List.mem_append_right _ hmem)).equivalence hcallers, hright⟩
  generalize Reading.bodyIndices c.callee = is at htext
  clear hread hpasteable
  induction is with
  | nil => exact ⟨[], .nil, nofun⟩
  | cons i is ih =>
    obtain ⟨text, hfirst, hadmits⟩ := htext i (List.mem_cons_self ..)
    obtain ⟨body, hrest, hall⟩ := ih fun j hj => htext j (List.mem_cons_of_mem _ hj)
    exact ⟨text :: body, .cons hfirst hrest, List.forall_mem_cons.2 ⟨hadmits, hall⟩⟩

theorem forall₂_tokenizeFrom (v : Vocabulary) (name : Text) {α : Type} {R : α → Text → Prop}
    {xs : List α} {body : List Text} (h : List.Forall₂ R xs body) (k : Nat) :
    List.Forall₂ (fun x (p : TokenLine × Nat) => ∃ text file, R x text ∧
        p.1 = (v.tokenize ⟨text, file, p.2 + 1⟩).1) xs ((v.tokenizeFrom name k body).zipIdx k) := by
  induction h generalizing k with
  | nil => exact .nil
  | cons hx _ ih =>
    rw [Vocabulary.tokenizeFrom_cons, List.zipIdx_cons]
    exact .cons ⟨_, name, hx, rfl⟩ (ih (k + 1))

/-- A file with the body in place of the call leaves an alike session. -/
theorem Session.exists_readFile_of_pasted {config : Config} {isa : Registry} {unit : Nat}
    {name : Text} {texts : List Text} {s : Scope}
    (hs : s = ⟨config, isa, unit, ((isa.vocabulary true).tokenizeFrom name 0 texts).toArray⟩)
    {session next : Session} {u : SourceUnit} (hread : session.readFile s name = .ok (next, u))
    (hclean : next.log.hasErrors = false)
    (hpasteable : ∀ w ∈ s.readings (.start session name), w.Pasteable) {v : LineReading}
    (hv : v ∈ s.readings (.start session name)) (houter : v.callers = []) {c : MacroCall}
    (hc : v.call? = some c) (halone : v.line.labels = []) :
    c.callee.labels = #[] ∧ ∃ body,
      (Reading.bodyIndices c.callee).mapM
        (fun i => c.callee.substitute s.lines i c.tokens c.counter) = .ok body ∧
      (∀ text ∈ body, (isa.vocabulary true).Admits text) ∧
      ∃ next' u', session.readFile ⟨config, isa, unit, ((isa.vocabulary true).tokenizeFrom name 0
          (texts.take v.index.toNat ++ body ++ texts.drop (v.index.toNat + 1))).toArray⟩ name
        = .ok (next', u') ∧ next.Alike next' ∧ u.Alike u' := by
  obtain ⟨stop, hstop, hfinish, hstopClean⟩ := exists_of_readFile hread hclean
  obtain ⟨hscope, after, lines, later, hdivides⟩ := Scope.exists_divides hstop hstopClean hv houter
  obtain ⟨hproper, -⟩ := Scope.proper_of_mem_readings hv
  rw [← hscope] at hpasteable hread
  have hown : ∀ w ∈ v.readings, w.Pasteable := by
    intro w hw
    apply hpasteable w
    rw [hdivides.readings]
    exact List.mem_append_right _ (List.mem_append_left _ hw)
  obtain ⟨body, hbody, hadmits⟩ :=
    LineReading.exists_body hproper hc hdivides.result hdivides.clean hown
  -- The lines of the texts before and after the place of the call.
  have hcount : lines.length + (later.length + 1) = texts.length := by
    have hlengths := congrArg List.length hdivides.place
    rw [hscope, hs] at hlengths
    simpa [Vocabulary.length_tokenizeFrom] using hlengths.symm
  have hindex : v.index.toNat = lines.length := by
    rw [hdivides.index, Int.toNat_natCast]
  have hpre : (texts.take lines.length).length = lines.length := by
    rw [List.length_take]
    omega
  obtain ⟨call, hsplit⟩ : ∃ call,
      texts.take lines.length ++ call :: texts.drop (lines.length + 1) = texts := by
    have hlt : lines.length < texts.length := by omega
    exact ⟨texts[lines.length], by rw [← List.drop_eq_getElem_cons, List.take_append_drop]⟩
  have hmoved : v.scope.Moved (.paste lines.length
      ((isa.vocabulary true).tokenizeFrom name lines.length body).length)
      ⟨config, isa, unit, ((isa.vocabulary true).tokenizeFrom name 0
        (texts.take lines.length ++ body ++ texts.drop (lines.length + 1))).toArray⟩ := by
    have hpaste := Scope.moved_paste config isa unit name call (texts.take lines.length) body
      (texts.drop (lines.length + 1))
    rw [hsplit, hpre] at hpaste
    rw [Vocabulary.length_tokenizeFrom, hscope, hs]
    exact hpaste
  have hvocabulary : v.scope.vocabulary = isa.vocabulary true := by
    rw [hscope, hs]
    rfl
  rw [hvocabulary] at hadmits
  have hlines' : (isa.vocabulary true).tokenizeFrom name 0
      (texts.take lines.length ++ body ++ texts.drop (lines.length + 1))
      = (isa.vocabulary true).tokenizeFrom name 0 (texts.take lines.length) ++
        ((isa.vocabulary true).tokenizeFrom name lines.length body ++
          (isa.vocabulary true).tokenizeFrom name (lines.length + body.length)
            (texts.drop (lines.length + 1))) := by
    rw [List.append_assoc, Vocabulary.tokenizeFrom_append, Vocabulary.tokenizeFrom_append, hpre,
      Nat.zero_add]
  obtain ⟨hlabels, stop', n, hstop', hstops⟩ := Scope.exists_readLines_of_pasted hdivides hstopClean
    hpasteable hc halone hmoved hlines' (by rw [Vocabulary.length_tokenizeFrom, hpre])
    (by rw [Vocabulary.length_tokenizeFrom, List.length_drop]; omega)
    (by rw [hvocabulary]; exact forall₂_tokenizeFrom _ _ hbody lines.length)
  obtain ⟨hnext, hu⟩ := hstops.alike.finish hstops.alike.pool.isDefining name
  rw [hfinish] at hnext hu
  refine ⟨hlabels, body, ?_, hadmits, (stop'.finish name).1, (stop'.finish name).2, ?_, hnext, hu⟩
  · rw [← hscope]
    exact mapM_eq_ok_iff.2 hbody
  · rw [hindex]
    unfold readFile
    rw [hstop']
    rfl

def lineReadings (config : Config) (isa : Registry) (files : List SourceFile) : List LineReading :=
  let (log, tokenized) := tokenizeFiles (isa.vocabulary true) (Session.ofConfig config).log files
  { Session.ofConfig config with log := log }.readings config isa 0 tokenized

/-- Calling a macro means pasting its body. In a file without equivalences whose readings are pasteable,
a line that holds nothing but a macro call can be replaced by the lines that the call makes of the
macro's body, under any number of the expansion. If the files make a program, they still do, and the
programs agree. -/
theorem exists_assemble_of_pasted {config : Config} {isa : Registry} {before after : List SourceFile}
    {name : Text} {texts : List Text} {program : Program}
    (h : assemble config isa (before ++ .ofLines name texts :: after) = .ok (.ok program))
    (hnone : (SourceFile.ofLines name texts).DefinesNone (isa.vocabulary true))
    (hpasteable : ∀ w ∈ lineReadings config isa (before ++ .ofLines name texts :: after),
      w.scope.unit = before.length → w.Pasteable)
    {v : LineReading} (hv : v ∈ lineReadings config isa (before ++ .ofLines name texts :: after))
    (hunit : v.scope.unit = before.length) (houter : v.callers = []) {c : MacroCall}
    (hc : v.call? = some c) (halone : v.line.labels = []) (counter : Int) :
    ∃ body program',
      (Reading.bodyIndices c.callee).mapM
        (fun i => c.callee.substitute v.scope.lines i c.tokens counter) = .ok body ∧
      assemble config isa (before ++ .ofLines name
        (texts.take v.index.toNat ++ body ++ texts.drop (v.index.toNat + 1)) :: after)
        = .ok (.ok program') ∧
      program.Agrees program' := by
  obtain ⟨session, units, -, -, hpass, hclean, -⟩ := exists_of_assemble h
  obtain ⟨log, tokenized, last, htokens, hread, -, rfl⟩ := exists_of_firstPass hpass
  have hlast := (Session.patchUnits_of_clean hclean).1
  have hlog : log.hasErrors = false := (Session.reads_of_readFiles hread hlast).2
  obtain ⟨hright, earlier, later, hlength, rfl, hreplace⟩ := exists_tokenizeFiles htokens hlog hnone rfl
  rw [SourceFile.tokenized_ofLines] at htokens hread
  simp only [lineReadings, htokens] at hpasteable hv
  obtain ⟨middle, next, u, hown, hfile, hnext, hothers⟩ := Session.exists_of_readFiles hread hlast
  rw [Nat.zero_add, hlength] at hown hfile hothers
  have hmem := (hown v).2 ⟨hv, hunit⟩
  obtain ⟨hlabels, body, hbody, hadmits, next', u', hfile', hnexts, hu⟩ :=
    Session.exists_readFile_of_pasted rfl hfile hnext
      (fun w hw => hpasteable w ((hown w).1 hw).1 ((hown w).1 hw).2) hmem houter hc halone
  rw [← SourceFile.tokenized_ofLines] at hfile'
  obtain ⟨last', units', hread', hlasts, hunits⟩ := hothers _ _ _ hfile' hnexts hu
  have hall (l : SourceLine) (hl : l ∈ (SourceFile.ofLines name
      (texts.take v.index.toNat ++ body ++ texts.drop (v.index.toNat + 1))).lines) :
      (isa.vocabulary true).Admits l.text := by
    have hold (text : Text) (htext : text ∈ texts) : (isa.vocabulary true).Admits text := by
      obtain ⟨l, hl, rfl⟩ := SourceFile.exists_of_text_mem name htext
      exact Vocabulary.admits_of_line (hnone l hl) (hright l hl)
    have htext := SourceFile.text_mem_of_mem_lines hl
    rw [List.mem_append, List.mem_append] at htext
    rcases htext with (htext | htext) | htext
    · exact hold _ (List.mem_of_mem_take htext)
    · exact hadmits _ htext
    · exact hold _ (List.mem_of_mem_drop htext)
  have htokens' := hreplace _ (fun l hl => (hall l hl l.file l.line).1) rfl
    (fun l hl => (hall l hl l.file l.line).2)
  have hpass' := firstPass_eq_ok htokens' hread'
  obtain ⟨program', hassemble, hagrees⟩ :=
    exists_assemble_of_firstPass h hpass hpass' (hlasts.patchUnits hunits) hunits
  refine ⟨body, program', ?_, hassemble, hagrees⟩
  rw [(Scope.proper_of_mem_readings hmem).2]
  simp only [Macro.substitute_of_labels_eq hlabels _ _ _ c.counter counter]
  exact hbody

/-- The line at place `k` of a source is a macro call, and the body becomes the given lines. -/
def CallMakes (texts : List Text) (k : Nat) (body : List Text) : Prop :=
  ∃ w ∈ lineReadings {} Rv32im.registry [.ofLines "a.s" texts],
    (w.scope.unit = 0 ∧ w.callers = [] ∧ w.index = k ∧ w.line.labels = []) ∧
    ∃ c ∈ w.call?, (Reading.bodyIndices c.callee).mapM
      (fun i => c.callee.substitute w.scope.lines i c.tokens c.counter) = .ok body

instance (texts : List Text) (k : Nat) (body : List Text) : Decidable (CallMakes texts k body) :=
  inferInstanceAs (Decidable (∃ w ∈ lineReadings {} Rv32im.registry [.ofLines "a.s" texts], _ ∧ _))

/-- A macro that calls another twice, and two calls of it. -/
def quadrupleLines : List Text :=
  [".macro double(%r)", "add %r, %r, %r", ".end_macro", ".macro quadruple %r", "double(%r)",
   "double(%r)", ".end_macro", ".text", "quadruple t0", "quadruple t1"]

/-- The first of the calls is pasted. -/
theorem exists_assemble_of_pasted_quadruple :
    ∃ program program',
      assemble {} Rv32im.registry [.ofLines "a.s" quadrupleLines] = .ok (.ok program) ∧
      assemble {} Rv32im.registry [.ofLines "a.s"
        (quadrupleLines.take 8 ++ (["double(t0)", "double(t0)"] : List Text) ++ quadrupleLines.drop 9)]
        = .ok (.ok program') ∧
      program.Agrees program' := by
  have hsource :
      (programInOrder? {} Rv32im.registry [.ofLines "a.s" quadrupleLines]).isSome = true ∧
      (SourceFile.ofLines "a.s" quadrupleLines).DefinesNone (Rv32im.registry.vocabulary true) ∧
      (∀ w ∈ lineReadings {} Rv32im.registry [.ofLines "a.s" quadrupleLines],
        w.scope.unit = 0 → w.Pasteable) ∧
      CallMakes quadrupleLines 8 ["double(t0)", "double(t0)"] := by
    decide +kernel
  obtain ⟨hprogram, hnone, hpasteable, v, hv, ⟨hunit, houter, hindex, halone⟩, c, hc, hbody⟩ := hsource
  obtain ⟨program, hfound⟩ := Option.isSome_iff_exists.1 hprogram
  have hassemble : assemble {} Rv32im.registry ([] ++ .ofLines "a.s" quadrupleLines :: [])
      = .ok (.ok program) := assemble_of_programInOrder? hfound
  obtain ⟨body, program', hbody', hassemble', hagrees⟩ :=
    exists_assemble_of_pasted hassemble hnone hpasteable hv hunit houter hc halone c.counter
  cases hbody.symm.trans hbody'
  rw [hindex] at hassemble'
  exact ⟨program, program', hassemble, hassemble', hagrees⟩

/-! ### Sources that cannot be pasted -/

/-- The text of a source does not show that it depends on expansions: no line defines an equivalence, no
argument of a call is a directive, and no line between the two that delimit a macro has a label. -/
def LooksPasteable (texts : List Text) : Prop :=
  (SourceFile.ofLines "a.s" texts).DefinesNone (Rv32im.registry.vocabulary true) ∧
  ∀ w ∈ lineReadings {} Rv32im.registry [.ofLines "a.s" texts],
    (∀ c ∈ w.call?, ∀ t ∈ c.tokens.tail, t.kind ≠ .directive) ∧
    ∀ m ∈ w.before.pool.macros, ∀ i ∈ Reading.bodyIndices m,
      ∀ l ∈ Macro.lineAt? w.scope.lines i, l.labels = []

instance (texts : List Text) : Decidable (LooksPasteable texts) :=
  inferInstanceAs (Decidable (_ ∧ ∀ w ∈ lineReadings {} Rv32im.registry [.ofLines "a.s" texts], _))

/-- Pasting what the call at place `k` makes changes the bytes of the program. -/
structure PastingFails (texts : List Text) (k : Nat) (body : List Text) : Prop where
  looks : LooksPasteable texts
  call : CallMakes texts k body
  programs : ∃ program program',
    assemble {} Rv32im.registry [.ofLines "a.s" texts] = .ok (.ok program) ∧
    assemble {} Rv32im.registry [.ofLines "a.s" (texts.take k ++ body ++ texts.drop (k + 1))]
      = .ok (.ok program') ∧
    program'.image.written ≠ program.image.written

theorem pastingFails_of_programInOrder? {texts body : List Text} {k : Nat}
    (h : LooksPasteable texts ∧ CallMakes texts k body ∧
      ∃ p ∈ programInOrder? {} Rv32im.registry [.ofLines "a.s" texts],
      ∃ p' ∈ programInOrder? {} Rv32im.registry
        [.ofLines "a.s" (texts.take k ++ body ++ texts.drop (k + 1))],
        p'.image.written ≠ p.image.written) : PastingFails texts k body := by
  obtain ⟨hlooks, hcall, program, hfound, program', hfound', hne⟩ := h
  exact ⟨hlooks, hcall, program, program', assemble_of_programInOrder? hfound,
    assemble_of_programInOrder? hfound', hne⟩

/-- A call makes a line that defines an equivalence. -/
def definingLines : List Text :=
  [".macro define(%d)", ".%d t 5", ".end_macro", "define(eqv)", ".data", "t: .word t"]

/-- A call makes lines that define a macro again, which is the earlier definition by its place. -/
def redefiningLines : List Text :=
  [".macro redefine(%b, %e)", ".%b step", "addi t0, t0, 1", ".%e", ".end_macro", ".macro step",
   "addi t0, t0, 2", ".end_macro", "redefine(macro, end_macro)", "step"]

/-- A macro has a label on the line that ends its definition. -/
def trailingLines : List Text :=
  [".macro leave", "j done", "done: .end_macro", "leave", "leave", "done_M1: nop", "done_M2: nop"]

theorem pastingFails :
    PastingFails definingLines 3 [".eqv t 5"] ∧
    PastingFails redefiningLines 8 [".macro step", "addi t0, t0, 1", ".end_macro"] ∧
    PastingFails trailingLines 3 ["j done_M1"] := by
  refine ⟨?_, ?_, ?_⟩
  all_goals
    apply pastingFails_of_programInOrder?
    decide +kernel

end Rv32Assembler
