import Rv32Assembler.Isa.Rv32im
import Rv32Assembler.Proofs.Counters
import Rv32Assembler.Proofs.Decimal
import Rv32Assembler.Proofs.Definitions
/-!
# Labels of expansions

In an expansion the labels of the macro have names of their own, made from the label and the number of
the expansion. The two can be read off such a name, and no two expansions of a file have one number,
so labels of different expansions never have the same name, and all occurrences of a label in one
expansion have the same.

This is about the labels that were recorded with the macro. They are all labels of its body if the
lines of a file alone start and end definitions. A definition that an expansion makes is recorded from
the lines of the expansion, with the names that labels have there, and read again from the lines of
the file; labels of such a macro keep their names in its expansions.
-/

namespace Rv32Assembler

/-! ### Names -/

namespace Text

theorem decimal_injective {n n' : Int} (h : decimal n = decimal n') : n = n' := by
  have hsplit : (decide (n < 0), digits 10 n.natAbs) = (decide (n' < 0), digits 10 n'.natAbs) := by
    rw [← Literal.splitSign_decimal, ← Literal.splitSign_decimal, h]
  simp only [Prod.mk.injEq, decide_eq_decide] at hsplit
  have hlimit : n.natAbs < max n.natAbs n'.natAbs + 1 := by omega
  have hlimit' : n'.natAbs < max n.natAbs n'.natAbs + 1 := by omega
  have hread := Literal.digits_digits hlimit
  rw [hsplit.2, Literal.digits_digits hlimit'] at hread
  have habs := Except.ok.inj hread
  omega

theorem not_mem_decimal (n : Int) : (0x4d : UInt8) ∉ decimal n := by
  intro h
  rcases isDigit_of_mem_decimal h with h | ⟨d, hd, h⟩
  · cases h
  · revert d
    decide

end Text

theorem append_cons_inj {α : Type} {a : α} {xs xs' ys ys' : List α} (hys : a ∉ ys) (hys' : a ∉ ys')
    (h : xs ++ a :: ys = xs' ++ a :: ys') : xs = xs' ∧ ys = ys' := by
  rcases List.append_eq_append_iff.1 h with ⟨zs, rfl, hzs⟩ | ⟨zs, rfl, hzs⟩
  · cases zs with
    | nil => simpa using hzs
    | cons z zs =>
      rw [List.cons_append] at hzs
      exact absurd (by rw [(List.cons.inj hzs).2]; simp) hys
  · cases zs with
    | nil => simpa using hzs.symm
    | cons z zs =>
      rw [List.cons_append] at hzs
      exact absurd (by rw [(List.cons.inj hzs).2]; simp) hys'

theorem Macro.renamed_injective {l l' : Text} {n n' : Int} (h : renamed l n = renamed l' n') :
    l = l' ∧ n = n' := by
  have hsuffix : Text.ofString "_M" = [0x5f, 0x4d] := by decide
  unfold renamed at h
  rw [hsuffix] at h
  have hlast : (l ++ [0x5f]) ++ 0x4d :: Text.decimal n = (l' ++ [0x5f]) ++ 0x4d :: Text.decimal n' := by
    simpa using h
  obtain ⟨hlabel, hnumber⟩ :=
    append_cons_inj (Text.not_mem_decimal n) (Text.not_mem_decimal n') hlast
  exact ⟨List.append_cancel_right hlabel, Text.decimal_injective hnumber⟩

theorem Macro.replacement_of_isLabel {m : Macro} (hm : m.Ordered) (call : List Token) (counter : Int)
    {t : Token} (ht : t.kind.isLabel = true) :
    m.replacement call counter t
      = .ok (if t.text ∈ m.labels then some (renamed t.text counter) else none) := by
  have hkind : ¬(t.kind == Kind.macroParameter) = true := by
    intro hparameter
    rw [eq_of_beq hparameter] at ht
    cases ht
  unfold replacement
  rw [if_neg hkind, ht, Bool.true_and]
  by_cases hmem : t.text ∈ m.labels
  · rw [if_pos ((hasLabel_iff hm).2 hmem), if_pos hmem]
  · rw [if_neg (mt (hasLabel_iff hm).1 hmem), if_neg hmem]

/-! ### Recorded labels -/

/-- The labels of the lines from place `low` to place `high`, both left out, are among some. -/
def Scope.Records (s : Scope) (low high : Int) (labels : List Text) : Prop :=
  ∀ i, low < i → i < high → ∀ l, Macro.lineAt? s.lines i = some l → ∀ x ∈ l.labels, x ∈ labels

/-- Macros have the labels of their bodies, and the one under definition those up to place `k`. -/
structure Scope.Captures (s : Scope) (k : Int) (p : MacroPool) : Prop where
  macros : ∀ m ∈ p.macros, s.Records m.first m.last m.labels.toList
  current : ∀ m labels, p.current = some (m, labels) → s.Records m.first k labels

namespace Scope.Captures

variable {s : Scope} {k : Int} {p p' : MacroPool}

theorem of_begin (h : s.Captures k p) {operands : List Token} (hbegin : p.begin operands k = .ok p') :
    s.Captures (k + 1) p' := by
  obtain ⟨-, -, name, rest, -, rfl⟩ := MacroPool.begin_eq_ok_iff.1 hbegin
  refine ⟨h.macros, ?_⟩
  rintro m labels ⟨⟩ i hlow hhigh
  simp only [MacroPool.headed] at hlow
  omega

theorem of_commit (h : s.Captures (k + 1) p) {line : Int} {trailing : List Token}
    (hcommit : p.commit k line trailing = .ok p') : s.Captures (k + 1) p' := by
  obtain ⟨-, d, hcurrent, rfl⟩ := MacroPool.commit_eq_ok_iff.1 hcommit
  refine ⟨?_, fun m labels hnone => by cases hnone⟩
  intro n hn
  rcases List.mem_append.1 hn with hn | hn
  · exact h.macros n hn
  · obtain rfl := List.mem_singleton.1 hn
    intro i hlow hhigh l hl x hx
    simp only [MacroPool.closed] at hlow hhigh
    have hmem := h.current d.1 d.2 hcurrent i hlow (by omega) l hl x hx
    exact (List.mergeSort_perm _ _).symm.subset hmem

theorem defineLabels {r : Reading} (h : s.Captures k r.pool) {line : TokenLine}
    (hline : Macro.lineAt? s.lines k = some line) (hwrong : line.isWrong = false) (note : Text) :
    s.Captures (k + 1) (r.defineLabels note line.withoutComment.tokens).1.pool := by
  refine ⟨by rw [r.macros_defineLabels]; exact h.macros, ?_⟩
  intro m labels hcurrent i hlow hhigh l hl x hx
  cases hbefore : r.pool.current with
  | none =>
    rw [Reading.pool_defineLabels hbefore, hbefore] at hcurrent
    cases hcurrent
  | some defining =>
    obtain ⟨m', labels'⟩ := defining
    obtain ⟨more, hmore, hall⟩ :=
      Reading.mem_defineLabels hbefore note line.withoutComment.tokens
    rw [hmore] at hcurrent
    cases hcurrent
    rcases Int.lt_or_eq_of_le (Int.le_of_lt_add_one hhigh) with hlt | rfl
    · exact hall x (.inl (h.current m labels' hbefore i hlow hlt l hl x hx))
    · cases hline.symm.trans hl
      rw [TokenLine.labels, hwrong] at hx
      exact hall x (.inr hx)

theorem plain {v : LineReading} (h : v.scope.Captures v.index v.before.pool)
    (hline : Macro.lineAt? v.scope.lines v.index = some v.line) :
    v.scope.Captures (v.index + 1) v.plain.pool := by
  rw [v.plain_eq]
  split
  · rename_i hwrong
    refine ⟨h.macros, ?_⟩
    intro m labels hcurrent i hlow hhigh l hl x hx
    rcases Int.lt_or_eq_of_le (Int.le_of_lt_add_one hhigh) with hlt | rfl
    · exact h.current m labels hcurrent i hlow hlt l hl x hx
    · cases hline.symm.trans hl
      rw [TokenLine.labels, if_pos hwrong] at hx
      cases hx
  · rename_i hwrong
    have hlabels := h.defineLabels hline (Bool.not_eq_true _ ▸ hwrong) v.note
    have hbefore (hnone : v.before.pool.current = none) :=
      Reading.pool_defineLabels hnone v.note v.line.withoutComment.tokens
    have hdefining := v.before.isDefining_defineLabels v.note v.line.withoutComment.tokens
    generalize (v.before.defineLabels v.note v.line.withoutComment.tokens).1 = r
      at hlabels hbefore hdefining ⊢
    simp only
    split
    · exact hlabels
    · rename_i first rest _
      split
      · rcases r.execute_cases v.note v.index first rest with heq | hbegin | hcommit
        · rw [heq]
          exact hlabels
        · -- A definition starts outside any other, where the labels of the line leave the macros alone.
          have hnone : v.before.pool.current = none := by
            have hnot := MacroPool.isDefining_eq_false_iff.2 (MacroPool.begin_eq_ok_iff.1 hbegin).1
            exact MacroPool.isDefining_eq_false_iff.1 (hdefining.symm.trans hnot)
          rw [hbefore hnone] at hbegin
          exact h.of_begin hbegin
        · exact hlabels.of_commit hcommit
      · split
        · exact hlabels
        · rw [Reading.pool_readPlain]
          exact hlabels

end Scope.Captures

namespace LineReading

/-- No line that an expansion makes starts or ends a definition. -/
def DefinesPlainly (vs : List LineReading) : Prop :=
  ∀ v ∈ vs, v.callers ≠ [] → v.line.delimits = false

instance (vs : List LineReading) : Decidable (DefinesPlainly vs) :=
  inferInstanceAs (Decidable (∀ v ∈ vs, v.callers ≠ [] → v.line.delimits = false))

/-- A line of the file leaves the labels recorded that its readings need. -/
theorem captures_readings {s : Scope} {r r' : Reading} {line : TokenLine} {k : Nat}
    (hproper : Proper ⟨s, [], k, line, r⟩) (hline : Macro.lineAt? s.lines k = some line)
    (h : s.Captures k r.pool) (hread : result ⟨s, [], k, line, r⟩ = .ok r')
    (hplainly : DefinesPlainly (readings ⟨s, [], k, line, r⟩)) :
    s.Captures (k + 1) r'.pool ∧
      ∀ v ∈ readings ⟨s, [], k, line, r⟩, v.before.pool.macros = r.pool.macros := by
  cases hc : call? ⟨s, [], k, line, r⟩ with
  | none =>
    rw [result_of_none hc] at hread
    cases hread
    rw [readings_of_none hc]
    exact ⟨Scope.Captures.plain (v := ⟨s, [], k, line, r⟩) h hline, by simp⟩
  | some c =>
    have hnone : r.pool.current = none := current_of_call? hc
    have hdelimits : ∀ v ∈ readings ⟨s, [], k, line, r⟩, v.line.delimits = false := by
      intro v hv
      rcases callers_of_mem_readings hv with rfl | hcallers
      · exact not_delimits_of_call? hc
      · exact hplainly v hv hcallers
    obtain ⟨hcurrent, hmacros, hall⟩ := (hproper.steps hread).macros hdelimits hnone
    refine ⟨⟨by rw [hmacros]; exact h.macros, ?_⟩, fun v hv => (hall v hv).2⟩
    intro m labels hsome
    rw [hcurrent] at hsome
    cases hsome

end LineReading

theorem Scope.captures_start (s : Scope) (session : Session) (name : Text) :
    s.Captures 0 (Reading.start session name).pool := by
  constructor
  · intro m hm
    cases hm
  · intro m labels hcurrent
    cases hcurrent

/-- In a file whose lines alone delimit definitions, every reading sees macros with all labels of
their bodies. -/
theorem Scope.records_of_definesPlainly {s : Scope} {session : Session} {name : Text}
    (hplainly : LineReading.DefinesPlainly (s.readings (.start session name))) :
    ∀ v ∈ s.readings (.start session name), ∀ m ∈ v.before.pool.macros,
      s.Records m.first m.last m.labels.toList := by
  -- By induction on the lines that are left. When the log is full nothing more is read, so what is
  -- recorded then does not matter.
  have hlines (lines : List TokenLine) (k : Nat) (hsub : s.lines.toList.drop k = lines) (r : Reading)
      (hr : s.Fits r.pool) (hcaptures : r.log.exceeded = true ∨ s.Captures k r.pool)
      (hplainly : LineReading.DefinesPlainly
        (LineReading.inTurn s.nextReadings s.readNext r (lines.zipIdx k))) :
      ∀ v ∈ LineReading.inTurn s.nextReadings s.readNext r (lines.zipIdx k),
        ∀ m ∈ v.before.pool.macros, s.Records m.first m.last m.labels.toList := by
    induction lines generalizing k r with
    | nil =>
      intro v hv
      cases hv
    | cons line lines ih =>
      have hget : s.lines.toList[k]? = some line := by
        rw [← List.head?_drop, hsub]
        rfl
      have hp : (line, k) ∈ s.lines.toList.zipIdx := List.mk_mem_zipIdx_iff_getElem?.2 hget
      have hrest : s.lines.toList.drop (k + 1) = lines := by
        rw [← List.tail_drop, hsub]
        rfl
      obtain ⟨r', hread, hfits, -⟩ := exists_readNext hr hp
      rw [List.zipIdx_cons, LineReading.inTurn, hread] at hplainly ⊢
      have hlater := ih (k + 1) hrest r' hfits
      simp only at hplainly ⊢
      unfold readNext at hread
      unfold nextReadings at hplainly ⊢
      by_cases hfull : r.log.exceeded = true
      · rw [if_pos hfull] at hread hplainly ⊢
        cases hread
        exact hlater (.inl hfull) hplainly
      · rw [if_neg hfull] at hread hplainly ⊢
        have hat : Macro.lineAt? s.lines k = some line := by
          rw [Macro.lineAt?, if_neg (by omega), Int.toNat_natCast, ← Array.getElem?_toList, hget]
        have hcaptured := hcaptures.resolve_left hfull
        obtain ⟨hnext, hmacros⟩ := LineReading.captures_readings
          (LineReading.proper_of_mem_zipIdx hr hp) hat hcaptured hread
          fun v hv => hplainly v (List.mem_append_left _ hv)
        intro v hv
        rcases List.mem_append.1 hv with hv | hv
        · rw [hmacros v hv]
          exact hcaptured.macros
        · exact hlater (.inr hnext) (fun v hv => hplainly v (List.mem_append_right _ hv)) v hv
  exact hlines _ 0 rfl _ (s.fits_start session name) (.inr (s.captures_start session name)) hplainly

/-- No two expansions of a file have the same number, and label and number can be read off a name; so
labels of different expansions have different names. In one expansion every occurrence of a label that
is recorded with the macro gets the name of that label, and nothing else is renamed. Where the lines of
the file alone delimit definitions, all labels of the body are recorded. -/
theorem renamed_of_readings (s : Scope) (session : Session) (name : Text) :
    (s.readings (.start session name)).Pairwise (fun v w =>
      ∀ c d, v.expansion? = some c → w.expansion? = some d →
        ∀ l l' : Text, Macro.renamed l c.counter ≠ Macro.renamed l' d.counter) ∧
    (∀ (l l' : Text) (n n' : Int), Macro.renamed l n = Macro.renamed l' n' → l = l' ∧ n = n') ∧
    (∀ v ∈ s.readings (.start session name), ∀ c, v.expansion? = some c → ∀ t : Token,
      t.kind.isLabel = true → c.callee.replacement c.tokens c.counter t
        = .ok (if t.text ∈ c.callee.labels then some (Macro.renamed t.text c.counter) else none)) ∧
    (LineReading.DefinesPlainly (s.readings (.start session name)) →
      ∀ v ∈ s.readings (.start session name), ∀ c, v.expansion? = some c →
        ∀ i ∈ Reading.bodyIndices c.callee, ∀ l, Macro.lineAt? s.lines i = some l →
          ∀ x ∈ l.labels, x ∈ c.callee.labels) := by
  refine ⟨?_, fun l l' n n' => Macro.renamed_injective, ?_, ?_⟩
  · obtain ⟨r, -, hsteps⟩ := s.exists_readLines session name
    have hcounters := List.pairwise_filterMap.1 hsteps.counts.pairwise
    refine hcounters.imp ?_
    intro v w hlt c d hc hd l l' hsame
    have hcounter := hlt c.counter (by rw [hc]; rfl) d.counter (by rw [hd]; rfl)
    have hequal := (Macro.renamed_injective hsame).2
    omega
  · intro v hv c hc t ht
    obtain ⟨hproper, -⟩ := Scope.proper_of_mem_readings hv
    obtain ⟨hcall, -⟩ := LineReading.expansion?_eq_some_iff.1 hc
    have hmem := (LineReading.of_call? hcall).2.2.1
    exact Macro.replacement_of_isLabel ((hproper.fits_call hcall).ordered _ hmem) _ _ ht
  · intro hplainly v hv c hc i hi l hl x hx
    obtain ⟨hcall, -⟩ := LineReading.expansion?_eq_some_iff.1 hc
    have hmem := (LineReading.of_call? hcall).2.2.1
    rw [LineReading.pool_before hcall] at hmem
    have hbounds := Reading.mem_bodyIndices hi
    exact Array.mem_toList_iff.1
      (Scope.records_of_definesPlainly hplainly v hv _ hmem i hbounds.1 hbounds.2 l hl x hx)

/-- Two macros, of which one has the label that the other has in its expansion. -/
def spinSource : SourceFile :=
  .ofText "a.s" (".macro spin\nloop: j loop\n.end_macro\n.macro turn\nloop_M1: j loop_M1\n.end_macro\n"
    ++ ".text\nspin\nturn\n")

def spinReadings : List LineReading :=
  (spinSource.scope {} Rv32im.registry).readings (.start (.ofConfig {}) "a.s")

/-- The macro `spin` is defined by an expansion. -/
def definingSource : SourceFile :=
  .ofText "a.s" (".macro define(%begin, %end)\n%begin spin\nloop: j loop\n%end\n.end_macro\n.text\n"
    ++ "define(.macro, .end_macro)\nspin\nspin\n")

/-- The first source has its labels renamed apart. In the second, where an expansion delimits a
definition, the label of the body is not the one that is recorded, and the two expansions of the macro
define it twice. -/
theorem renamed_of_spinSources :
    (∃ v w c d, spinReadings[7]? = some v ∧ spinReadings[9]? = some w ∧ v.expansion? = some c ∧
      w.expansion? = some d ∧ LineReading.DefinesPlainly spinReadings ∧
      Text.ofString "loop" ∈ c.callee.labels ∧
      Macro.renamed "loop" c.counter ≠ Macro.renamed "loop_M1" d.counter) ∧
    (Macro.lineAt? (definingSource.scope {} Rv32im.registry).lines 2).map TokenLine.labels
      = some [Text.ofString "loop"] ∧
    (Reading.readLines (definingSource.scope {} Rv32im.registry)
        (.start (.ofConfig {}) "a.s")).toOption.map (fun r =>
          (r.pool.macros.map fun m => (m.name, m.labels), r.log.messages.map Message.text))
      = some ([(Text.ofString "define", #[Text.ofString "loop"]),
            (Text.ofString "spin", #[Text.ofString "loop_M1"])],
          [Text.ofString "label \"loop\" already defined at 0x00400000"]) := by
  refine ⟨?_, by decide +kernel⟩
  have hsource : LineReading.DefinesPlainly spinReadings ∧
      spinReadings[7]?.map (fun v => v.expansion?.map fun c =>
        decide ((1 : Int) ∈ Reading.bodyIndices c.callee)) = some (some true) ∧
      spinReadings[9]?.map (fun w => w.expansion?.isSome) = some true ∧
      (Macro.lineAt? (spinSource.scope {} Rv32im.registry).lines 1).map TokenLine.labels
        = some [Text.ofString "loop"] := by
    decide +kernel
  obtain ⟨hplainly, hfirst, hsecond, hline⟩ := hsource
  obtain ⟨v, hv, hcall⟩ := Option.map_eq_some_iff.1 hfirst
  obtain ⟨c, hc, hbody⟩ := Option.map_eq_some_iff.1 hcall
  obtain ⟨w, hw, hsome⟩ := Option.map_eq_some_iff.1 hsecond
  obtain ⟨d, hd⟩ := Option.isSome_iff_exists.1 hsome
  obtain ⟨l, hl, hlabels⟩ := Option.map_eq_some_iff.1 hline
  obtain ⟨hpairs, -, -, hrecorded⟩ :=
    renamed_of_readings (spinSource.scope {} Rv32im.registry) (.ofConfig {}) "a.s"
  refine ⟨v, w, c, d, hv, hw, hc, hd, hplainly, ?_, ?_⟩
  · exact hrecorded hplainly v (List.mem_of_getElem? hv) c hc 1 (of_decide_eq_true hbody) l hl _
      (by rw [hlabels]; exact List.mem_singleton.2 rfl)
  · obtain ⟨hv', rfl⟩ := List.getElem?_eq_some_iff.1 hv
    obtain ⟨hw', rfl⟩ := List.getElem?_eq_some_iff.1 hw
    exact List.pairwise_iff_getElem.1 hpairs 7 9 hv' hw' (by decide) c d hc hd _ _

end Rv32Assembler
