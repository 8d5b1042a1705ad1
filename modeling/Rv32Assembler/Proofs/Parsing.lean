import Rv32Assembler.Proofs.Regular
/-!
# Parsed statements

What the first pass has found out about a statement when it records it: its form is the one selected
for its operands, the operands fit the places of the form, and its tokens are what their kinds say.
The words of such a statement are in the image of the program.
-/

namespace Rv32Assembler

/-- What holds of every statement that the first pass records. -/
structure Statement.Parsed (isa : Registry) (s : Statement) : Prop where
  select : Instruction.select (isa.lookup s.operator.text) s.operands = some s.instruction
  check : s.instruction.check s.operator s.operands = none
  lexed : ∀ t ∈ s.tokens, t.Lexed (isa.vocabulary true)

theorem Instruction.forall₂_of_check {i : Instruction} {operator : Token} {operands : List Token}
    (h : i.check operator operands = none) :
    List.Forall₂ (fun required (t : Token) => (required.fit t.kind).isOk = true) i.format
      operands := by
  unfold check at h
  split at h
  · cases h
  · rename_i hfew
    split at h
    · cases h
    · rename_i hmany
      rw [List.getElem?_eq_none_iff] at hmany
      refine List.forall₂_iff_zip.2 ⟨by omega, ?_⟩
      intro required t hpair
      have hnone := List.findSome?_eq_none_iff.1 h (required, t) hpair
      simp only [Option.map_eq_none_iff] at hnone
      unfold operandError? at hnone
      split at hnone
      · rename_i hfit
        rw [hfit]
        rfl
      · rename_i hfit
        rw [hfit]
        rfl
      · cases hnone
      · split at hnone <;> cases hnone

namespace Statement.Parsed

variable {isa : Registry} {s : Statement}

theorem mem_forms (h : s.Parsed isa) : s.instruction ∈ isa.forms :=
  List.mem_of_mem_filter (Instruction.mem_of_select h.select)

theorem fits (h : s.Parsed isa) :
    List.Forall₂ (fun required (t : Token) => (required.fit t.kind).isOk = true)
      s.instruction.format s.operands := Instruction.forall₂_of_check h.check

theorem exists_place (h : s.Parsed isa) {t : Token} (ht : t ∈ s.operands) :
    ∃ (place : Nat) (required : Kind), s.instruction.format[place]? = some required ∧
      s.operands[place]? = some t ∧ (required.fit t.kind).isOk = true := by
  obtain ⟨place, hplace⟩ := List.mem_iff_getElem?.1 ht
  have hlength := h.fits.length_eq
  obtain ⟨hlt, rfl⟩ := List.getElem?_eq_some_iff.1 hplace
  refine ⟨place, s.instruction.format[place], List.getElem?_eq_getElem _, hplace, ?_⟩
  exact h.fits.get (by omega) hlt

end Statement.Parsed

theorem Kind.eq_identifier_of_fit {required provided : Kind}
    (h : (required.fit provided).isOk = true) (hlabel : provided.isLabel = true)
    (hoperator : required ≠ .operator) : required = .identifier := by
  revert h hlabel hoperator
  cases required <;> cases provided <;> decide

/-! ### The first pass -/

/-- An action adds at most a statement whose form was found and whose operands fit. -/
theorem Action.Effect.parsed {s : Scope} {r r' : Reading} {a : Action} (h : a.Effect s r r')
    (hregular : a.Regular s.vocabulary) (hr : ∀ st ∈ r.parsed, st.Parsed s.isa) :
    ∀ st ∈ r'.parsed, st.Parsed s.isa := by
  cases h with
  | quiet hquiet =>
    rw [hquiet.parsed]
    exact hr
  | label | external | move => exact hr
  | store _ _ hparsed =>
    rw [hparsed]
    exact hr
  | parse _ haction hoperator hselect hcheck =>
    rw [haction] at hregular
    intro st hst
    rcases List.mem_append.1 hst with hst | hst
    · exact hr st hst
    · rw [List.mem_singleton.1 hst]
      exact ⟨hselect, hcheck, hregular⟩

theorem Scope.parsed_performAll {s : Scope} {r : Reading} {actions : List Action}
    (hregular : ∀ a ∈ actions, a.Regular s.vocabulary) (hr : ∀ st ∈ r.parsed, st.Parsed s.isa) :
    ∀ st ∈ (s.performAll r actions).parsed, st.Parsed s.isa := by
  induction actions generalizing r with
  | nil => exact hr
  | cons a actions ih =>
    refine ih (fun b hb => hregular b (List.mem_cons_of_mem _ hb)) ?_
    exact (Action.effect_perform s r a).parsed (hregular a (List.mem_cons_self ..)) hr

theorem Session.Reads.parsed {config : Config} {isa : Registry} {unit : Nat}
    {session last : Session} {files : List (Text × Array TokenLine)} {moments : List Moment}
    {units : List SourceUnit} (h : Reads config isa unit session files moments units last)
    (hlexed : ∀ f ∈ files, ∀ l ∈ f.2.toList, l.Lexed (isa.vocabulary true)) {u : SourceUnit}
    (hu : u ∈ units) : ∀ s ∈ u.parsed, s.Parsed isa := by
  induction h with
  | nil => cases hu
  | @cons _ session _ _ name _ _ _ _ _ s actions stop hscope hactions hstop _ hfinishes _ ih =>
    rcases List.mem_cons.1 hu with rfl | hu
    · subst hscope hactions hstop
      rw [hfinishes.parsed]
      refine Scope.parsed_performAll ?_ fun st hst => absurd hst List.not_mem_nil
      exact (Reading.allRegular_fileActions (hlexed _ (List.mem_cons_self ..)) _).regular
    · exact ih (fun f hf => hlexed f (List.mem_cons_of_mem _ hf)) hu

namespace Run

variable {config : Config} {isa : Registry} {files : List SourceFile} {program : Program}

theorem parsed (run : Run config isa files program) {u : SourceUnit} (hu : u ∈ run.units)
    {s : Statement} (hs : s ∈ u.parsed) : s.Parsed isa := by
  obtain ⟨log, tokenized, htokens, hreads⟩ := run.reads
  exact hreads.parsed (fun f hf l hl => lexed_of_tokenizeFiles htokens hf hl) hu s hs

/-- A parsed statement was resolved, and the image has the words that it became. -/
theorem exists_of_parsed (run : Run config isa files program) {u : SourceUnit}
    (hu : u ∈ run.units) {s : Statement} (hs : s ∈ u.parsed) :
    ∃ ms, s.resolve isa ⟨u.labels, program.global⟩ = .ok ms ∧
      ∀ m ∈ ms, program.image.word m.address = .ok m.code := by
  have hpair : (u, s) ∈ run.units.flatMap fun u => u.parsed.map fun s => (u, s) :=
    List.mem_flatMap.2 ⟨u, hu, List.mem_map_of_mem hs⟩
  obtain ⟨ms, hms, hresolve⟩ := exists_of_forall₂ run.resolved hpair
  rw [run.global]
  refine ⟨ms, hresolve, fun m hm => ?_⟩
  have hmem : m ∈ program.statements :=
    run.statements.symm.subset (List.mem_flatten.2 ⟨ms, hms, hm⟩)
  exact (run.placed m hmem).word

end Run

end Rv32Assembler
