import Rv32Assembler.Proofs.Files
import Rv32Assembler.Proofs.Placement
import Rv32Assembler.Proofs.Resolution
/-!
# Successful runs

A run that makes a program went through all its stages without an error (`Run`): the chain of files,
the patches after it, the resolution of every statement and the placement of what they became. What is
to be shown of a program is read off these stages.

`programInOrder?` finds the program without sorting; it serves the sources whose machine statements
come in the order of their addresses.
-/

namespace Rv32Assembler

/-- The stages of a run that makes a program. -/
structure Run (config : Config) (isa : Registry) (files : List SourceFile) (program : Program) where
  /-- The session after the last file. -/
  session : Session
  units : List SourceUnit
  /-- The image when all pending data is patched. -/
  patched : Image MachineStatement
  /-- The machine statements of each statement, file by file. -/
  expansions : List (List MachineStatement)
  reads : ∃ log tokenized,
    tokenizeFiles (isa.vocabulary true) (Session.ofConfig config).log files = (log, tokenized) ∧
    Session.Reads config isa 0 { Session.ofConfig config with log := log } tokenized
      (moments config isa files) units session
  clean : session.log.hasErrors = false
  firstPass : firstPass config isa files = .ok ({ session with image := patched }, units)
  patches :
    Image.ChangesWithin (units.flatMap fun u => u.pending.map Pending.range) session.image patched
  patchedBytes : Session.ItemsPatched session.global units patched
  resolved : List.Forall₂ (fun (p : SourceUnit × Statement) ms =>
    p.2.resolve isa ⟨p.1.labels, session.global⟩ = .ok ms)
    (units.flatMap fun u => u.parsed.map fun s => (u, s)) expansions
  statements : program.statements.Perm expansions.flatten
  ordered : program.statements.Pairwise fun a b => a.address < b.address
  places :
    Image.ChangesWithin (program.statements.map MachineStatement.range) patched program.image
  placed : ∀ m ∈ program.statements, m.PlacedIn program.image
  global : program.global = session.global
  locals : program.locals = units.map fun u => (u.name, u.labels)

theorem exists_of_firstPass {config : Config} {isa : Registry} {files : List SourceFile}
    {session : Session} {units : List SourceUnit}
    (h : firstPass config isa files = .ok (session, units)) :
    ∃ log tokenized last,
      tokenizeFiles (isa.vocabulary true) (Session.ofConfig config).log files = (log, tokenized) ∧
      { Session.ofConfig config with log := log }.readFiles config isa 0 tokenized
        = .ok (last, units) ∧
      moments config isa files
        = { Session.ofConfig config with log := log }.moments config isa 0 tokenized ∧
      session = last.patchUnits units := by
  unfold firstPass at h
  cases htokens : tokenizeFiles (isa.vocabulary true) (Session.ofConfig config).log files with
  | mk log tokenized =>
    simp only [htokens] at h
    cases hread : { Session.ofConfig config with log := log }.readFiles config isa 0 tokenized with
    | error fault =>
      rw [hread] at h
      cases h
    | ok result =>
      obtain ⟨last, units'⟩ := result
      rw [hread] at h
      cases h
      refine ⟨log, tokenized, last, rfl, hread, ?_, rfl⟩
      simp only [moments, htokens]

/-- The stages of both passes. -/
theorem exists_of_assemble {config : Config} {isa : Registry} {files : List SourceFile}
    {program : Program} (h : assemble config isa files = .ok (.ok program)) :
    ∃ session units log machine, firstPass config isa files = .ok (session, units) ∧
      session.log.hasErrors = false ∧
      resolveUnits isa session.global session.log units = .ok (log, machine) ∧
      ({ session with log := log }.generate machine).1.log.hasErrors = false ∧
      program = ({ session with log := log }.generate machine).1.program config units
        ({ session with log := log }.generate machine).2 := by
  unfold assemble at h
  cases hfirst : firstPass config isa files with
  | error fault =>
    rw [hfirst] at h
    cases h
  | ok result =>
    obtain ⟨session, units⟩ := result
    simp only [hfirst, bind, Except.bind] at h
    cases hclean : session.log.hasErrors with
    | true =>
      rw [if_pos hclean] at h
      cases h
    | false =>
      simp only [hclean, secondPass, Bool.false_eq_true, if_false] at h
      cases hresolve : resolveUnits isa session.global session.log units with
      | error fault =>
        rw [hresolve] at h
        cases h
      | ok result =>
        obtain ⟨log, machine⟩ := result
        simp only [hresolve, bind, Except.bind, pure, Except.pure] at h
        cases hgenerated : ({ session with log := log }.generate machine).1.log.hasErrors with
        | true =>
          simp only [hgenerated, Bool.true_or, if_true] at h
          cases h
        | false =>
          refine ⟨session, units, log, machine, rfl, hclean, hresolve, hgenerated, ?_⟩
          split at h
          · cases h
          · exact (Except.ok.inj (Except.ok.inj h)).symm

/-- A run that makes a program has these stages. -/
theorem nonempty_run {config : Config} {isa : Registry} {files : List SourceFile}
    {program : Program} (h : assemble config isa files = .ok (.ok program)) :
    Nonempty (Run config isa files program) := by
  obtain ⟨session, units, log, machine, hfirst, hclean, hresolve, hgenerated, rfl⟩ :=
    exists_of_assemble h
  obtain ⟨start, tokenized, last, htokens, hread, hmoments, rfl⟩ := exists_of_firstPass hfirst
  obtain ⟨hlast, patched, hpatch, hpatches, hpatchedBytes⟩ := Session.patchUnits_of_clean hclean
  obtain ⟨hreads, -⟩ := Session.reads_of_readFiles hread hlast
  obtain ⟨image, hgenerate, hperm, hordered, hplaces, hplaced⟩ := generate_of_clean hgenerated
  rw [hgenerate] at hgenerated
  obtain ⟨-, expansions, hresolved, rfl⟩ := resolveUnits_of_clean hresolve hgenerated
  rw [← hmoments] at hreads
  simp only [hpatch] at hfirst hresolved hplaces hgenerate hperm hordered ⊢
  refine ⟨{ session := last, units := units, patched := patched, expansions := expansions,
            reads := ⟨start, tokenized, htokens, hreads⟩, clean := hlast, firstPass := hfirst,
            patches := hpatches, patchedBytes := hpatchedBytes, resolved := hresolved,
            statements := hperm, ordered := hordered, places := ?_, placed := ?_, global := ?_,
            locals := rfl }⟩
  · rw [hgenerate]
    refine hplaces.mono ?_
    intro r hr x hx
    exact ⟨r, (hperm.map _).symm.subset hr, hx⟩
  · rw [hgenerate]
    intro m hm
    exact hplaced m (hperm.subset hm)
  · rw [hgenerate]
    rfl

/-! ### A test for success -/

/-- The program of a source whose machine statements come in the order of their addresses, without
sorting them. -/
def programInOrder? (config : Config) (isa : Registry) (files : List SourceFile) :
    Option Program :=
  match firstPass config isa files with
  | .error _ => none
  | .ok (session, units) =>
    if session.log.hasErrors then none
    else
      match resolveUnits isa session.global session.log units with
      | .error _ => none
      | .ok (log, machine) =>
        let placed := machine.foldl (fun s m => m.place s) { session with log := log }
        if (machine.Pairwise fun a b => a.address < b.address) ∧
            !(placed.log.hasErrors || (config.warningsAreErrors && placed.log.hasWarnings)) then
          some (placed.program config units machine)
        else none

theorem assemble_of_programInOrder? {config : Config} {isa : Registry} {files : List SourceFile}
    {program : Program} (h : programInOrder? config isa files = some program) :
    assemble config isa files = .ok (.ok program) := by
  unfold programInOrder? at h
  unfold assemble
  cases hfirst : firstPass config isa files with
  | error fault =>
    rw [hfirst] at h
    cases h
  | ok result =>
    obtain ⟨session, units⟩ := result
    simp only [hfirst] at h
    cases hclean : session.log.hasErrors with
    | true =>
      rw [if_pos hclean] at h
      cases h
    | false =>
      simp only [hclean, Bool.false_eq_true, if_false] at h
      cases hresolve : resolveUnits isa session.global session.log units with
      | error fault =>
        rw [hresolve] at h
        cases h
      | ok result =>
        obtain ⟨log, machine⟩ := result
        simp only [hresolve] at h
        split at h
        · rename_i hcond
          have hgenerate : { session with log := log }.generate machine
              = (machine.foldl (fun s m => m.place s) { session with log := log }, machine) := by
            simp only [Session.generate, MachineStatement.mergeSort_eq_self hcond.1,
              MachineStatement.clashes_eq_nil hcond.1]
            rfl
          have hpassed := hcond.2
          rw [Bool.not_eq_true'] at hpassed
          simp only [bind, Except.bind, pure, Except.pure, hclean, secondPass, hresolve, hgenerate,
            hpassed, Bool.false_eq_true, if_false]
          rw [Option.some.inj h]
        · cases h

end Rv32Assembler
