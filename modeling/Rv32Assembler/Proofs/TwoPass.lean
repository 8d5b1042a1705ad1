import Rv32Assembler.Proofs.Run
/-!
# Agreement of the two passes

The first pass only reserves room for the words of a statement; the second finds out what they are,
and every step on that way may drop the statement with an error. So in a run that makes a program
nothing is lost, doubled, moved or overwritten between the passes: the program's statements are the
words of the parsed statements, each at the address reserved for it, and memory holds them there. This
is so for any registers, any forms and any functions that encode them.
-/

namespace Rv32Assembler

namespace Run

variable {config : Config} {isa : Registry} {files : List SourceFile} {program : Program}

theorem layout_eq (run : Run config isa files program) : program.image.layout = config.layout := by
  obtain ⟨log, tokenized, -, hreads⟩ := run.reads
  rw [run.places.layout, run.patches.layout, hreads.changesWithin.layout]
  rfl

theorem expandsTo (run : Run config isa files program) :
    List.Forall₂ Statement.ExpandsTo (run.units.flatMap SourceUnit.parsed) run.expansions := by
  have hpairs : run.units.flatMap SourceUnit.parsed
      = (run.units.flatMap fun u => u.parsed.map fun s => (u, s)).map Prod.snd := by
    simp [List.map_flatMap]
  rw [hpairs, List.forall₂_map_left_iff]
  exact run.resolved.imp fun p ms hresolve => Statement.expandsTo_of_resolve hresolve

end Run

/-- The statements of a program are the words of the statements parsed in the first pass and nothing
else. They stand in the strict order of their addresses, which are multiples of four in a text
segment, and memory holds each of them with its word. -/
theorem statements_of_assemble {config : Config} {isa : Registry} {files : List SourceFile}
    {program : Program} (h : assemble config isa files = .ok (.ok program)) :
    ∃ session units expansions, firstPass config isa files = .ok (session, units) ∧
      List.Forall₂ Statement.ExpandsTo (units.flatMap SourceUnit.parsed) expansions ∧
      program.statements.Perm expansions.flatten ∧
      program.statements.Pairwise (fun a b => a.address < b.address) ∧
      ∀ m ∈ program.statements, m.address.toNat % 4 = 0 ∧
        config.layout.inText m.address = true ∧
        program.image.word m.address = .ok m.code ∧
        program.image.statement m.address = some m := by
  obtain ⟨run⟩ := nonempty_run h
  refine ⟨_, run.units, run.expansions, run.firstPass, run.expandsTo, run.statements, run.ordered,
    ?_⟩
  intro m hm
  have hplaced := run.placed m hm
  have htext := hplaced.inText
  rw [run.layout_eq] at htext
  exact ⟨hplaced.aligned, htext, hplaced.word, hplaced.statement⟩

/-- Four registers, an instruction with a format of its own, and a pseudo-instruction of three. -/
def exchanging : Registry where
  registers := .ofNames ["zero", "ra", "sp", "gp"] [("fp", 3)]
  forms :=
    [⟨"move", "move ra,sp", "Copy a register", [.registerName, .registerName],
      .basic false (.custom fun values =>
        match values with
        | [target, source] => .ok (BitVec.ofInt 32 (0x100 * target + source))
        | _ => .error .missingOperand)⟩,
     ⟨"swap", "swap ra,sp", "Exchange two registers", [.registerName, .registerName],
      .extended ["move gp, RG1", "move RG1, RG2", "move RG2, fp"]⟩]

def exchangingSource : List SourceFile :=
  [{ name := "a.s", lines := [⟨"main: swap x1, sp", "a.s", 1⟩, ⟨"move zero, fp", "a.s", 2⟩] }]

theorem statements_of_exchangingSource :
    ∃ program, assemble {} exchanging exchangingSource = .ok (.ok program) ∧
      program.statements.map (fun m => (m.address, m.code))
        = [(0x400000, 0x301), (0x400004, 0x102), (0x400008, 0x203), (0x40000c, 0x003)] ∧
      ∀ m ∈ program.statements, program.image.word m.address = .ok m.code := by
  have hprogram : (programInOrder? {} exchanging exchangingSource).map
      (fun p => p.statements.map fun m => (m.address, m.code))
        = some [(0x400000, 0x301), (0x400004, 0x102), (0x400008, 0x203), (0x40000c, 0x003)] := by
    decide +kernel
  obtain ⟨program, hfound, hwords⟩ := Option.map_eq_some_iff.1 hprogram
  have hassemble := assemble_of_programInOrder? hfound
  obtain ⟨_, _, _, -, -, -, -, hplaced⟩ := statements_of_assemble hassemble
  exact ⟨program, hassemble, hwords, fun m hm => (hplaced m hm).2.2.1⟩

end Rv32Assembler
