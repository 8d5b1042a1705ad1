import Rv32Assembler.Isa.Rv32im
import Rv32Assembler.Proofs.Counters
import Rv32Assembler.Proofs.Inclusion
/-!
# The guard against endless expansion

A call is refused when a call on a line of the same number is being expanded, in whatever file that
line is. So a call that leads back to itself is always refused, but so is one that lies in another
file than the calls around it and has the number of one of them. Where a number stands for one file,
the guard is exact.
-/

namespace Rv32Assembler

namespace LineReading

/-- The call is answered with the message about expansion loops, and with nothing else. -/
def Refused (v : LineReading) (c : MacroCall) : Prop :=
  v.result = .ok (c.before.report v.note c.first .expansionLoop)

/-- A call on a line of this number is being expanded. -/
def MeetsNumber (v : LineReading) : Prop := ∃ d ∈ v.callers, d.site.line = v.line.source.line

/-- A call on this line of this file is being expanded. -/
def Recurs (v : LineReading) : Prop :=
  ∃ d ∈ v.callers, d.site.file = v.line.source.file ∧ d.site.line = v.line.source.line

theorem Recurs.meetsNumber {v : LineReading} (h : v.Recurs) : v.MeetsNumber := by
  obtain ⟨d, hd, -, hline⟩ := h
  exact ⟨d, hd, hline⟩

theorem mem_stack_iff {v : LineReading} : v.line.source.line ∈ v.stack.lines ↔ v.MeetsNumber :=
  List.mem_map

/-- A call that is expanded does not end like one that is refused, for it has a number. -/
theorem Proper.counter_le_of_expanded {v : LineReading} (h : v.Proper) {c : MacroCall}
    (hc : v.expansion? = some c) {r : Reading} (hr : v.result = .ok r) :
    c.counter ≤ r.pool.counter := by
  have hcounts := (h.steps hr).counts
  have hmem : c.counter ∈ counters v.readings := by
    rw [readings]
    exact List.mem_filterMap.2 ⟨v, List.mem_cons_self .., by rw [hc]; rfl⟩
  have hle := hcounts.le
  rw [hcounts.numbers, List.mem_range'_1] at hmem
  omega

theorem Proper.refused_iff {v : LineReading} (h : v.Proper) {c : MacroCall} (hc : v.call? = some c) :
    v.Refused c ↔ v.MeetsNumber := by
  constructor
  · intro hrefused
    by_contra hfree
    have hexpanded : v.expansion? = some c :=
      expansion?_eq_some_iff.2 ⟨hc, mt mem_stack_iff.1 hfree⟩
    have hcounter := h.counter_le_of_expanded hexpanded hrefused
    exact Nat.not_succ_le_self _ hcounter
  · intro hnumber
    rw [Refused, result_of_some hc, if_pos (mem_stack_iff.2 hnumber)]

end LineReading

/-- Lines of one number are lines of one file. -/
def Scope.SeparatesNumbers (s : Scope) : Prop :=
  ∀ l ∈ s.lines.toList, ∀ l' ∈ s.lines.toList,
    l.source.line = l'.source.line → l.source.file = l'.source.file

theorem Scope.SeparatesNumbers.file_eq {s : Scope} (h : s.SeparatesNumbers) {site site' : SourceLine}
    (hsite : s.Has site) (hsite' : s.Has site') (hline : site.line = site'.line) :
    site.file = site'.file := by
  obtain ⟨l, hl, hfile, hnumber⟩ := hsite
  obtain ⟨l', hl', hfile', hnumber'⟩ := hsite'
  rw [← hfile, ← hfile']
  exact h l hl l' hl' (by rw [hnumber, hnumber', hline])

namespace LineReading

theorem Proper.recurs_iff {v : LineReading} (h : v.Proper) (hs : v.scope.SeparatesNumbers) :
    v.Recurs ↔ v.MeetsNumber := by
  refine ⟨Recurs.meetsNumber, ?_⟩
  rintro ⟨d, hd, hline⟩
  exact ⟨d, hd, hs.file_eq (h.callers d hd) h.site hline, hline⟩

end LineReading

/-- The guard refuses a call exactly when a call on a line of its number is being expanded. It misses
no call that leads back to itself. What it refuses beyond these are the calls that have the number of
a caller in another file and of none in their own, and there are none where the lines of one number
are of one file. -/
theorem refused_iff_of_mem_readings {s : Scope} {session : Session} {name : Text} {v : LineReading}
    (hv : v ∈ s.readings (.start session name)) {c : MacroCall} (hc : v.call? = some c) :
    (v.Refused c ↔ v.MeetsNumber) ∧
    (v.Recurs → v.Refused c) ∧
    (v.Refused c ∧ ¬v.Recurs ↔ v.MeetsNumber ∧
        ∀ d ∈ v.callers, d.site.line = v.line.source.line → d.site.file ≠ v.line.source.file) ∧
    (s.SeparatesNumbers → (v.Refused c ↔ v.Recurs)) := by
  obtain ⟨hproper, rfl⟩ := Scope.proper_of_mem_readings hv
  have hrefused := hproper.refused_iff hc
  refine ⟨hrefused, fun h => hrefused.2 h.meetsNumber, ?_, fun hs => ?_⟩
  · rw [hrefused]
    refine and_congr_right fun _ => ⟨?_, ?_⟩
    · intro hfree d hd hline hfile
      exact hfree ⟨d, hd, hfile, hline⟩
    · rintro hfiles ⟨d, hd, hfile, hline⟩
      exact hfiles d hd hline hfile
  · rw [hrefused, hproper.recurs_iff hs]

/-- A macro of an included file that calls another twice, the first time on the line of the number
that the call of the macro has in the file that includes it. -/
def clashingStore : FileStore :=
  .tree [("main.s", ".include \"lib.s\"\n.text\nnop\nnop\ntwice\n"),
    ("lib.s", ".macro one\nnop\n.end_macro\n.macro twice\none\none\n.end_macro\n")]

/-- Its files as one. -/
def clashingSource : SourceFile :=
  { name := "main.s"
    lines :=
      [⟨".macro one", "lib.s", 1⟩, ⟨"nop", "lib.s", 2⟩, ⟨".end_macro", "lib.s", 3⟩,
       ⟨".macro twice", "lib.s", 4⟩, ⟨"one", "lib.s", 5⟩, ⟨"one", "lib.s", 6⟩,
       ⟨".end_macro", "lib.s", 7⟩, ⟨".text", "main.s", 2⟩, ⟨"nop", "main.s", 3⟩,
       ⟨"nop", "main.s", 4⟩, ⟨"twice", "main.s", 5⟩] }

/-- The first file includes the other in its first line. -/
def clashingExpansion : SourceFile.Expansion :=
  .opened ⟨".include \"lib.s\"", "main.s", 1⟩ "lib.s" ((clashingSource.lines.take 7).foldr .kept .done)
    ((clashingSource.lines.drop 7).foldr .kept .done)

theorem load_clashingStore : SourceFile.load clashingStore "main.s" = .ok clashingSource := by
  obtain ⟨text, hread, hown⟩ : ∃ text, clashingStore.read "main.s" = .ok text ∧
      clashingExpansion.own = SourceFile.splitLines "main.s" text := by decide +kernel
  have hfollows : clashingExpansion.Follows clashingStore ["main.s"] "main.s" := by decide +kernel
  have hsource : clashingSource
      = ⟨"main.s", clashingExpansion.lines, clashingExpansion.messages⟩ := by decide +kernel
  rw [hsource]
  exact SourceFile.load_of_follows hread hown hfollows

/-- The first call of `one` is refused, and nothing calls itself. -/
theorem refused_of_clashingSource :
    SourceFile.load clashingStore "main.s" = .ok clashingSource ∧
    ∃ v ∈ (clashingSource.scope {} Rv32im.registry).readings (.start (.ofConfig {}) "main.s"), ∃ c,
      v.call? = some c ∧ v.line.source = ⟨"one", "lib.s", 5⟩ ∧
      v.callers.map (fun d => (d.site.file, d.site.line)) = [(Text.ofString "main.s", 5)] ∧
      v.Refused c ∧ ¬v.Recurs := by
  refine ⟨load_clashingStore, ?_⟩
  have hcall : ((clashingSource.scope {} Rv32im.registry).readings
      (.start (.ofConfig {}) "main.s"))[11]?.map (fun v => (v.call?.isSome, v.line.source,
        v.callers.map fun d => (d.site.file, d.site.line)))
      = some (true, ⟨"one", "lib.s", 5⟩, [(Text.ofString "main.s", 5)]) := by
    decide +kernel
  obtain ⟨v, hv, hfacts⟩ := Option.map_eq_some_iff.1 hcall
  simp only [Prod.mk.injEq] at hfacts
  obtain ⟨hsome, hsource, hcallers⟩ := hfacts
  obtain ⟨c, hc⟩ := Option.isSome_iff_exists.1 hsome
  have hmem := List.mem_of_getElem? hv
  have hsites (P : Text → Int → Prop) : (∃ d ∈ v.callers, P d.site.file d.site.line) ↔ P "main.s" 5 := by
    have hmap : (∃ p ∈ v.callers.map fun d => (d.site.file, d.site.line), P p.1 p.2)
        ↔ ∃ d ∈ v.callers, P d.site.file d.site.line := by
      simp
    rw [← hmap, hcallers]
    simp
  refine ⟨v, hmem, c, hc, hsource, hcallers, ?_, ?_⟩
  · apply (refused_iff_of_mem_readings hmem hc).1.2
    rw [LineReading.MeetsNumber, hsites fun _ line => line = v.line.source.line, hsource]
  · rw [LineReading.Recurs, hsource, hsites fun file line => file = "lib.s" ∧ line = 5]
    decide

end Rv32Assembler
