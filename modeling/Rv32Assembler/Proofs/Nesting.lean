import Mathlib.Data.List.Perm.Subperm
import Rv32Assembler.Isa.Rv32im
import Rv32Assembler.Proofs.Readings
/-!
# Nested expansions

The first pass once more, as a machine whose call stack and list of notes are part of its state: it
adds to both on the way into a macro, takes from both on the way out, and stops when more expansions
nest than it is allowed (`Expanding.readLine`). In every state that a file leads to, the machine comes
to the state that the first pass comes to, with stack and notes as they were, and as many levels as
the file has line numbers are enough, for the lines on the stack are different lines of the file.
-/

namespace Rv32Assembler

/-- The numbers of the lines of a file, each once. -/
def Scope.lineNumbers (s : Scope) : List Int := (s.lines.toList.map fun l => l.source.line).dedup

theorem Scope.Has.mem_lineNumbers {s : Scope} {site : SourceLine} (h : s.Has site) :
    site.line ∈ s.lineNumbers := by
  obtain ⟨l, hl, -, hline⟩ := h
  exact List.mem_dedup.2 (List.mem_map.2 ⟨l, hl, hline⟩)

structure Expanding where
  reading : Reading
  stack : CallStack
  /-- The names of the expansions under way, innermost first. -/
  notes : List Text

namespace Expanding

inductive Stop where
  | fault (fault : Fault)
  /-- One expansion too many would nest. -/
  | tooDeep
  deriving DecidableEq

def note (e : Expanding) : Text := e.notes.headD []

/-- Enters the macro that the line with the number calls, unless that line is on the stack. -/
def enter (e : Expanding) (c : MacroCall) (line : Int) : Option Expanding :=
  (e.stack.push? line).map fun stack =>
    ⟨c.entered, stack, Reading.expansionNote c.callee line :: e.notes⟩

def leave (e : Expanding) : Expanding := { e with stack := e.stack.pop, notes := e.notes.tail }

/-- Reads the body line at place `i`, by way of `next`. -/
def expandLine (s : Scope) (c : MacroCall) (next : Int → TokenLine → Expanding → Except Stop Expanding)
    (e : Expanding) (i : Int) : Except Stop Expanding :=
  if e.reading.log.exceeded then .ok e
  else
    match Macro.lineAt? s.lines i with
    | none => .error (.fault (.expansion .missingLine))
    | some body =>
      match c.callee.substitute s.lines i c.tokens c.counter with
      | .error error =>
        if error.isFault then .error (.fault (.expansion error))
        else
          let reading := e.reading.record
            { file := body.source.file, line := body.source.line, text := error.message }
          .ok { e with reading := reading }
      | .ok text =>
        let (line, problems) :=
          s.vocabulary.tokenize ⟨text, body.source.file, body.source.line⟩
        let log := e.reading.log.addAll (lexicalMessages e.note problems)
        next i line { e with reading := { e.reading with log := log } }

def readLine (s : Scope) (levels : Nat) (index : Int) (line : TokenLine) (e : Expanding) :
    Except Stop Expanding :=
  match e.reading.callIn? e.note line with
  | none => .ok { e with reading := e.reading.readPlainLine s e.note index line }
  | some c =>
    match e.enter c line.source.line with
    | none => .ok { e with reading := c.before.report e.note c.first .expansionLoop }
    | some inner =>
      match levels with
      | 0 => .error .tooDeep
      | levels + 1 =>
        ((Reading.bodyIndices c.callee).foldlM (expandLine s c (readLine s levels)) inner).map leave

/-- Reads the next line of a file, unless the log is full. -/
def readNext (s : Scope) (levels : Nat) (e : Expanding) (p : TokenLine × Nat) :
    Except Stop Expanding :=
  if e.reading.log.exceeded then .ok e else readLine s levels p.2 p.1 e

def readLines (s : Scope) (levels : Nat) (e : Expanding) : Except Stop Expanding :=
  s.lines.toList.zipIdx.foldlM (readNext s levels) e

end Expanding

namespace LineReading

/-- The machine before the reading, or after it with another state. -/
def machine (v : LineReading) (r : Reading) : Expanding := ⟨r, v.stack, v.notes⟩

/-- The machine in the body of a call. -/
def machineWithin (v : LineReading) (c : MacroCall) (r : Reading) : Expanding :=
  ⟨r, .ofCallers (v.inner c), Reading.expansionNote c.callee v.line.source.line :: v.notes⟩

/-! ### Depth -/

theorem Proper.lines_subset {v : LineReading} (h : v.Proper) :
    v.stack.lines ⊆ v.scope.lineNumbers := by
  intro line hline
  obtain ⟨c, hc, rfl⟩ := List.mem_map.1 hline
  exact (h.callers c hc).mem_lineNumbers

theorem Proper.depth_lt {v : LineReading} (h : v.Proper) (hnew : v.line.source.line ∉ v.stack.lines) :
    v.stack.depth < v.scope.lineNumbers.length := by
  have hdistinct : (v.line.source.line :: v.stack.lines).Nodup := List.nodup_cons.2 ⟨hnew, h.distinct⟩
  have hsubset : v.line.source.line :: v.stack.lines ⊆ v.scope.lineNumbers :=
    List.cons_subset.2 ⟨h.site.mem_lineNumbers, h.lines_subset⟩
  exact (List.subperm_of_subset hdistinct hsubset).length_le

theorem Proper.depth_le {v : LineReading} (h : v.Proper) :
    v.stack.depth ≤ v.scope.lineNumbers.length :=
  (List.subperm_of_subset h.distinct h.lines_subset).length_le

/-! ### The machine in step with the first pass -/

theorem expandLine_of_some {v w : LineReading} {c : MacroCall} {r : Reading} {i : Int}
    (h : v.bodyLine? c r i = some w)
    (next : Int → TokenLine → Expanding → Except Expanding.Stop Expanding) :
    Expanding.expandLine v.scope c next (v.machineWithin c r) i
      = next w.index w.line (w.machine w.before) := by
  unfold bodyLine? at h
  unfold Expanding.expandLine
  split at h
  · cases h
  · rename_i hfull
    have hfull' : ¬(v.machineWithin c r).reading.log.exceeded = true := hfull
    rw [if_neg hfull']
    split at h
    · rename_i body text hbody htext
      cases h
      simp only [hbody, htext]
      rfl
    · cases h

theorem expandLine_of_none {v : LineReading} {c : MacroCall} {r r' : Reading} {i : Int}
    (h : v.bodyLine? c r i = none) (hread : v.readBodyLine c r i = .ok r')
    (next : Int → TokenLine → Expanding → Except Expanding.Stop Expanding) :
    Expanding.expandLine v.scope c next (v.machineWithin c r) i = .ok (v.machineWithin c r') := by
  unfold bodyLine? at h
  unfold readBodyLine Reading.expandLine at hread
  unfold Expanding.expandLine
  by_cases hfull : r.log.exceeded = true
  · rw [if_pos hfull] at hread
    cases hread
    exact if_pos hfull
  · have hfull' : ¬(v.machineWithin c r).reading.log.exceeded = true := hfull
    rw [if_neg hfull] at h hread
    rw [if_neg hfull']
    cases hbody : Macro.lineAt? v.scope.lines i with
    | none =>
      rw [hbody] at hread
      cases hread
    | some body =>
      cases htext : c.callee.substitute v.scope.lines i c.tokens c.counter with
      | ok text =>
        rw [hbody, htext] at h
        cases h
      | error e =>
        simp only [hbody, htext] at hread ⊢
        split at hread
        · cases hread
        · rename_i hfault
          cases hread
          rw [if_neg hfault]
          rfl

/-- In step with the readings of body lines, the machine reads a body. -/
theorem machine_readBody {v : LineReading} (h : v.Proper) {c : MacroCall} (hc : v.call? = some c)
    (hnew : v.line.source.line ∉ v.stack.lines)
    {next : Int → TokenLine → Expanding → Except Expanding.Stop Expanding}
    (hnext : ∀ {w : LineReading} {r : Reading} {i : Int}, v.bodyLine? c r i = some w → w.Proper →
      ∀ {r' : Reading}, w.result = .ok r' → next w.index w.line (w.machine w.before) = .ok (w.machine r'))
    {places : List Int} (hplaces : ∀ i ∈ places, i ∈ Reading.bodyIndices c.callee) {r r' : Reading}
    (hr : v.scope.Fits r.pool) (hread : places.foldlM (v.readBodyLine c) r = .ok r') :
    places.foldlM (Expanding.expandLine v.scope c next) (v.machineWithin c r)
      = .ok (v.machineWithin c r') := by
  induction places generalizing r with
  | nil =>
    cases hread
    rfl
  | cons i places ih =>
    rw [List.foldlM_cons] at hread ⊢
    cases hfirst : v.readBodyLine c r i with
    | error fault =>
      rw [hfirst] at hread
      cases hread
    | ok r₁ =>
      have hi := hplaces i (List.mem_cons_self ..)
      have hr₁ := h.fits_readBodyLine hc hnew hi hr hfirst
      have hstep : Expanding.expandLine v.scope c next (v.machineWithin c r) i
          = .ok (v.machineWithin c r₁) := by
        cases hw : v.bodyLine? c r i with
        | none => exact expandLine_of_none hw hfirst next
        | some w =>
          rw [readBodyLine_of_some hw] at hfirst
          rw [expandLine_of_some hw, hnext hw (h.bodyLine? hnew hr hw) hfirst]
          obtain ⟨-, hcallers, -⟩ := of_bodyLine? hw
          simp only [machine, machineWithin, stack, notes, hcallers]
          rfl
      rw [hfirst] at hread
      rw [hstep]
      exact ih (fun i hi => hplaces i (List.mem_cons_of_mem _ hi)) hr₁ hread

/-- The machine comes to what the first pass comes to, and its stack and notes are as before. -/
theorem Proper.machine_readLine {v : LineReading} (h : v.Proper) {levels : Nat}
    (hlevels : v.scope.lineNumbers.length ≤ v.stack.depth + levels) {r : Reading}
    (hr : v.result = .ok r) :
    Expanding.readLine v.scope levels v.index v.line (v.machine v.before) = .ok (v.machine r) := by
  unfold Expanding.readLine
  cases hc : v.call? with
  | none =>
    have hcall : (v.machine v.before).reading.callIn? (v.machine v.before).note v.line = none := hc
    rw [result_of_none hc] at hr
    cases hr
    rw [hcall]
    rfl
  | some c =>
    have hcall : (v.machine v.before).reading.callIn? (v.machine v.before).note v.line = some c := hc
    simp only [hcall]
    rw [result_of_some hc] at hr
    by_cases hnew : v.line.source.line ∈ v.stack.lines
    · rw [if_pos hnew] at hr
      cases hr
      have henter : (v.machine v.before).enter c v.line.source.line = none := by
        unfold Expanding.enter machine
        rw [CallStack.push?_eq_none_iff.2 hnew]
        rfl
      rw [henter]
      rfl
    · -- The number of the line is not on the stack yet, so there is a level left for the call.
      have hdepth := h.depth_lt hnew
      obtain ⟨levels, rfl⟩ : ∃ n, levels = n + 1 := ⟨levels - 1, by omega⟩
      rw [if_neg hnew, if_pos (h.room hnew)] at hr
      have henter : (v.machine v.before).enter c v.line.source.line
          = some (v.machineWithin c c.entered) := by
        unfold Expanding.enter machine CallStack.push?
        rw [if_neg (by simpa using hnew)]
        rfl
      rw [henter]
      have hnext {w : LineReading} {r : Reading} {i : Int} (hw : v.bodyLine? c r i = some w)
          (hproper : w.Proper) {r' : Reading} (hr' : w.result = .ok r') :
          Expanding.readLine v.scope levels w.index w.line (w.machine w.before) = .ok (w.machine r') := by
        obtain ⟨hscope, hcallers, -⟩ := of_bodyLine? hw
        have hdeeper : w.stack.depth = v.stack.depth + 1 := by
          rw [stack, hcallers]
          rfl
        rw [← hscope]
        exact hproper.machine_readLine (by rw [hscope, hdeeper]; omega) hr'
      have hbody := machine_readBody h hc hnew hnext (fun i hi => hi) (h.fits_entered hc) hr
      simp only [hbody]
      rfl
termination_by levels

end LineReading

/-! ### Files -/

/-- The machine before a file, or after it with another state. -/
def Reading.machine (r : Reading) : Expanding := ⟨r, {}, []⟩

theorem Scope.machine_readNext {s : Scope} {r r' : Reading} (hr : s.Fits r.pool)
    {p : TokenLine × Nat} (hp : p ∈ s.lines.toList.zipIdx) (hread : s.readNext r p = .ok r')
    {levels : Nat} (hlevels : s.lineNumbers.length ≤ levels) :
    Expanding.readNext s levels r.machine p = .ok r'.machine := by
  unfold readNext at hread
  split at hread
  · rename_i hfull
    cases hread
    exact if_pos hfull
  · rename_i hfull
    have hproper := LineReading.proper_of_mem_zipIdx hr hp
    exact (if_neg hfull).trans (hproper.machine_readLine (Nat.le_trans hlevels (by omega)) hread)

/-- The first pass over a file comes to an end, and the machine comes to the same. -/
theorem Scope.machine_readLines {s : Scope} {r : Reading} (hr : s.Fits r.pool) :
    ∃ r', Reading.readLines s r = .ok r' ∧
      ∀ levels, s.lineNumbers.length ≤ levels →
        Expanding.readLines s levels r.machine = .ok r'.machine := by
  have hlines (lines : List (TokenLine × Nat)) (hsub : ∀ p ∈ lines, p ∈ s.lines.toList.zipIdx) :
      ∃ r', lines.foldlM s.readNext r = .ok r' ∧ ∀ levels, s.lineNumbers.length ≤ levels →
        lines.foldlM (Expanding.readNext s levels) r.machine = .ok r'.machine := by
    induction lines generalizing r with
    | nil => exact ⟨r, rfl, fun _ _ => rfl⟩
    | cons p lines ih =>
      have hp := hsub p (List.mem_cons_self ..)
      obtain ⟨r₁, hr₁, hfits, -⟩ := exists_readNext hr hp
      obtain ⟨r', hread, hmachine⟩ := ih hfits fun q hq => hsub q (List.mem_cons_of_mem _ hq)
      refine ⟨r', ?_, ?_⟩
      · rw [List.foldlM_cons, hr₁]
        exact hread
      · intro levels hlevels
        rw [List.foldlM_cons, machine_readNext hr hp hr₁ hlevels]
        exact hmachine levels hlevels
  exact hlines _ fun p hp => hp

/-- Reading a file comes to an end, and so does reading any line of it in any state that this leads
to. At most as many expansions nest as the file has line numbers, and the call stack and the notes are
afterwards what they were before. -/
theorem readLine_balanced (s : Scope) (session : Session) (name : Text) :
    (∃ r, Reading.readLines s (.start session name) = .ok r ∧
      ∀ levels, s.lineNumbers.length ≤ levels →
        Expanding.readLines s levels ⟨.start session name, {}, []⟩ = .ok ⟨r, {}, []⟩) ∧
    ∀ v ∈ s.readings (.start session name),
      v.stack.depth ≤ s.lineNumbers.length ∧
      ∀ (index : Int) (line : TokenLine), 0 ≤ index → index < s.lines.size → s.Has line.source →
        ∃ r, Reading.readLine s v.stack v.note index line v.before = .ok r ∧
          ∀ levels, s.lineNumbers.length ≤ v.stack.depth + levels →
            Expanding.readLine s levels index line ⟨v.before, v.stack, v.notes⟩
              = .ok ⟨r, v.stack, v.notes⟩ := by
  refine ⟨s.machine_readLines (s.fits_start session name), ?_⟩
  intro v hv
  obtain ⟨hproper, rfl⟩ := Scope.proper_of_mem_readings hv
  refine ⟨hproper.depth_le, ?_⟩
  intro index line hlow hhigh hsite
  have hline : LineReading.Proper { v with index := index, line := line } :=
    { hproper with index := ⟨hlow, hhigh⟩, site := hsite }
  obtain ⟨r, hr, -⟩ := hline.exists_result
  exact ⟨r, hr, fun levels hlevels => hline.machine_readLine hlevels hr⟩

def pingPong : SourceFile :=
  .ofText "a.s" ".macro ping\npong\n.end_macro\n.macro pong\nping\n.end_macro\nping\n"

/-- The third call in each other is refused, and the stack still has three lines. -/
theorem readLine_balanced_pingPong :
    ∃ v ∈ (pingPong.scope {} Rv32im.registry).readings (.start (.ofConfig {}) "a.s"),
      v.stack.lines = [5, 2, 7] ∧ v.line.source = ⟨"pong", "a.s", 2⟩ ∧
      ∃ r, r.log.errorCount = 1 ∧
        Expanding.readLine (pingPong.scope {} Rv32im.registry) 4 v.index v.line
          ⟨v.before, v.stack, v.notes⟩ = .ok ⟨r, v.stack, v.notes⟩ := by
  have hlast : ((pingPong.scope {} Rv32im.registry).readings (.start (.ofConfig {}) "a.s"))[9]?.map
      (fun v => (v.stack.lines, v.line.source, v.index,
        decide ((pingPong.scope {} Rv32im.registry).Has v.line.source),
        v.result.toOption.map fun r => r.log.errorCount))
      = some ([5, 2, 7], ⟨"pong", "a.s", 2⟩, 1, true, some 1) := by
    decide +kernel
  obtain ⟨v, hv, hfacts⟩ := Option.map_eq_some_iff.1 hlast
  simp only [Prod.mk.injEq, decide_eq_true_eq, Option.map_eq_some_iff] at hfacts
  obtain ⟨hstack, hsource, hindex, hsite, r, hr, hcount⟩ := hfacts
  have hmem := List.mem_of_getElem? hv
  have hsize : (pingPong.scope {} Rv32im.registry).lines.size = 7 := by decide +kernel
  have hnumbers : (pingPong.scope {} Rv32im.registry).lineNumbers.length = 7 := by decide +kernel
  obtain ⟨-, hlines⟩ :=
    (readLine_balanced (pingPong.scope {} Rv32im.registry) (.ofConfig {}) "a.s").2 v hmem
  obtain ⟨r', hr', hmachine⟩ := hlines v.index v.line (by omega) (by omega) hsite
  have hlevels : (pingPong.scope {} Rv32im.registry).lineNumbers.length ≤ v.stack.depth + 4 := by
    rw [hnumbers, CallStack.depth, hstack]
    decide
  obtain ⟨-, hscope⟩ := Scope.proper_of_mem_readings hmem
  have hsame : v.result = .ok r' := by
    rw [LineReading.result, hscope]
    exact hr'
  rw [hsame] at hr
  cases hr
  exact ⟨v, hmem, hstack, hsource, _, hcount, hmachine 4 hlevels⟩

end Rv32Assembler
