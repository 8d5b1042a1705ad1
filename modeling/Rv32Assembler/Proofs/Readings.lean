import Rv32Assembler.Proofs.LabelOrder
import Rv32Assembler.Proofs.Likeness
/-!
# Readings of lines

The lines that the first pass over a file reads, in order: those of the file and, where a line is a
macro call, those that the call makes of the macro's body. A reading knows the calls that lead to it,
so what is said of nested expansions is said of readings. A line without a call is read in one go
(`result_of_none`), a call reads the lines of its body in turn unless its own line is on the stack
(`result_of_some`).

A file whose macros lie within it (`Scope.Fits`) keeps them there, and then no reading is a fault and
what the first pass does is what its readings do, each by one of few steps (`Steps`). What holds of
every step holds of a file.
-/

namespace Rv32Assembler

/-- A macro call under expansion: the line that it stands on, and the macro. -/
structure Caller where
  site : SourceLine
  callee : Macro
  deriving DecidableEq

/-- The line numbers of the calls. -/
def CallStack.ofCallers (callers : List Caller) : CallStack := ⟨callers.map fun c => c.site.line⟩

/-- One reading of a line. -/
structure LineReading where
  scope : Scope
  /-- The calls that lead to the line, innermost first. -/
  callers : List Caller
  index : Int
  line : TokenLine
  /-- The state in which the line is read. -/
  before : Reading

/-- A macro call that a line comes to. -/
structure MacroCall where
  /-- The state after the labels of the line. -/
  before : Reading
  first : Token
  callee : Macro
  /-- The macro's name and the arguments. -/
  tokens : List Token

/-- The number of the expansion, should the call be expanded. -/
def MacroCall.counter (c : MacroCall) : Nat := c.before.pool.counter + 1

/-- The state in which the body is read. -/
def MacroCall.entered (c : MacroCall) : Reading :=
  { c.before with pool := c.before.pool.nextCounter.2 }

/-- The macro call that a line comes to. -/
def Reading.callIn? (r : Reading) (note : Text) (line : TokenLine) : Option MacroCall :=
  let tokens := line.withoutComment.tokens
  if tokens.any fun t => t.kind == .error then none
  else
    let (r, tokens) := r.defineLabels note tokens
    match tokens with
    | [] => none
    | first :: rest =>
      if first.kind == .directive || r.pool.isDefining then none
      else (r.called? (first :: rest)).map fun (m, call) => ⟨r, first, m, call⟩

/-- Reads a line without a macro call. -/
def Reading.readPlainLine (r : Reading) (s : Scope) (note : Text) (index : Int) (line : TokenLine) :
    Reading :=
  let tokens := line.withoutComment.tokens
  if tokens.any fun t => t.kind == .error then r
  else
    let (r, tokens) := r.defineLabels note tokens
    match tokens with
    | [] => r
    | first :: rest =>
      if first.kind == .directive then r.execute note index first rest
      else if r.pool.isDefining then r
      else r.readPlain s note line first rest

namespace LineReading

def stack (v : LineReading) : CallStack := .ofCallers v.callers

def notes (v : LineReading) : List Text :=
  v.callers.map fun c => Reading.expansionNote c.callee c.site.line

def note (v : LineReading) : Text := v.notes.headD []

def result (v : LineReading) : Except Fault Reading :=
  Reading.readLine v.scope v.stack v.note v.index v.line v.before

def call? (v : LineReading) : Option MacroCall := v.before.callIn? v.note v.line

def plain (v : LineReading) : Reading := v.before.readPlainLine v.scope v.note v.index v.line

/-- The calls under expansion in the body of a call. -/
def inner (v : LineReading) (c : MacroCall) : List Caller := ⟨v.line.source, c.callee⟩ :: v.callers

/-- The reading of the body line at place `i` from a state on, unless the line is refused. -/
def bodyLine? (v : LineReading) (c : MacroCall) (r : Reading) (i : Int) : Option LineReading :=
  if r.log.exceeded then none
  else
    match Macro.lineAt? v.scope.lines i, c.callee.substitute v.scope.lines i c.tokens c.counter with
    | some body, .ok text =>
      let (line, problems) :=
        v.scope.vocabulary.tokenize ⟨text, body.source.file, body.source.line⟩
      let note := Reading.expansionNote c.callee v.line.source.line
      some ⟨v.scope, v.inner c, i, line,
        { r with log := r.log.addAll (lexicalMessages note problems) }⟩
    | _, _ => none

/-- Reads the body line at place `i`. -/
def readBodyLine (v : LineReading) (c : MacroCall) : Reading → Int → Except Fault Reading :=
  Reading.expandLine v.scope c.callee c.tokens c.counter
    (Reading.expansionNote c.callee v.line.source.line)
    fun i line r => result ⟨v.scope, v.inner c, i, line, r⟩

def readBody (v : LineReading) (c : MacroCall) : Except Fault Reading :=
  (Reading.bodyIndices c.callee).foldlM (v.readBodyLine c) c.entered

theorem result_of_none {v : LineReading} (h : v.call? = none) : v.result = .ok v.plain := by
  unfold call? Reading.callIn? at h
  unfold result plain Reading.readPlainLine
  rw [Reading.readLine]
  simp only at h ⊢
  by_cases herror : (v.line.withoutComment.tokens.any fun t => t.kind == .error) = true
  · rw [if_pos herror, if_pos herror]
  · rw [if_neg herror] at h ⊢
    rw [if_neg herror]
    generalize v.before.defineLabels v.note v.line.withoutComment.tokens = labelled at h ⊢
    obtain ⟨r, tokens⟩ := labelled
    cases tokens with
    | nil => rfl
    | cons first rest =>
      simp only at h ⊢
      by_cases hdirective : (first.kind == .directive) = true
      · rw [if_pos hdirective, if_pos hdirective]
      · rw [if_neg hdirective, if_neg hdirective]
        by_cases hdefining : r.pool.isDefining = true
        · rw [if_pos hdefining, if_pos hdefining]
        · rw [if_neg hdefining, if_neg hdefining]
          rw [if_neg (by simp [hdirective, hdefining]), Option.map_eq_none_iff] at h
          rw [h]

theorem result_of_some {v : LineReading} {c : MacroCall} (h : v.call? = some c) :
    v.result =
      if v.line.source.line ∈ v.stack.lines then .ok (c.before.report v.note c.first .expansionLoop)
      else if v.scope.room (.ofCallers (v.inner c)) < v.scope.room v.stack then v.readBody c
      else .error .strayLine := by
  unfold call? Reading.callIn? at h
  unfold result
  rw [Reading.readLine]
  simp only at h ⊢
  split at h
  · cases h
  · rename_i herror
    rw [if_neg herror]
    generalize v.before.defineLabels v.note v.line.withoutComment.tokens = labelled at h ⊢
    obtain ⟨r, tokens⟩ := labelled
    cases tokens with
    | nil => cases h
    | cons first rest =>
      simp only at h ⊢
      split at h
      · cases h
      · rename_i hplain
        simp only [Bool.or_eq_true, not_or] at hplain
        obtain ⟨⟨m, call⟩, hcalled, rfl⟩ := Option.map_eq_some_iff.1 h
        rw [if_neg hplain.1, if_neg hplain.2, hcalled]
        simp only [CallStack.push?, List.contains_iff_mem]
        by_cases hloop : v.line.source.line ∈ v.stack.lines
        · simp only [hloop, if_true]
        · simp only [hloop, if_false]
          rfl

theorem of_bodyLine? {v w : LineReading} {c : MacroCall} {r : Reading} {i : Int}
    (h : v.bodyLine? c r i = some w) :
    w.scope = v.scope ∧ w.callers = v.inner c ∧ w.index = i ∧ w.before.pool = r.pool ∧
      (∃ ms, w.before = { r with log := r.log.addAll ms }) ∧
      ∃ body, Macro.lineAt? v.scope.lines i = some body ∧
        w.line.source.file = body.source.file ∧ w.line.source.line = body.source.line := by
  unfold bodyLine? at h
  split at h
  · cases h
  · split at h
    · rename_i body text hbody _
      cases h
      exact ⟨rfl, rfl, rfl, rfl, ⟨_, rfl⟩, body, hbody, rfl, rfl⟩
    · cases h

theorem readBodyLine_of_some {v w : LineReading} {c : MacroCall} {r : Reading} {i : Int}
    (h : v.bodyLine? c r i = some w) : v.readBodyLine c r i = w.result := by
  unfold bodyLine? at h
  unfold readBodyLine Reading.expandLine
  split at h
  · cases h
  · rename_i hroom
    rw [if_neg hroom]
    split at h
    · rename_i body text hbody htext
      cases h
      simp only [hbody, htext]
      rfl
    · cases h

theorem room_of_bodyLine? {v w : LineReading} {c : MacroCall} {r : Reading} {i : Int}
    (h : v.bodyLine? c r i = some w)
    (hroom : v.scope.room (.ofCallers (v.inner c)) < v.scope.room v.stack) :
    w.scope.room w.stack < v.scope.room v.stack := by
  obtain ⟨hscope, hcallers, -⟩ := of_bodyLine? h
  rw [stack, hscope, hcallers]
  exact hroom

/-- The readings for the members of a list, each from the state that those before it leave. -/
def inTurn {α : Type} (readings : Reading → α → List LineReading)
    (read : Reading → α → Except Fault Reading) (r : Reading) : List α → List LineReading
  | [] => []
  | x :: xs =>
    readings r x ++
      match read r x with
      | .ok r => inTurn readings read r xs
      | .error _ => []

/-- A reading with those that it leads to, in order. -/
def readings (v : LineReading) : List LineReading :=
  v ::
    match v.call? with
    | none => []
    | some c =>
      if _hroom : v.scope.room (.ofCallers (v.inner c)) < v.scope.room v.stack then
        inTurn (fun r i =>
            match _hline : v.bodyLine? c r i with
            | none => []
            | some w => w.readings)
          (v.readBodyLine c) c.entered (Reading.bodyIndices c.callee)
      else []
termination_by v.scope.room v.stack
decreasing_by exact room_of_bodyLine? _hline _hroom

end LineReading

/-- Reads the next line of a file, unless the log is full. -/
def Scope.readNext (s : Scope) (r : Reading) (p : TokenLine × Nat) : Except Fault Reading :=
  if r.log.exceeded then .ok r else Reading.readLine s {} [] p.2 p.1 r

theorem Scope.readLines_eq (s : Scope) (r : Reading) :
    Reading.readLines s r = s.lines.toList.zipIdx.foldlM s.readNext r := rfl

def Scope.nextReadings (s : Scope) (r : Reading) (p : TokenLine × Nat) : List LineReading :=
  if r.log.exceeded then [] else LineReading.readings ⟨s, [], p.2, p.1, r⟩

/-- The readings of the first pass over a file, in order. -/
def Scope.readings (s : Scope) (r : Reading) : List LineReading :=
  LineReading.inTurn s.nextReadings s.readNext r s.lines.toList.zipIdx

def SourceFile.scope (f : SourceFile) (config : Config) (isa : Registry) : Scope :=
  ⟨config, isa, 0,
    ((isa.vocabulary true).tokenizeFile (Session.ofConfig config).log f.lines).1.toArray⟩

/-! ### Labels at the start of a line -/

def leadingLabels : List Token → List Text
  | label :: colon :: rest =>
    if label.kind.isLabel && colon.kind == .colon then label.text :: leadingLabels rest else []
  | _ => []

def afterLabels : List Token → List Token
  | label :: colon :: rest =>
    if label.kind.isLabel && colon.kind == .colon then afterLabels rest else label :: colon :: rest
  | tokens => tokens

namespace Reading

variable (r : Reading) (note : Text) {tokens : List Token}

theorem defineLabels_of_label {label colon : Token} (rest : List Token)
    (h : (label.kind.isLabel && colon.kind == .colon) = true) :
    r.defineLabels note (label :: colon :: rest)
      = (r.defineLabel note label).defineLabels note rest := by
  rw [defineLabels, if_pos h]

theorem defineLabels_of_other {label colon : Token} (rest : List Token)
    (h : ¬(label.kind.isLabel && colon.kind == .colon) = true) :
    r.defineLabels note (label :: colon :: rest) = (r, label :: colon :: rest) := by
  rw [defineLabels, if_neg h]

theorem defineLabels_of_short (h : ∀ label colon rest, tokens = label :: colon :: rest → False) :
    r.defineLabels note tokens = (r, tokens) := by
  rw [defineLabels]
  exact h

end Reading

/-! ### Macros within their file -/

/-- The definitions of macros start and end at lines of the file, and their labels are in order. -/
structure Scope.Fits (s : Scope) (p : MacroPool) : Prop where
  macros : ∀ m ∈ p.macros, 0 ≤ m.first ∧ m.last ≤ s.lines.size
  ordered : ∀ m ∈ p.macros, m.Ordered
  current : ∀ m labels, p.current = some (m, labels) → 0 ≤ m.first

namespace Scope.Fits

variable {s : Scope} {p p' : MacroPool} {index : Int}

theorem of_begin (h : s.Fits p) (hindex : 0 ≤ index) {operands : List Token}
    (hbegin : p.begin operands index = .ok p') : s.Fits p' := by
  obtain ⟨-, -, name, rest, -, rfl⟩ := MacroPool.begin_eq_ok_iff.1 hbegin
  refine ⟨h.macros, h.ordered, ?_⟩
  rintro m labels ⟨⟩
  exact hindex

theorem of_commit (h : s.Fits p) (hindex : index ≤ s.lines.size) {line : Int}
    {trailing : List Token} (hcommit : p.commit index line trailing = .ok p') : s.Fits p' := by
  have hordered := MacroPool.ordered_of_commit hcommit h.ordered
  obtain ⟨-, d, hcurrent, rfl⟩ := MacroPool.commit_eq_ok_iff.1 hcommit
  refine ⟨?_, hordered, nofun⟩
  intro n hn
  rcases List.mem_append.1 hn with hn | hn
  · exact h.macros n hn
  · obtain rfl := List.mem_singleton.1 hn
    exact ⟨h.current d.1 d.2 hcurrent, hindex⟩

theorem addLabel (h : s.Fits p) (name : Text) : s.Fits (p.addLabel name) := by
  cases hcurrent : p.current with
  | none => rwa [MacroPool.addLabel_of_none hcurrent]
  | some d =>
    obtain ⟨more, hadd, -⟩ := MacroPool.exists_addLabel hcurrent name
    rw [hadd]
    refine ⟨h.macros, h.ordered, ?_⟩
    rintro m labels ⟨⟩
    exact h.current d.1 d.2 hcurrent

theorem defineLabels {r : Reading} (h : s.Fits r.pool) (note : Text) (tokens : List Token) :
    s.Fits (r.defineLabels note tokens).1.pool := by
  induction tokens using afterLabels.induct generalizing r with
  | case1 label colon rest hlabel ih =>
    rw [r.defineLabels_of_label note rest hlabel]
    apply ih
    unfold Reading.defineLabel
    split
    · exact h.addLabel _
    · split <;> exact h
  | case2 label colon rest hother =>
    rw [r.defineLabels_of_other note rest hother]
    exact h
  | case3 tokens hshort =>
    rw [r.defineLabels_of_short note hshort]
    exact h

theorem execute {r : Reading} (h : s.Fits r.pool) (note : Text) (hindex : 0 ≤ index)
    (hindex' : index ≤ s.lines.size) (t : Token) (ts : List Token) :
    s.Fits (r.execute note index t ts).pool := by
  rcases r.execute_cases note index t ts with heq | hbegin | hcommit
  · rw [heq]
    exact h
  · exact h.of_begin hindex hbegin
  · exact h.of_commit hindex' hcommit

end Scope.Fits

/-! ### Calls -/

theorem MacroPool.of_foldl_later {ms : List Macro} {best : Option Macro} {m : Macro}
    (h : ms.foldl later best = some m) :
    (best = some m ∨ m ∈ ms) ∧ (∀ b, best = some b → b.first ≤ m.first) ∧
      ∀ n ∈ ms, n.first ≤ m.first := by
  induction ms generalizing best with
  | nil =>
    obtain rfl : best = some m := h
    exact ⟨.inl rfl, fun b hb => by cases hb; exact Int.le_refl _, by simp⟩
  | cons n ms ih =>
    obtain ⟨hm, hbest, hms⟩ := ih h
    cases best with
    | none =>
      have hn := hbest n rfl
      refine ⟨.inr ?_, by simp, List.forall_mem_cons.2 ⟨hn, hms⟩⟩
      rcases hm with ⟨⟨⟩⟩ | hm
      · exact List.mem_cons_self
      · exact List.mem_cons_of_mem _ hm
    | some b =>
      by_cases hlt : b.first < n.first
      · simp only [later, if_pos hlt] at hm hbest
        have hn := hbest n rfl
        refine ⟨.inr ?_, fun b' hb' => ?_, List.forall_mem_cons.2 ⟨hn, hms⟩⟩
        · rcases hm with ⟨⟨⟩⟩ | hm
          · exact List.mem_cons_self
          · exact List.mem_cons_of_mem _ hm
        · cases hb'
          omega
      · simp only [later, if_neg hlt] at hm hbest
        have hb := hbest b rfl
        refine ⟨hm.imp_right (List.mem_cons_of_mem _), fun b' hb' => hbest b' hb',
          List.forall_mem_cons.2 ⟨by omega, hms⟩⟩

/-- The call names the macro and has an argument for each of its parameters. -/
def Macro.Answers (m : Macro) (call : List Token) : Prop :=
  ∃ name arguments, call = name :: arguments ∧ m.name = name.text ∧
    m.parameters.length = arguments.length

/-- The macro that a call finds is one of those that answer it, and no other of them starts later. -/
theorem MacroPool.of_matching {p : MacroPool} {call : List Token} {m : Macro}
    (h : p.matching call = some m) :
    m ∈ p.macros ∧ m.Answers call ∧ ∀ n ∈ p.macros, n.Answers call → n.first ≤ m.first := by
  cases call with
  | nil => cases h
  | cons name arguments =>
    obtain ⟨hm, -, hgreatest⟩ := of_foldl_later h
    simp only [reduceCtorEq, false_or, List.mem_filter, Bool.and_eq_true, beq_iff_eq] at hm hgreatest
    refine ⟨hm.1, ⟨name, arguments, rfl, hm.2⟩, fun n hn hanswers => hgreatest n ⟨hn, ?_⟩⟩
    obtain ⟨_, _, hcall, hanswers⟩ := hanswers
    cases hcall
    exact hanswers

theorem MacroPool.mem_of_matching {p : MacroPool} {call : List Token} {m : Macro}
    (h : p.matching call = some m) :
    m ∈ p.macros ∧ m.parameters.length + 1 = call.length := by
  obtain ⟨hm, ⟨name, arguments, rfl, -, hlength⟩, -⟩ := of_matching h
  exact ⟨hm, by rw [hlength, List.length_cons]⟩

theorem Reading.of_called? {r : Reading} {tokens call : List Token} {m : Macro}
    (h : r.called? tokens = some (m, call)) :
    m ∈ r.pool.macros ∧ m.parameters.length + 1 = call.length := by
  unfold called? at h
  split at h
  · cases h
  · split at h
    · split at h
      · rename_i hm
        cases h
        exact MacroPool.mem_of_matching hm
      · obtain ⟨n, hn, heq⟩ := Option.map_eq_some_iff.1 h
        cases heq
        exact MacroPool.mem_of_matching hn
    · cases h

theorem Reading.mem_bodyIndices {m : Macro} {i : Int} (h : i ∈ bodyIndices m) :
    m.first < i ∧ i < m.last := by
  obtain ⟨n, hn, rfl⟩ := List.mem_map.1 h
  rw [List.mem_range] at hn
  omega

theorem Macro.exists_lineAt? {lines : Array TokenLine} {i : Int} (hi : 0 ≤ i)
    (hi' : i < lines.size) : ∃ body, lineAt? lines i = some body := by
  have hsize : i.toNat < lines.size := by omega
  exact ⟨lines[i.toNat], by rw [lineAt?, if_neg (by omega), Array.getElem?_eq_getElem hsize]⟩

theorem Macro.mem_of_lineAt? {lines : Array TokenLine} {i : Int} {body : TokenLine}
    (h : lineAt? lines i = some body) : body ∈ lines.toList ∧ 0 ≤ i ∧ i < lines.size := by
  unfold lineAt? at h
  split at h
  · cases h
  · obtain ⟨hsize, hbody⟩ := Array.getElem?_eq_some_iff.1 h
    refine ⟨?_, by omega, by omega⟩
    rw [← hbody, Array.mem_toList_iff]
    exact Array.getElem_mem hsize

theorem Macro.lineAt?_of_mem_zipIdx {lines : Array TokenLine} {p : TokenLine × Nat}
    (h : p ∈ lines.toList.zipIdx) : lineAt? lines p.2 = some p.1 := by
  have hget := List.mk_mem_zipIdx_iff_getElem?.1 h
  rw [Array.getElem?_toList] at hget
  rw [lineAt?, if_neg (by omega), Int.toNat_natCast, hget]

theorem Macro.mem_zipIdx_of_lineAt? {lines : Array TokenLine} {i : Int} {l : TokenLine}
    (h : lineAt? lines i = some l) : (l, i.toNat) ∈ lines.toList.zipIdx ∧ (i.toNat : Int) = i := by
  unfold lineAt? at h
  split at h
  · cases h
  · refine ⟨List.mk_mem_zipIdx_iff_getElem?.2 ?_, by omega⟩
    rw [Array.getElem?_toList, h]

theorem Macro.isFault_of_edits {m : Macro} {call : List Token} {counter : Int}
    (harity : m.parameters.length + 1 = call.length) {tokens : List Token} {e : Macro.Error}
    (h : m.edits call counter tokens = .error e) : e.isFault = false := by
  induction tokens with
  | nil => cases h
  | cons t tokens ih =>
    rw [edits] at h
    cases hnew : m.replacement call counter t with
    | error e' =>
      rw [hnew] at h
      cases h
      unfold replacement at hnew
      split at hnew
      · split at hnew
        · cases hnew
          rfl
        · rename_i i hfound
          have hi : i < m.parameters.length := (List.findIdx?_eq_some_iff_findIdx_eq.1 hfound).1
          rw [List.getElem?_eq_getElem (by omega)] at hnew
          cases hnew
      · split at hnew <;> cases hnew
    | ok new =>
      rw [hnew] at h
      cases hrest : m.edits call counter tokens with
      | error e' =>
        rw [hrest] at h
        cases h
        exact ih hrest
      | ok edits =>
        rw [hrest] at h
        cases new <;> cases h

theorem Macro.isFault_of_substitute {m : Macro} {lines : Array TokenLine} {i : Int}
    {call : List Token} {counter : Int} {e : Macro.Error}
    (harity : m.parameters.length + 1 = call.length) {body : TokenLine}
    (hbody : lineAt? lines i = some body) (h : m.substitute lines i call counter = .error e) :
    e.isFault = false := by
  unfold substitute at h
  split at h
  · cases h
    rfl
  · rw [hbody] at h
    cases hedits : m.edits call counter body.tokens with
    | error e' =>
      simp only [hedits, Except.map] at h
      cases h
      exact isFault_of_edits harity hedits
    | ok edits =>
      simp only [hedits, Except.map] at h
      cases h

namespace LineReading

theorem of_call? {v : LineReading} {c : MacroCall} (h : v.call? = some c) :
    c.before = (v.before.defineLabels v.note v.line.withoutComment.tokens).1 ∧
      c.before.pool.isDefining = false ∧ c.callee ∈ c.before.pool.macros ∧
      c.callee.parameters.length + 1 = c.tokens.length := by
  unfold call? Reading.callIn? at h
  simp only at h
  split at h
  · cases h
  · generalize v.before.defineLabels v.note v.line.withoutComment.tokens = labelled at h ⊢
    obtain ⟨r, tokens⟩ := labelled
    cases tokens with
    | nil => cases h
    | cons first rest =>
      simp only at h
      split at h
      · cases h
      · rename_i hplain
        simp only [Bool.or_eq_true, not_or, Bool.not_eq_true] at hplain
        obtain ⟨⟨m, call⟩, hcalled, rfl⟩ := Option.map_eq_some_iff.1 h
        exact ⟨rfl, hplain.2, Reading.of_called? hcalled⟩

/-- A body line is read, or no more than a message comes of it. -/
theorem readBodyLine_cases (v : LineReading) {c : MacroCall} (r : Reading) {i : Int}
    (harity : c.callee.parameters.length + 1 = c.tokens.length) {body : TokenLine}
    (hbody : Macro.lineAt? v.scope.lines i = some body) :
    (∃ w, v.bodyLine? c r i = some w) ∨
      v.bodyLine? c r i = none ∧
        ∃ ms, v.readBodyLine c r i = .ok { r with log := r.log.addAll ms } := by
  unfold bodyLine? readBodyLine Reading.expandLine
  by_cases hfull : r.log.exceeded = true
  · rw [if_pos hfull, if_pos hfull]
    exact .inr ⟨rfl, [], rfl⟩
  · rw [if_neg hfull, if_neg hfull, hbody]
    cases htext : c.callee.substitute v.scope.lines i c.tokens c.counter with
    | ok text => exact .inl ⟨_, rfl⟩
    | error e =>
      refine .inr ⟨rfl, ?_⟩
      simp only [Macro.isFault_of_substitute harity hbody htext]
      exact ⟨[_], rfl⟩

/-! ### Proper readings -/

end LineReading

/-- Some line of the file has the number, in the same source file. -/
def Scope.Has (s : Scope) (site : SourceLine) : Prop :=
  ∃ l ∈ s.lines.toList, l.source.file = site.file ∧ l.source.line = site.line

instance (s : Scope) (site : SourceLine) : Decidable (s.Has site) :=
  inferInstanceAs (Decidable (∃ l ∈ s.lines.toList, _ ∧ _))

theorem Scope.room_lt {s : Scope} {site : SourceLine} (hsite : s.Has site) {stack : CallStack}
    (hnew : site.line ∉ stack.lines) : s.room ⟨site.line :: stack.lines⟩ < s.room stack := by
  obtain ⟨l, hl, -, hline⟩ := hsite
  have hsplit : (s.lines.toList.filter fun l => !(site.line :: stack.lines).contains l.source.line)
      = (s.lines.toList.filter fun l => !stack.lines.contains l.source.line).filter
          fun l => decide (l.source.line ≠ site.line) := by
    rw [List.filter_filter]
    congr 1
    funext l
    simp
  unfold room
  rw [hsplit]
  apply List.length_filter_lt_length_iff_exists.2
  exact ⟨l, by simp_all, by simp [hline]⟩

theorem Scope.not_mem_of_room_lt {s : Scope} {line : Int} {stack : CallStack}
    (h : s.room ⟨line :: stack.lines⟩ < s.room stack) : line ∉ stack.lines := by
  intro hmem
  have hsame : s.room ⟨line :: stack.lines⟩ = s.room stack := by
    unfold room
    congr 2
    funext l
    simp only [List.contains_cons, Bool.not_eq_eq_eq_not, Bool.not_not]
    by_cases heq : l.source.line = line
    · simp [heq, hmem]
    · simp [heq]
  omega

/-- A reading of a line of its file, in calls from different lines of the file. -/
structure LineReading.Proper (v : LineReading) : Prop where
  fits : v.scope.Fits v.before.pool
  index : 0 ≤ v.index ∧ v.index < v.scope.lines.size
  site : v.scope.Has v.line.source
  callers : ∀ c ∈ v.callers, v.scope.Has c.site
  distinct : v.stack.lines.Nodup

namespace LineReading

theorem Proper.fits_call {v : LineReading} (h : v.Proper) {c : MacroCall} (hc : v.call? = some c) :
    v.scope.Fits c.before.pool := by
  rw [(of_call? hc).1]
  exact h.fits.defineLabels _ _

theorem Proper.fits_entered {v : LineReading} (h : v.Proper) {c : MacroCall}
    (hc : v.call? = some c) : v.scope.Fits c.entered.pool :=
  ⟨(h.fits_call hc).macros, (h.fits_call hc).ordered, (h.fits_call hc).current⟩

theorem Proper.room {v : LineReading} (h : v.Proper) {c : MacroCall}
    (hnew : v.line.source.line ∉ v.stack.lines) :
    v.scope.room (.ofCallers (v.inner c)) < v.scope.room v.stack :=
  Scope.room_lt h.site hnew

theorem Proper.lineAt? {v : LineReading} (h : v.Proper) {c : MacroCall} (hc : v.call? = some c)
    {i : Int} (hi : i ∈ Reading.bodyIndices c.callee) :
    ∃ body, Macro.lineAt? v.scope.lines i = some body := by
  have hfits := (h.fits_call hc).macros _ (of_call? hc).2.2.1
  have hbounds := Reading.mem_bodyIndices hi
  exact Macro.exists_lineAt? (by omega) (by omega)

theorem Proper.bodyLine? {v w : LineReading} (h : v.Proper) {c : MacroCall}
    (hnew : v.line.source.line ∉ v.stack.lines) {r : Reading} (hr : v.scope.Fits r.pool) {i : Int}
    (hw : v.bodyLine? c r i = some w) : w.Proper := by
  obtain ⟨hscope, hcallers, hindex, hpool, -, body, hbody, hfile, hline⟩ := of_bodyLine? hw
  obtain ⟨hmem, hlow, hhigh⟩ := Macro.mem_of_lineAt? hbody
  refine ⟨?_, ?_, ?_, ?_, ?_⟩
  · rw [hscope, hpool]
    exact hr
  · rw [hscope, hindex]
    exact ⟨hlow, hhigh⟩
  · rw [hscope]
    exact ⟨body, hmem, hfile.symm, hline.symm⟩
  · rw [hscope, hcallers]
    intro d hd
    rcases List.mem_cons.1 hd with rfl | hd
    · exact h.site
    · exact h.callers d hd
  · rw [stack, hcallers]
    exact List.nodup_cons.2 ⟨hnew, h.distinct⟩

theorem Proper.fits_plain {v : LineReading} (h : v.Proper) : v.scope.Fits v.plain.pool := by
  unfold plain Reading.readPlainLine
  simp only
  split
  · exact h.fits
  · have hlabelled := h.fits.defineLabels v.note v.line.withoutComment.tokens
    generalize v.before.defineLabels v.note v.line.withoutComment.tokens = labelled at hlabelled ⊢
    obtain ⟨r, tokens⟩ := labelled
    cases tokens with
    | nil => exact hlabelled
    | cons first rest =>
      simp only
      split
      · have hindex := h.index
        exact hlabelled.execute v.note hindex.1 (by omega) first rest
      · split
        · exact hlabelled
        · rw [Reading.pool_readPlain]
          exact hlabelled

/-! ### Steps -/

end LineReading

/-- What proper readings make of a state, one after the other. -/
inductive Steps (s : Scope) : Reading → List LineReading → Reading → Prop where
  | nil (r : Reading) : Steps s r [] r
  | append {r₀ r₁ r₂ : Reading} {vs ws : List LineReading} :
      Steps s r₀ vs r₁ → Steps s r₁ ws r₂ → Steps s r₀ (vs ++ ws) r₂
  /-- Messages about a line of a body. -/
  | message (r : Reading) (ms : List Message) : Steps s r [] { r with log := r.log.addAll ms }
  | plain {v : LineReading} : v.Proper → v.scope = s → v.call? = none → Steps s v.before [v] v.plain
  | refused {v : LineReading} {c : MacroCall} : v.Proper → v.scope = s → v.call? = some c →
      v.line.source.line ∈ v.stack.lines →
      Steps s v.before [v] (c.before.report v.note c.first .expansionLoop)
  /-- The way into a macro; the lines of its body follow. -/
  | enter {v : LineReading} {c : MacroCall} : v.Proper → v.scope = s → v.call? = some c →
      v.line.source.line ∉ v.stack.lines → Steps s v.before [v] c.entered

theorem Steps.proper {s : Scope} {r r' : Reading} {vs : List LineReading} (h : Steps s r vs r') :
    ∀ v ∈ vs, v.Proper ∧ v.scope = s := by
  induction h with
  | nil | message =>
    intro v hv
    cases hv
  | append _ _ ih₁ ih₂ =>
    intro v hv
    exact (List.mem_append.1 hv).elim (ih₁ v) (ih₂ v)
  | plain hproper hscope | refused hproper hscope | enter hproper hscope =>
    intro v hv
    obtain rfl := List.mem_singleton.1 hv
    exact ⟨hproper, hscope⟩

namespace LineReading

theorem exists_steps_inTurn {s : Scope} {α : Type} {P : Reading → Prop}
    {readings : Reading → α → List LineReading} {read : Reading → α → Except Fault Reading}
    {xs : List α} (hread : ∀ x ∈ xs, ∀ r, P r →
      ∃ r', read r x = .ok r' ∧ P r' ∧ Steps s r (readings r x) r') {r : Reading} (hr : P r) :
    ∃ r', xs.foldlM read r = .ok r' ∧ P r' ∧ Steps s r (inTurn readings read r xs) r' := by
  induction xs generalizing r with
  | nil => exact ⟨r, rfl, hr, .nil r⟩
  | cons x xs ih =>
    obtain ⟨r₁, hr₁, hP, hfirst⟩ := hread x (List.mem_cons_self ..) r hr
    obtain ⟨r₂, hr₂, hP', hrest⟩ := ih (fun y hy => hread y (List.mem_cons_of_mem _ hy)) hP
    refine ⟨r₂, by rw [List.foldlM_cons, hr₁]; exact hr₂, hP', ?_⟩
    rw [inTurn, hr₁]
    exact hfirst.append hrest

theorem readings_of_none {v : LineReading} (h : v.call? = none) : v.readings = [v] := by
  rw [readings, h]

theorem readings_of_refused {v : LineReading} {c : MacroCall} (h : v.call? = some c)
    (hloop : v.line.source.line ∈ v.stack.lines) : v.readings = [v] := by
  have hroom : ¬v.scope.room (.ofCallers (v.inner c)) < v.scope.room v.stack :=
    fun hlt => Scope.not_mem_of_room_lt hlt hloop
  rw [readings, h]
  simp only [dif_neg hroom]

def bodyReadings (v : LineReading) (c : MacroCall) (r : Reading) (i : Int) : List LineReading :=
  match v.bodyLine? c r i with
  | none => []
  | some w => w.readings

theorem Proper.readings_of_expanded {v : LineReading} (hv : v.Proper) {c : MacroCall}
    (h : v.call? = some c) (hnew : v.line.source.line ∉ v.stack.lines) :
    v.readings = [v] ++ inTurn (v.bodyReadings c) (v.readBodyLine c) c.entered
      (Reading.bodyIndices c.callee) := by
  rw [readings, h]
  simp only [dif_pos (hv.room (c := c) hnew)]
  congr 2
  funext r i
  unfold bodyReadings
  split <;> simp_all

/-- What a body line does, given that what it leads to is no fault. -/
theorem Proper.exists_readBodyLine {v : LineReading} (h : v.Proper) {c : MacroCall}
    (hc : v.call? = some c) (hnew : v.line.source.line ∉ v.stack.lines) {i : Int}
    (hi : i ∈ Reading.bodyIndices c.callee) {r : Reading} (hr : v.scope.Fits r.pool)
    (hread : ∀ w, v.bodyLine? c r i = some w → w.Proper →
      ∃ r', w.result = .ok r' ∧ w.scope.Fits r'.pool ∧ Steps w.scope w.before w.readings r') :
    ∃ r', v.readBodyLine c r i = .ok r' ∧ v.scope.Fits r'.pool ∧
      Steps v.scope r (v.bodyReadings c r i) r' := by
  obtain ⟨body, hbody⟩ := h.lineAt? hc hi
  unfold bodyReadings
  rcases v.readBodyLine_cases r (of_call? hc).2.2.2 hbody with ⟨w, hw⟩ | ⟨hnone, ms, hlog⟩
  · obtain ⟨r', hr', hfits, hsteps⟩ := hread w hw (h.bodyLine? hnew hr hw)
    obtain ⟨hscope, -, -, -, ⟨ms, hms⟩, -⟩ := of_bodyLine? hw
    rw [hscope] at hfits hsteps
    rw [hms] at hsteps
    rw [hw, readBodyLine_of_some hw]
    exact ⟨r', hr', hfits, (Steps.message r ms).append hsteps⟩
  · rw [hnone]
    exact ⟨_, hlog, hr, .message r ms⟩

/-- A proper reading is no fault, the macros stay within the file, and what happens is what its
readings do. -/
theorem Proper.exists_steps {v : LineReading} (h : v.Proper) :
    ∃ r, v.result = .ok r ∧ v.scope.Fits r.pool ∧ Steps v.scope v.before v.readings r := by
  cases hc : v.call? with
  | none =>
    rw [readings_of_none hc]
    exact ⟨v.plain, result_of_none hc, h.fits_plain, .plain h rfl hc⟩
  | some c =>
    rw [result_of_some hc]
    by_cases hnew : v.line.source.line ∈ v.stack.lines
    · rw [if_pos hnew, readings_of_refused hc hnew]
      exact ⟨_, rfl, h.fits_call hc, .refused h rfl hc hnew⟩
    · have hroom := h.room (c := c) hnew
      rw [if_neg hnew, if_pos hroom, h.readings_of_expanded hc hnew]
      have hlines : ∀ i ∈ Reading.bodyIndices c.callee, ∀ r, v.scope.Fits r.pool →
          ∃ r', v.readBodyLine c r i = .ok r' ∧ v.scope.Fits r'.pool ∧
            Steps v.scope r (v.bodyReadings c r i) r' := by
        intro i hi r hr
        apply h.exists_readBodyLine hc hnew hi hr
        intro w hw hproper
        -- The line of the call is on the stack now, which leaves less room for further calls.
        have hsmaller := room_of_bodyLine? hw hroom
        exact hproper.exists_steps
      obtain ⟨r, hr, hfits, hbody⟩ := exists_steps_inTurn hlines (h.fits_entered hc)
      exact ⟨r, hr, hfits, (Steps.enter h rfl hc hnew).append hbody⟩
termination_by v.scope.room v.stack

theorem Proper.exists_result {v : LineReading} (h : v.Proper) :
    ∃ r, v.result = .ok r ∧ v.scope.Fits r.pool := by
  obtain ⟨r, hr, hfits, -⟩ := h.exists_steps
  exact ⟨r, hr, hfits⟩

theorem Proper.steps {v : LineReading} (h : v.Proper) {r : Reading} (hr : v.result = .ok r) :
    Steps v.scope v.before v.readings r := by
  obtain ⟨r', hr', -, hsteps⟩ := h.exists_steps
  cases hr.symm.trans hr'
  exact hsteps

theorem Proper.fits_readBodyLine {v : LineReading} (h : v.Proper) {c : MacroCall}
    (hc : v.call? = some c) (hnew : v.line.source.line ∉ v.stack.lines) {i : Int}
    (hi : i ∈ Reading.bodyIndices c.callee) {r r' : Reading} (hr : v.scope.Fits r.pool)
    (hread : v.readBodyLine c r i = .ok r') : v.scope.Fits r'.pool := by
  obtain ⟨r₁, hr₁, hfits, -⟩ :=
    h.exists_readBodyLine hc hnew hi hr fun w _ hproper => hproper.exists_steps
  cases hread.symm.trans hr₁
  exact hfits

theorem proper_of_mem_zipIdx {s : Scope} {r : Reading} (hr : s.Fits r.pool) {line : TokenLine}
    {i : Nat} (hline : (line, i) ∈ s.lines.toList.zipIdx) : Proper ⟨s, [], i, line, r⟩ := by
  obtain ⟨-, hi, heq⟩ := List.mem_zipIdx hline
  refine ⟨hr, ⟨Int.natCast_nonneg i, ?_⟩, ?_, nofun, List.nodup_nil⟩
  · simp only [Array.length_toList, Nat.zero_add] at hi
    exact Int.ofNat_lt.2 hi
  · exact ⟨line, by rw [heq]; exact List.getElem_mem _, rfl, rfl⟩

end LineReading

/-! ### Files -/

namespace Scope

variable {s : Scope}

theorem fits_start (s : Scope) (session : Session) (name : Text) :
    s.Fits (Reading.start session name).pool := ⟨nofun, nofun, nofun⟩

theorem exists_readNext {r : Reading} (hr : s.Fits r.pool) {p : TokenLine × Nat}
    (hp : p ∈ s.lines.toList.zipIdx) :
    ∃ r', s.readNext r p = .ok r' ∧ s.Fits r'.pool ∧ Steps s r (s.nextReadings r p) r' := by
  unfold readNext nextReadings
  split
  · exact ⟨r, rfl, hr, .nil r⟩
  · exact (LineReading.proper_of_mem_zipIdx hr hp).exists_steps

/-- The first pass over a file is what the readings of the file do. -/
theorem exists_readLines (s : Scope) (session : Session) (name : Text) :
    ∃ r, Reading.readLines s (.start session name) = .ok r ∧
      Steps s (.start session name) (s.readings (.start session name)) r := by
  obtain ⟨r, hr, -, hsteps⟩ := LineReading.exists_steps_inTurn (P := fun r => s.Fits r.pool)
    (fun p hp r hr => exists_readNext hr hp) (s.fits_start session name)
  exact ⟨r, hr, hsteps⟩

theorem proper_of_mem_readings {session : Session} {name : Text} {v : LineReading}
    (hv : v ∈ s.readings (.start session name)) : v.Proper ∧ v.scope = s := by
  obtain ⟨r, -, hsteps⟩ := s.exists_readLines session name
  exact hsteps.proper v hv

end Scope

end Rv32Assembler
