import Rv32Assembler.Assembly.Program
/-!
# The journal of the first pass

What the first pass does to its state, as a list of actions: the labels, alignments, data items,
directives and instructions in the order in which they take effect, those of macro bodies included.
Performing the journal of a file gives the state that reading its lines gives (`readLines_eq`), so what
every action keeps, every run keeps; and what a run did at one place of a file can be said by the
action there and the state before it (`Moment`).
-/

namespace Rv32Assembler

/-- One thing that the first pass does. -/
inductive Action where
  /-- A label at the start of a line. -/
  | label (note : Text) (t : Token)
  | select (note : Text) (directive : Token) (operands : List Token) (segment : Segment)
  | space (note : Text) (directive : Token) (operands : List Token)
  | external (note : Text) (directive : Token) (operands : List Token)
  /-- Labels are to be made global. -/
  | share (note : Text) (d : Directive) (directive : Token) (operands : List Token)
  | beginMacro (note : Text) (index : Int) (directive : Token) (operands : List Token)
  | endMacro (note : Text) (index : Int) (directive : Token) (operands : List Token)
  /-- The directive that continuation lines repeat from now on. -/
  | announce (d : Directive)
  | align (segment : Segment) (multiple : Nat)
  /-- Automatic alignment is turned off. -/
  | unalign
  /-- A number at the data cursor. -/
  | number (note : Text) (t : Token) (width : Nat) (value : Int)
  /-- The address of a label at the data cursor. -/
  | reference (note : Text) (t : Token) (width : Nat)
  /-- The bytes of a string at the data cursor. -/
  | string (note : Text) (t : Token) (bytes : Text)
  | report (note : Text) (t : Token) (p : Problem)
  | record (messages : List Message)
  /-- A macro call is entered. -/
  | enter
  | instruction (note : Text) (tokenLine : TokenLine) (operator : Token) (operands : List Token)
  deriving DecidableEq

namespace Action

def perform (s : Scope) (r : Reading) : Action → Reading
  | label note t => r.defineLabel note t
  | select note directive operands segment => r.selectSegment note directive operands segment
  | space note directive operands => r.executeSpace note directive operands
  | external note directive operands => r.executeExternal note directive operands
  | share note d directive operands => r.executeGlobal note d directive operands
  | beginMacro note index directive operands => r.executeBegin note index directive operands
  | endMacro note index directive operands => r.executeEnd note index directive operands
  | announce d => { r with cursors := { r.cursors with directive := some d } }
  | align segment multiple => r.align segment multiple
  | unalign => { r with cursors := { r.cursors with autoAlign := false } }
  | number note t width value => (r.writeValue note t r.dataCursor value width).advanceData width
  | reference note t width =>
    match r.lookup t.text with
    | some symbol =>
      (r.writeValue note t r.dataCursor symbol.address.toNat width).advanceData width
    | none => (r.writePending note t r.dataCursor width).advanceData width
  | string note t bytes =>
    match r.storeBytes bytes with
    | (r, none) => r
    | (r, some e) => r.report note t (.address e)
  | report note t p => r.report note t p
  | record messages => { r with log := r.log.addAll messages }
  | enter => { r with pool := r.pool.nextCounter.2 }
  | instruction note tokenLine operator operands =>
    r.readInstruction s note tokenLine operator operands

/-- The number of bytes that an action stores from the data cursor on. -/
def size : Action → Nat
  | number _ _ width _ => width
  | reference _ _ width => width
  | string _ _ bytes => bytes.length
  | _ => 0

end Action

namespace Scope

def performAll (s : Scope) (r : Reading) (actions : List Action) : Reading :=
  actions.foldl (Action.perform s) r

@[simp]
theorem performAll_nil (s : Scope) (r : Reading) : s.performAll r [] = r := rfl

@[simp]
theorem performAll_cons (s : Scope) (r : Reading) (a : Action) (as : List Action) :
    s.performAll r (a :: as) = s.performAll (a.perform s r) as := rfl

@[simp]
theorem performAll_append (s : Scope) (r : Reading) (as bs : List Action) :
    s.performAll r (as ++ bs) = s.performAll (s.performAll r as) bs := by
  simp [performAll]

/-- The actions for the members of a list, each taken in the state that those before it leave. -/
def inTurn {α : Type} (s : Scope) (actions : Reading → α → List Action) (r : Reading) :
    List α → List Action
  | [] => []
  | x :: xs => actions r x ++ s.inTurn actions (s.performAll r (actions r x)) xs

end Scope

namespace Reading

/-! ### Data -/

/-- What storing one operand of an integer directive does. -/
def integerActions (note : Text) (d : Directive) (item : DataItem) : List Action :=
  let t := item.token
  if t.kind.isInteger then
    let v := if item.negated then Literal.wrap64 (-t.value) else t.value
    let stored := if fitsWidth v d.width then v else truncate v d.width
    (if fitsWidth v d.width then [] else [.report note t (.truncated v stored)])
      ++ List.replicate item.count (.number note t d.width stored)
  else if t.kind.isLabel && !item.negated then
    List.replicate item.count (.reference note t d.width)
  else [.report note t (.badInteger t.text d)]

/-- What storing one operand of a real directive does. -/
def realActions (note : Text) (d : Directive) (item : DataItem) : List Action :=
  let t := item.token
  match realValue? t with
  | none => [.report note t (.badReal t.text d)]
  | some x =>
    let x := if item.negated then x.negate else x
    if d == .float then
      if x.exceedsSingle then [.report note t (.realRange t.text d)]
      else List.replicate item.count (.number note t 4 x.toSingle.toNat)
    else List.replicate item.count (.number note t 8 x.toNat)

def itemActions (note : Text) (d : Directive) (item : DataItem) : List Action :=
  if d.isInteger then integerActions note d item else realActions note d item

/-- What the operands of a numeric directive do. -/
def numericActions (r : Reading) (note : Text) (d : Directive) (operands : List Token) :
    List Action :=
  let (items, mistake) := DataItem.readAll operands
  (if r.cursors.autoAlign then [.align r.cursors.dataSegment d.width] else [])
    ++ items.flatMap (itemActions note d)
    ++ mistake.toList.map fun (t, p) => .report note t p

def stringActions (r : Reading) (note : Text) (d : Directive) : List Token → List Action
  | [] => []
  | t :: rest =>
    if t.kind != .quotedString then
      .report note t (.badString t.text d)
        :: (r.report note t (.badString t.text d)).stringActions note d rest
    else
      let (bytes, problem) := Literal.unescape (stringBody t.text)
      let bytes := if d == .ascii then bytes else bytes ++ [0]
      let reports : List Action := problem.toList.map fun e => .report note t (.escape e)
      let r := problem.elim r fun e => r.report note t (.escape e)
      match r.storeBytes bytes with
      | (r, none) => reports ++ .string note t bytes :: r.stringActions note d rest
      | (_, some _) => reports ++ [.string note t bytes]

def dataActions (r : Reading) (note : Text) (d : Directive) (operands : List Token) :
    List Action :=
  if d.isString then r.stringActions note d operands else r.numericActions note d operands

/-! ### Directives -/

def alignActions (r : Reading) (note : Text) (directive : Token) (operands : List Token) :
    List Action :=
  match operands with
  | [operand] =>
    let n := operand.value
    if !operand.kind.isInteger || n < 0 then [.report note directive .alignOperands]
    else if maxAlign < n then [.report note operand (.alignRange n)]
    else if !r.cursors.segment.isData then
      (if n < 2 then [.report note operand (.alignRounded n)] else [])
        ++ [.align r.cursors.textSegment (1 <<< (max n 2).toNat)]
    else if n == 0 then [.unalign]
    else [.align r.cursors.dataSegment (1 <<< n.toNat)]
  | _ => [.report note directive .alignOperands]

def sectionActions (note : Text) (directive : Token) (operands : List Token) : List Action :=
  match operands with
  | [operand] =>
    let name := operand.text.trimBytes fun b => b == 0x22
    let starts (stem : Text) : Bool := stem.isPrefixOf name
    if starts ".data" || starts ".rodata" || starts ".sdata" then
      [.select note directive [] ⟨true, false⟩]
    else if starts ".text" then [.select note directive [] ⟨false, false⟩]
    else [.report note operand (.ignoredSection name)]
  | _ => [.report note directive .sectionOperands]

def directiveActions (r : Reading) (note : Text) (index : Int) (d : Directive) (directive : Token)
    (operands : List Token) : List Action :=
  match d with
  | .data => [.select note directive operands ⟨true, false⟩]
  | .kernelData => [.select note directive operands ⟨true, true⟩]
  | .text => [.select note directive operands ⟨false, false⟩]
  | .kernelText => [.select note directive operands ⟨false, true⟩]
  | .namedSection => sectionActions note directive operands
  | .word | .half | .byte | .doubleWord | .float | .double | .ascii | .asciz | .string =>
    let announced := { r with cursors := { r.cursors with directive := some d } }
    .announce d ::
      (if r.cursors.segment.isData then announced.dataActions note d operands
       else [.report note directive (.directiveInText d)])
  | .align => r.alignActions note directive operands
  | .space => [.space note directive operands]
  | .external => [.external note directive operands]
  | .globl | .global => [.share note d directive operands]
  | .equivalence => []
  | .beginMacro => [.beginMacro note index directive operands]
  | .endMacro => [.endMacro note index directive operands]
  | .includeFile => [.report note directive .includeLine]

def executeActions (r : Reading) (note : Text) (index : Int) (directive : Token)
    (operands : List Token) : List Action :=
  match Directive.ofName? directive.text with
  | none => [.report note directive (.unrecognizedDirective directive.text)]
  | some d =>
    if r.pool.isDefining then
      if d == .beginMacro then [.beginMacro note index directive operands]
      else if d == .endMacro then [.endMacro note index directive operands]
      else []
    else r.directiveActions note index d directive operands

/-! ### Lines -/

/-- The labels at the start of a line, and the rest of the line. -/
def labelActions (note : Text) : List Token → List Action × List Token
  | label :: colon :: rest =>
    if label.kind.isLabel && colon.kind == .colon then
      (.label note label :: (labelActions note rest).1, (labelActions note rest).2)
    else ([], label :: colon :: rest)
  | tokens => ([], tokens)

def plainActions (r : Reading) (note : Text) (tokenLine : TokenLine) (first : Token)
    (rest : List Token) : List Action :=
  if first.kind == .identifier && first.text.head? == some 0x2e then
    [.report note first (.ignoredDirective first.text)]
  else if r.cursors.segment.isData && continuesData first then
    match r.cursors.directive with
    | some d => r.dataActions note d (first :: rest)
    | none => [.report note first .dataWithoutDirective]
  else if r.cursors.segment.isData && first.kind == .operator then
    [.report note first (.instructionInData first.text)]
  else [.instruction note tokenLine first rest]

/-- What the line of a macro's body at place `i` does in one call, by way of `next`. -/
def expandActions (s : Scope) (m : Macro) (call : List Token) (counter : Int) (note : Text)
    (next : Int → TokenLine → Reading → List Action) (r : Reading) (i : Int) : List Action :=
  if r.log.exceeded then []
  else
    match Macro.lineAt? s.lines i with
    | none => []
    | some body =>
      match m.substitute s.lines i call counter with
      | .error e =>
        [.record [{ file := body.source.file, line := body.source.line, text := e.message }]]
      | .ok text =>
        let (line, problems) :=
          s.vocabulary.tokenize ⟨text, body.source.file, body.source.line⟩
        let messages := lexicalMessages note problems
        .record messages :: next i line { r with log := r.log.addAll messages }

def lineActions (s : Scope) (stack : CallStack) (note : Text) (index : Int) (tokenLine : TokenLine)
    (r : Reading) : List Action :=
  let tokens := tokenLine.withoutComment.tokens
  if tokens.any fun t => t.kind == .error then []
  else
    let (labels, tokens) := labelActions note tokens
    let r := s.performAll r labels
    labels ++
      match tokens with
      | [] => []
      | first :: rest =>
        if first.kind == .directive then r.executeActions note index first rest
        else if r.pool.isDefining then []
        else
          match r.called? (first :: rest) with
          | none => r.plainActions note tokenLine first rest
          | some (m, call) =>
            match stack.push? tokenLine.source.line with
            | none => [.report note first .expansionLoop]
            | some inner =>
              if _h : s.room inner < s.room stack then
                let innerNote := expansionNote m tokenLine.source.line
                .enter :: s.inTurn
                  (expandActions s m call r.pool.nextCounter.1 innerNote
                    (lineActions s inner innerNote))
                  (Action.enter.perform s r) (bodyIndices m)
              else []
termination_by s.room stack

def fileActions (s : Scope) (r : Reading) : List Action :=
  s.inTurn (fun r (line, i) => if r.log.exceeded then [] else lineActions s {} [] i line r) r
    s.lines.toList.zipIdx

/-! ### The journal gives the state

One equation for each function of the first pass. -/

section

variable (s : Scope)

@[simp]
theorem lookup_advanceData (r : Reading) (n : Nat) (name : Text) :
    (r.advanceData n).lookup name = r.lookup name := rfl

/-- A store concerns the image, and the log when it is refused. -/
theorem writeValue_frame (r : Reading) (note : Text) (t : Token) (a : Address) (v : Int)
    (width : Nat) :
    ∃ image log, r.writeValue note t a v width = { r with image := image, log := log } := by
  unfold writeValue
  split
  · generalize r.image.setDouble a (BitVec.ofInt 64 v) = result
    obtain ⟨image, refused⟩ := result
    cases refused with
    | none => exact ⟨image, r.log, rfl⟩
    | some e => exact ⟨image, _, rfl⟩
  · unfold Session.stored
    split
    · exact ⟨_, _, rfl⟩
    · exact ⟨_, r.log, rfl⟩

@[simp]
theorem lookup_writeValue (r : Reading) (note : Text) (t : Token) (a : Address) (v : Int)
    (width : Nat) (name : Text) : (r.writeValue note t a v width).lookup name = r.lookup name := by
  obtain ⟨image, log, hwrite⟩ := r.writeValue_frame note t a v width
  rw [hwrite]
  rfl

@[simp]
theorem lookup_writePending (r : Reading) (note : Text) (t : Token) (a : Address) (width : Nat)
    (name : Text) : (r.writePending note t a width).lookup name = r.lookup name :=
  lookup_writeValue r note t a 0 width name

/-- Storing copies performs one action again and again, in states that the action keeps fit. -/
theorem storeCopies_eq {put : Reading → Address → Reading} {width : Nat} {a : Action}
    (fit : Reading → Prop)
    (hstep : ∀ r, fit r → a.perform s r = (put r r.dataCursor).advanceData width)
    (hfit : ∀ r, fit r → fit (a.perform s r)) (n : Nat) {r : Reading} (hr : fit r) :
    storeCopies put width n r = s.performAll r (List.replicate n a) := by
  induction n generalizing r with
  | zero => rfl
  | succ n ih =>
    rw [storeCopies, ← hstep r hr, ih (hfit r hr), List.replicate_succ, Scope.performAll_cons]

theorem storeNumber_eq (note : Text) (t : Token) (width : Nat) (v : Int) (n : Nat) (r : Reading) :
    storeCopies (fun r a => r.writeValue note t a v width) width n r
      = s.performAll r (List.replicate n (.number note t width v)) :=
  storeCopies_eq s (fun _ => True) (fun _ _ => rfl) (fun _ _ => trivial) n trivial

theorem storeReference_eq (note : Text) (t : Token) (width n : Nat) (r : Reading) :
    (match r.lookup t.text with
      | some symbol =>
        storeCopies (fun r a => r.writeValue note t a symbol.address.toNat width) width n r
      | none => storeCopies (fun r a => r.writePending note t a width) width n r)
      = s.performAll r (List.replicate n (.reference note t width)) := by
  cases hlookup : r.lookup t.text with
  | some symbol =>
    refine storeCopies_eq s (fun r => r.lookup t.text = some symbol) ?_ ?_ n hlookup
    · intro r hr
      simp only [Action.perform, hr]
    · intro r hr
      simp [Action.perform, hr]
  | none =>
    refine storeCopies_eq s (fun r => r.lookup t.text = none) ?_ ?_ n hlookup
    · intro r hr
      simp only [Action.perform, hr]
    · intro r hr
      simp [Action.perform, hr]

theorem storeInteger_eq (r : Reading) (note : Text) (d : Directive) (item : DataItem) :
    r.storeInteger note d item = s.performAll r (integerActions note d item) := by
  unfold storeInteger integerActions
  by_cases hinteger : item.token.kind.isInteger = true
  · simp only [hinteger, if_true, Scope.performAll_append, storeNumber_eq s]
    generalize (if item.negated = true then Literal.wrap64 (-item.token.value)
      else item.token.value) = v
    cases fitsWidth v d.width <;> rfl
  · by_cases hlabel : (item.token.kind.isLabel && !item.negated) = true
    · simp only [hinteger, hlabel, if_true, if_false, Bool.false_eq_true]
      exact storeReference_eq s note item.token d.width item.count r
    · simp only [hinteger, hlabel, if_false, Bool.false_eq_true]
      rfl

theorem storeReal_eq (r : Reading) (note : Text) (d : Directive) (item : DataItem) :
    r.storeReal note d item = s.performAll r (realActions note d item) := by
  unfold storeReal realActions
  cases hvalue : realValue? item.token with
  | none =>
    simp only [hvalue]
    rfl
  | some x =>
    simp only [hvalue, storeNumber_eq s]
    generalize (if item.negated = true then x.negate else x) = y
    cases d == Directive.float with
    | false => rfl
    | true => cases y.exceedsSingle <;> simp [Action.perform]

theorem storeItems_eq (note : Text) (d : Directive) (items : List DataItem) (r : Reading) :
    items.foldl (fun r item =>
        if d.isInteger then r.storeInteger note d item else r.storeReal note d item) r
      = s.performAll r (items.flatMap (itemActions note d)) := by
  induction items generalizing r with
  | nil => rfl
  | cons item items ih =>
    rw [List.foldl_cons, ih, List.flatMap_cons, Scope.performAll_append, storeInteger_eq s,
      storeReal_eq s, itemActions]
    split <;> rfl

theorem storeNumeric_eq (r : Reading) (note : Text) (d : Directive) (operands : List Token) :
    r.storeNumeric note d operands = s.performAll r (r.numericActions note d operands) := by
  unfold storeNumeric numericActions
  simp only [Scope.performAll_append, storeItems_eq s]
  cases (DataItem.readAll operands).2 <;> cases r.cursors.autoAlign <;> rfl

theorem storeStrings_eq (note : Text) (d : Directive) (operands : List Token) (r : Reading) :
    r.storeStrings note d operands = s.performAll r (r.stringActions note d operands) := by
  induction operands generalizing r with
  | nil => rfl
  | cons t rest ih =>
    rw [storeStrings, stringActions]
    split
    · exact ih _
    · generalize Literal.unescape (stringBody t.text) = unescaped
      obtain ⟨bytes, problem⟩ := unescaped
      -- Both sides store the same string in the state after the report of a bad escape.
      cases problem with
      | none =>
        simp only [Option.toList, Option.elim, List.map_nil, List.nil_append]
        generalize (if (d == Directive.ascii) = true then bytes else bytes ++ [0]) = stored
        cases hstore : r.storeBytes stored with
        | mk after refused => cases refused <;> simp [hstore, ih, Action.perform]
      | some e =>
        simp only [Option.toList, Option.elim, List.map_cons, List.map_nil, List.cons_append,
          List.nil_append]
        generalize (if (d == Directive.ascii) = true then bytes else bytes ++ [0]) = stored
        cases hstore : (r.report note t (.escape e)).storeBytes stored with
        | mk after refused => cases refused <;> simp [hstore, ih, Action.perform]

theorem storeData_eq (r : Reading) (note : Text) (d : Directive) (operands : List Token) :
    r.storeData note d operands = s.performAll r (r.dataActions note d operands) := by
  unfold storeData dataActions
  split
  · exact storeStrings_eq s note d operands r
  · exact storeNumeric_eq s r note d operands

theorem executeAlign_eq (r : Reading) (note : Text) (directive : Token) (operands : List Token) :
    r.executeAlign note directive operands
      = s.performAll r (r.alignActions note directive operands) := by
  rcases operands with _ | ⟨operand, _ | ⟨second, rest⟩⟩
  · rfl
  · simp only [executeAlign, alignActions]
    cases !operand.kind.isInteger || decide (operand.value < 0) with
    | true => rfl
    | false =>
      by_cases hmax : maxAlign < operand.value
      · simp only [hmax, if_true, if_false, Bool.false_eq_true]
        rfl
      · cases hdata : r.cursors.segment.isData with
        | false =>
          by_cases hsmall : operand.value < 2 <;>
            simp [hmax, hsmall, Action.perform, report, record]
        | true => cases operand.value == 0 <;> simp [hmax, Action.perform]
  · rfl

theorem executeData_eq (r : Reading) (note : Text) (d : Directive) (directive : Token)
    (operands : List Token) :
    r.executeData note d directive operands
      = s.performAll r (.announce d ::
          (if r.cursors.segment.isData then
            { r with cursors := { r.cursors with directive := some d } }.dataActions note d operands
           else [.report note directive (.directiveInText d)])) := by
  unfold executeData
  by_cases hdata : r.cursors.segment.isData = true
  · simp only [hdata, if_true, Scope.performAll_cons, storeData_eq s]
    rfl
  · simp only [hdata, if_false, Bool.false_eq_true]
    rfl

theorem selectSection_eq (r : Reading) (note : Text) (directive : Token) (operands : List Token) :
    r.selectSection note directive operands
      = s.performAll r (sectionActions note directive operands) := by
  rcases operands with _ | ⟨operand, _ | ⟨second, rest⟩⟩
  · rfl
  · simp only [selectSection, sectionActions]
    split
    · rfl
    · split <;> rfl
  · rfl

theorem executePlain_eq (r : Reading) (note : Text) (index : Int) (d : Directive)
    (directive : Token) (operands : List Token) :
    r.executePlain note index d directive operands
      = s.performAll r (r.directiveActions note index d directive operands) := by
  cases d with
  | namedSection => exact selectSection_eq s r note directive operands
  | align => exact executeAlign_eq s r note directive operands
  | word | half | byte | doubleWord | float | double | ascii | asciz | string =>
    exact executeData_eq s r note _ directive operands
  | _ => rfl

theorem execute_eq (r : Reading) (note : Text) (index : Int) (directive : Token)
    (operands : List Token) :
    r.execute note index directive operands
      = s.performAll r (r.executeActions note index directive operands) := by
  unfold execute executeActions
  cases hname : Directive.ofName? directive.text with
  | none => rfl
  | some d =>
    cases r.pool.isDefining with
    | true => cases d <;> rfl
    | false => exact executePlain_eq s r note index d directive operands

theorem readPlain_eq (r : Reading) (note : Text) (tokenLine : TokenLine) (first : Token)
    (rest : List Token) :
    r.readPlain s note tokenLine first rest
      = s.performAll r (r.plainActions note tokenLine first rest) := by
  unfold readPlain plainActions
  split
  · rfl
  · split
    · cases r.cursors.directive with
      | none => rfl
      | some d => exact storeData_eq s r note d (first :: rest)
    · split <;> rfl

theorem defineLabels_eq (r : Reading) (note : Text) (tokens : List Token) :
    r.defineLabels note tokens
      = (s.performAll r (labelActions note tokens).1, (labelActions note tokens).2) := by
  fun_induction labelActions note tokens generalizing r with
  | case1 label colon rest hlabel ih =>
    rw [defineLabels, if_pos hlabel, ih]
    rfl
  | case2 label colon rest hlabel =>
    rw [defineLabels, if_neg hlabel]
    rfl
  | case3 tokens hshort =>
    rw [defineLabels]
    · rfl
    · exact hshort

/-- Reading the members of a list in turn performs their actions in turn. -/
theorem foldlM_eq_inTurn {α : Type} {read : Reading → α → Except Fault Reading}
    {actions : Reading → α → List Action}
    (hread : ∀ {r r' : Reading} {x : α}, read r x = .ok r' → r' = s.performAll r (actions r x))
    {xs : List α} {r r' : Reading} (h : xs.foldlM read r = .ok r') :
    r' = s.performAll r (s.inTurn actions r xs) := by
  induction xs generalizing r with
  | nil =>
    cases h
    rfl
  | cons x xs ih =>
    rw [List.foldlM_cons] at h
    cases hx : read r x with
    | error fault =>
      rw [hx] at h
      cases h
    | ok middle =>
      rw [hx] at h
      rw [Scope.inTurn, Scope.performAll_append, ← hread hx]
      exact ih h

theorem expandLine_eq {m : Macro} {call : List Token} {counter : Int} {note : Text}
    {next : Int → TokenLine → Reading → Except Fault Reading}
    {nextActions : Int → TokenLine → Reading → List Action}
    (hnext : ∀ {i : Int} {line : TokenLine} {r r' : Reading}, next i line r = .ok r' →
      r' = s.performAll r (nextActions i line r))
    {r r' : Reading} {i : Int} (h : expandLine s m call counter note next r i = .ok r') :
    r' = s.performAll r (expandActions s m call counter note nextActions r i) := by
  unfold expandLine at h
  unfold expandActions
  split at h
  · rename_i hfull
    cases h
    simp only [hfull, if_true, Scope.performAll_nil]
  · rename_i hfull
    simp only [hfull]
    cases hline : Macro.lineAt? s.lines i with
    | none =>
      rw [hline] at h
      cases h
    | some body =>
      simp only [hline] at h
      cases hsubstitute : m.substitute s.lines i call counter with
      | error e =>
        simp only [hsubstitute] at h
        split at h
        · cases h
        · cases h
          rfl
      | ok text =>
        simp only [hsubstitute] at h
        exact hnext h

/-- Reading a line performs its actions. -/
theorem readLine_eq {stack : CallStack} {note : Text} {index : Int} {tokenLine : TokenLine}
    {r r' : Reading} (h : readLine s stack note index tokenLine r = .ok r') :
    r' = s.performAll r (lineActions s stack note index tokenLine r) := by
  unfold readLine at h
  unfold lineActions
  simp only [defineLabels_eq s] at h
  split at h
  · rename_i herror
    cases h
    simp only [herror, if_true, Scope.performAll_nil]
  · rename_i herror
    simp only [herror, if_false, Bool.false_eq_true, Scope.performAll_append]
    generalize (labelActions note tokenLine.withoutComment.tokens).2 = tokens at h ⊢
    generalize s.performAll r (labelActions note tokenLine.withoutComment.tokens).1 = labelled
      at h ⊢
    cases tokens with
    | nil =>
      cases h
      rfl
    | cons first rest =>
      simp only at h ⊢
      by_cases hdirective : (first.kind == .directive) = true
      · rw [if_pos hdirective] at h ⊢
        cases h
        exact execute_eq s labelled note index first rest
      · rw [if_neg hdirective] at h ⊢
        by_cases hdefining : labelled.pool.isDefining = true
        · rw [if_pos hdefining] at h ⊢
          cases h
          rfl
        · rw [if_neg hdefining] at h ⊢
          cases hcalled : labelled.called? (first :: rest) with
          | none =>
            rw [hcalled] at h
            cases h
            exact readPlain_eq s labelled note tokenLine first rest
          | some called =>
            obtain ⟨m, call⟩ := called
            simp only [hcalled] at h ⊢
            cases hpush : stack.push? tokenLine.source.line with
            | none =>
              rw [hpush] at h
              cases h
              rfl
            | some inner =>
              simp only [hpush] at h ⊢
              by_cases hroom : s.room inner < s.room stack
              · rw [dif_pos hroom] at h ⊢
                rw [Scope.performAll_cons]
                refine foldlM_eq_inTurn s ?_ h
                intro r r' i hline
                exact expandLine_eq s (fun hnext => readLine_eq hnext) hline
              · rw [dif_neg hroom] at h
                cases h
termination_by s.room stack

/-- Reading the lines of a file performs the actions of the file. -/
theorem readLines_eq {r r' : Reading} (h : readLines s r = .ok r') :
    r' = s.performAll r (fileActions s r) := by
  refine foldlM_eq_inTurn s ?_ h
  intro r r' x hx
  obtain ⟨line, i⟩ := x
  simp only at hx ⊢
  split at hx
  · rename_i hfull
    cases hx
    simp only [hfull, if_true, Scope.performAll_nil]
  · rename_i hfull
    simp only [hfull]
    exact readLine_eq s hx

end

end Reading

/-! ### Moments -/

/-- An action of a run in its place. -/
structure Moment where
  scope : Scope
  /-- The state in which the action is performed. -/
  before : Reading
  action : Action
  /-- The actions of the file that follow. -/
  later : List Action

/-- The moments of performing actions. -/
def Scope.moments (s : Scope) (r : Reading) : List Action → List Moment
  | [] => []
  | a :: as => ⟨s, r, a, as⟩ :: s.moments (a.perform s r) as

def Session.moments (session : Session) (config : Config) (isa : Registry) (unit : Nat) :
    List (Text × Array TokenLine) → List Moment
  | [] => []
  | (name, lines) :: rest =>
    if session.log.exceeded then []
    else
      let s : Scope := ⟨config, isa, unit, lines⟩
      let r := Reading.start session name
      let actions := r.fileActions s
      s.moments r actions
        ++ ((s.performAll r actions).finish name).1.moments config isa (unit + 1) rest

def moments (config : Config) (isa : Registry) (files : List SourceFile) : List Moment :=
  let session := Session.ofConfig config
  let (log, tokenized) := tokenizeFiles (isa.vocabulary true) session.log files
  { session with log := log }.moments config isa 0 tokenized

end Rv32Assembler
