import Mathlib.Data.List.Forall2
import Rv32Assembler.Proofs.Step
/-!
# Likeness of states

Two states of the first pass are alike when they differ in nothing but where their tokens come from:
the numbers and files of lines, the words of messages, the notes of statements, and the macros, about
which the relation takes a parameter. What the first pass does with alike tokens in alike states
gives alike states. So no address, no byte and no symbol depends on line numbers.
-/

namespace Rv32Assembler

/-- The tokens differ at most in the line that they come from. -/
structure Token.Alike (t t' : Token) : Prop where
  kind : t'.kind = t.kind
  text : t'.text = t.text
  offset : t'.offset = t.offset
  value : t'.value = t.value
  real : t'.real = t.real

theorem Token.Alike.refl (t : Token) : t.Alike t := ⟨rfl, rfl, rfl, rfl, rfl⟩

theorem Token.Alike.symm {t t' : Token} (h : t.Alike t') : t'.Alike t :=
  ⟨h.kind.symm, h.text.symm, h.offset.symm, h.value.symm, h.real.symm⟩

/-- The logs have the same warnings and errors, in other words. -/
structure Log.Alike (l l' : Log) : Prop where
  limit : l'.limit = l.limit
  warnings : l'.messages.map Message.warning = l.messages.map Message.warning

structure Pending.Alike (p p' : Pending) : Prop where
  address : p'.address = p.address
  width : p'.width = p.width
  token : p.token.Alike p'.token

theorem Pending.Alike.symm {p p' : Pending} (h : p.Alike p') : p'.Alike p :=
  ⟨h.address.symm, h.width.symm, h.token.symm⟩

structure Statement.Alike (s s' : Statement) : Prop where
  unit : s'.unit = s.unit
  operator : s.operator.Alike s'.operator
  operands : List.Forall₂ Token.Alike s.operands s'.operands
  address : s'.address = s.address
  instruction : s'.instruction = s.instruction

theorem Statement.Alike.symm {s s' : Statement} (h : s.Alike s') : s'.Alike s :=
  ⟨h.unit.symm, h.operator.symm, h.operands.flip.imp fun _ _ ht => ht.symm, h.address.symm,
    h.instruction.symm⟩

structure DataItem.Alike (i i' : DataItem) : Prop where
  negated : i'.negated = i.negated
  token : i.token.Alike i'.token
  count : i'.count = i.count

/-- The states are the same but for the places of tokens and the words of messages, and the relation
holds of their macros. -/
structure Reading.Alike (P : MacroPool → MacroPool → Prop) (r r' : Reading) : Prop where
  image : r'.image = r.image
  global : r'.global = r.global
  log : r.log.Alike r'.log
  cursors : r'.cursors = r.cursors
  labels : r'.labels = r.labels
  pool : P r.pool r'.pool
  exported : List.Forall₂ Token.Alike r.exported r'.exported
  pending : List.Forall₂ Pending.Alike r.pending r'.pending
  parsed : List.Forall₂ Statement.Alike r.parsed r'.parsed

/-! ### Logs -/

namespace Log.Alike

variable {l l' : Log}

theorem refl (l : Log) : l.Alike l := ⟨rfl, rfl⟩

theorem symm (h : l.Alike l') : l'.Alike l := ⟨h.limit.symm, h.warnings.symm⟩

theorem errorCount (h : l.Alike l') : l'.errorCount = l.errorCount := by
  have hcount (l : Log) : l.errorCount = (l.messages.map Message.warning).countP fun w => !w := by
    rw [List.countP_map]
    rfl
  rw [hcount, hcount, h.warnings]

theorem warningCount (h : l.Alike l') : l'.warningCount = l.warningCount := by
  have hcount (l : Log) : l.warningCount = (l.messages.map Message.warning).countP id := by
    rw [List.countP_map]
    rfl
  rw [hcount, hcount, h.warnings]

theorem hasErrors (h : l.Alike l') : l'.hasErrors = l.hasErrors := by
  rw [Log.hasErrors, Log.hasErrors, h.errorCount]

theorem hasWarnings (h : l.Alike l') : l'.hasWarnings = l.hasWarnings := by
  rw [Log.hasWarnings, Log.hasWarnings, h.warningCount]

theorem exceeded (h : l.Alike l') : l'.exceeded = l.exceeded := by
  rw [Log.exceeded, Log.exceeded, h.errorCount, h.limit]

theorem add (h : l.Alike l') {m m' : Message} (hm : m'.warning = m.warning) :
    (l.add m).Alike (l'.add m') := by
  unfold Log.add
  simp only [h.exceeded, h.errorCount, h.limit, hm]
  split
  · exact h
  · split <;> exact ⟨rfl, by simp [h.warnings, Log.notice, hm]⟩

theorem addAll (h : l.Alike l') {ms ms' : List Message}
    (hms : List.Forall₂ (fun m m' : Message => m'.warning = m.warning) ms ms') :
    (l.addAll ms).Alike (l'.addAll ms') := by
  induction hms generalizing l l' with
  | nil => exact h
  | cons hm _ ih => exact ih (h.add hm)

end Log.Alike

/-! ### Data items -/

namespace DataItem

def MistakesAlike (m m' : Token × Problem) : Prop := m'.2 = m.2

theorem readValue_alike {t t' : Token} (ht : t.Alike t') {ts ts' : List Token}
    (hts : List.Forall₂ Token.Alike ts ts') :
    (∃ negated value value' used, readValue t ts = .ok (negated, value, used) ∧
        readValue t' ts' = .ok (negated, value', used) ∧ value.Alike value') ∨
      ∃ m m', readValue t ts = .error m ∧ readValue t' ts' = .error m' ∧ MistakesAlike m m' := by
  unfold readValue
  simp only [ht.kind]
  split
  · cases hts with
    | nil => exact .inr ⟨_, _, rfl, rfl, congrArg Problem.loneSign ht.text⟩
    | cons hvalue _ => exact .inl ⟨_, _, _, _, rfl, rfl, hvalue⟩
  · exact .inl ⟨_, _, _, _, rfl, rfl, ht⟩

theorem readCount_alike {ts ts' : List Token} (hts : List.Forall₂ Token.Alike ts ts') :
    (∃ count used, readCount ts = .ok (count, used) ∧ readCount ts' = .ok (count, used)) ∨
      ∃ m m', readCount ts = .error m ∧ readCount ts' = .error m' ∧ MistakesAlike m m' := by
  rcases hts with _ | ⟨hcolon, _ | ⟨hcount, _⟩⟩
  · exact .inl ⟨_, _, rfl, rfl⟩
  · exact .inl ⟨_, _, rfl, rfl⟩
  · simp only [readCount, hcolon.kind, hcount.kind, hcount.value]
    split
    · split
      · exact .inl ⟨_, _, rfl, rfl⟩
      · exact .inr ⟨_, _, rfl, rfl, congrArg Problem.badCount hcount.text⟩
    · exact .inl ⟨_, _, rfl, rfl⟩

theorem read_alike {t t' : Token} (ht : t.Alike t') {ts ts' : List Token}
    (hts : List.Forall₂ Token.Alike ts ts') :
    (∃ item item' used, read t ts = .ok (item, used) ∧ read t' ts' = .ok (item', used) ∧
        item.Alike item') ∨
      ∃ m m', read t ts = .error m ∧ read t' ts' = .error m' ∧ MistakesAlike m m' := by
  unfold read
  rcases readValue_alike ht hts with ⟨negated, value, value', used, h, h', hvalue⟩ | ⟨m, m', h, h', hm⟩
  · rcases readCount_alike (List.forall₂_drop used hts) with ⟨count, more, hc, hc'⟩ | ⟨m, m', hc, hc', hm⟩
    · refine .inl ⟨⟨negated, value, count⟩, ⟨negated, value', count⟩, used + more, ?_, ?_, ?_⟩
      · simp only [h, hc, bind, Except.bind, pure, Except.pure]
      · simp only [h', hc', bind, Except.bind, pure, Except.pure]
      · exact ⟨rfl, hvalue, rfl⟩
    · refine .inr ⟨m, m', ?_, ?_, hm⟩
      · simp only [h, hc, bind, Except.bind]
      · simp only [h', hc', bind, Except.bind]
  · refine .inr ⟨m, m', ?_, ?_, hm⟩
    · simp only [h, bind, Except.bind]
    · simp only [h', bind, Except.bind]

theorem readAll_alike {ts ts' : List Token} (hts : List.Forall₂ Token.Alike ts ts') :
    List.Forall₂ DataItem.Alike (readAll ts).1 (readAll ts').1 ∧
      Option.Rel MistakesAlike (readAll ts).2 (readAll ts').2 := by
  induction hlength : ts.length using Nat.strong_induction_on generalizing ts ts' with
  | _ n ih =>
    cases hts with
    | nil =>
      rw [readAll]
      exact ⟨.nil, .none⟩
    | @cons t t' ts ts' ht hts =>
      rw [readAll, readAll]
      rcases read_alike ht hts with ⟨item, item', used, h, h', hitem⟩ | ⟨m, m', h, h', hm⟩
      · simp only [h, h']
        obtain ⟨hitems, hmistake⟩ := ih (ts.drop used).length
          (by rw [← hlength, List.length_drop, List.length_cons]; omega) (List.forall₂_drop used hts) rfl
        exact ⟨.cons hitem hitems, hmistake⟩
      · simp only [h, h']
        exact ⟨.nil, .some hm⟩

end DataItem

/-! ### Data -/

namespace Reading.Alike

variable {P : MacroPool → MacroPool → Prop} {r r' : Reading} {note note' : Text}

theorem refl {r : Reading} (hpool : P r.pool r.pool) : Alike P r r where
  image := rfl
  global := rfl
  log := .refl _
  cursors := rfl
  labels := rfl
  pool := hpool
  exported := List.forall₂_same.2 fun t _ => .refl t
  pending := List.forall₂_same.2 fun _ _ => ⟨rfl, rfl, .refl _⟩
  parsed := List.forall₂_same.2 fun _ _ =>
    ⟨rfl, .refl _, List.forall₂_same.2 fun t _ => .refl t, rfl, rfl⟩

theorem set_cursors (h : Alike P r r') (cursors : Cursors) :
    Alike P { r with cursors := cursors } { r' with cursors := cursors } :=
  { h with cursors := rfl }

theorem set_pool (h : Alike P r r') {Q : MacroPool → MacroPool → Prop} {p p' : MacroPool}
    (hpool : Q p p') : Alike Q { r with pool := p } { r' with pool := p' } :=
  { h with pool := hpool }

theorem record (h : Alike P r r') {m m' : Message} (hm : m'.warning = m.warning) :
    Alike P (r.record m) (r'.record m') :=
  { h with log := h.log.add hm }

theorem report (h : Alike P r r') {t t' : Token} {p p' : Problem} (hp : p'.isWarning = p.isWarning) :
    Alike P (r.report note t p) (r'.report note' t' p') :=
  h.record hp

theorem lookup (h : Alike P r r') (name : Text) : r'.lookup name = r.lookup name := by
  rw [Reading.lookup, Reading.lookup, h.labels, h.global]

theorem dataCursor (h : Alike P r r') : r'.dataCursor = r.dataCursor := by
  rw [Reading.dataCursor, Reading.dataCursor, h.cursors]

theorem advanceData (h : Alike P r r') (n : Nat) :
    Alike P (r.advanceData n) (r'.advanceData n) := by
  unfold Reading.advanceData
  rw [h.cursors, h.dataCursor]
  exact h.set_cursors _

theorem align (h : Alike P r r') (segment : Segment) (multiple : Nat) :
    Alike P (r.align segment multiple) (r'.align segment multiple) := by
  unfold Reading.align
  simp only [h.cursors]
  split
  · exact h
  · exact { h with cursors := rfl, labels := by rw [h.labels] }

theorem writeValue (h : Alike P r r') (t t' : Token) (a : Address) (v : Int) (width : Nat) :
    Alike P (r.writeValue note t a v width) (r'.writeValue note' t' a v width) := by
  unfold Reading.writeValue
  simp only [h.image]
  split
  · generalize r.image.setDouble a (BitVec.ofInt 64 v) = written
    obtain ⟨image, refused⟩ := written
    cases refused with
    | none => exact { h with image := rfl }
    | some e => exact { h with image := rfl, log := h.log.add rfl }
  · generalize r.image.store a v width = written
    obtain ⟨image, refused⟩ := written
    cases refused with
    | none => exact { h with image := rfl }
    | some e => exact { h with image := rfl, log := h.log.add rfl }

theorem writePending (h : Alike P r r') {t t' : Token} (ht : t.Alike t') (a : Address)
    (width : Nat) : Alike P (r.writePending note t a width) (r'.writePending note' t' a width) := by
  have hwrite : Alike P (r.writeValue note t a 0 width) (r'.writeValue note' t' a 0 width) :=
    h.writeValue t t' a 0 width
  exact { hwrite with pending := List.rel_append hwrite.pending (.cons ⟨rfl, rfl, ht⟩ .nil) }

theorem storeCopies {put put' : Reading → Address → Reading} {width : Nat}
    (hput : ∀ {r r' : Reading}, Alike P r r' → ∀ a, Alike P (put r a) (put' r' a)) (n : Nat)
    (h : Alike P r r') :
    Alike P (Reading.storeCopies put width n r) (Reading.storeCopies put' width n r') := by
  induction n generalizing r r' with
  | zero => exact h
  | succ n ih =>
    rw [Reading.storeCopies, Reading.storeCopies, h.dataCursor]
    exact ih ((hput h _).advanceData width)

theorem storeInteger (h : Alike P r r') (d : Directive) {i i' : DataItem} (hi : i.Alike i') :
    Alike P (r.storeInteger note d i) (r'.storeInteger note' d i') := by
  unfold Reading.storeInteger
  simp only [hi.negated, hi.count, hi.token.kind, hi.token.value, hi.token.text, h.lookup]
  generalize (if i.negated = true then Literal.wrap64 (-i.token.value) else i.token.value) = v
  by_cases hinteger : i.token.kind.isInteger = true
  · simp only [hinteger, if_true]
    refine storeCopies (fun h a => h.writeValue _ _ a _ _) _ ?_
    split
    · exact h
    · exact h.report rfl
  · simp only [hinteger, if_false, Bool.false_eq_true]
    split
    · cases r.lookup i.token.text with
      | some symbol => exact storeCopies (fun h a => h.writeValue _ _ a _ _) _ h
      | none => exact storeCopies (fun h a => h.writePending hi.token a _) _ h
    · exact h.report rfl

theorem storeReal (h : Alike P r r') (d : Directive) {i i' : DataItem} (hi : i.Alike i') :
    Alike P (r.storeReal note d i) (r'.storeReal note' d i') := by
  have hvalue : realValue? i'.token = realValue? i.token := by
    simp only [realValue?, hi.token.kind, hi.token.value, hi.token.text, hi.token.real]
  unfold Reading.storeReal
  simp only [hi.negated, hi.count, hi.token.text, hvalue]
  cases realValue? i.token with
  | none => exact h.report rfl
  | some x =>
    simp only
    generalize (if i.negated = true then x.negate else x) = y
    split
    · split
      · exact h.report rfl
      · exact storeCopies (fun h a => h.writeValue _ _ a _ _) _ h
    · exact storeCopies (fun h a => h.writeValue _ _ a _ _) _ h

/-- Alike members of two lists, taken in turn, keep states alike. -/
theorem foldl {α : Type} {R : α → α → Prop} {f f' : Reading → α → Reading}
    (hf : ∀ {r r' : Reading} {x x' : α}, Alike P r r' → R x x' → Alike P (f r x) (f' r' x'))
    {xs xs' : List α} (hxs : List.Forall₂ R xs xs') (h : Alike P r r') :
    Alike P (xs.foldl f r) (xs'.foldl f' r') := by
  induction hxs generalizing r r' with
  | nil => exact h
  | cons hx _ ih => exact ih (hf h hx)

theorem storeNumeric (h : Alike P r r') (d : Directive) {ts ts' : List Token}
    (hts : List.Forall₂ Token.Alike ts ts') :
    Alike P (r.storeNumeric note d ts) (r'.storeNumeric note' d ts') := by
  obtain ⟨hitems, hmistake⟩ := DataItem.readAll_alike hts
  have haligned : Alike P (if r.cursors.autoAlign then r.align r.cursors.dataSegment d.width else r)
      (if r'.cursors.autoAlign then r'.align r'.cursors.dataSegment d.width else r') := by
    rw [h.cursors]
    split
    · exact h.align _ _
    · exact h
  have hstored := foldl (fun {r r' item item'} h hitem => by
      show Alike P (if d.isInteger then r.storeInteger note d item else r.storeReal note d item)
        (if d.isInteger then r'.storeInteger note' d item' else r'.storeReal note' d item')
      split
      · exact h.storeInteger d hitem
      · exact h.storeReal d hitem) hitems haligned
  unfold Reading.storeNumeric
  simp only
  generalize (DataItem.readAll ts).2 = mistake, (DataItem.readAll ts').2 = mistake' at hmistake ⊢
  cases hmistake with
  | none => exact hstored
  | some hm => exact hstored.report (by rw [hm])

theorem storeBytes (h : Alike P r r') (bytes : Text) :
    Alike P (r.storeBytes bytes).1 (r'.storeBytes bytes).1 ∧
      (r'.storeBytes bytes).2 = (r.storeBytes bytes).2 := by
  induction bytes generalizing r r' with
  | nil => exact ⟨h, rfl⟩
  | cons b bytes ih =>
    rw [Reading.storeBytes, Reading.storeBytes, h.image, h.dataCursor]
    generalize r.image.store r.dataCursor b.toNat 1 = written
    obtain ⟨image, refused⟩ := written
    have hstored : Alike P { r with image := image } { r' with image := image } :=
      { h with image := rfl }
    cases refused with
    | some e => exact ⟨hstored, rfl⟩
    | none => exact ih (hstored.advanceData 1)

theorem storeStrings_cons (r : Reading) (d : Directive) (t : Token) (ts : List Token) :
    r.storeStrings note d (t :: ts)
      = if t.kind != .quotedString then
          (r.report note t (.badString t.text d)).storeStrings note d ts
        else
          let unescaped := Literal.unescape (stringBody t.text)
          let reported := unescaped.2.elim r fun e => r.report note t (.escape e)
          let stored := reported.storeBytes
            (if d == .ascii then unescaped.1 else unescaped.1 ++ [0])
          stored.2.elim (stored.1.storeStrings note d ts) fun e =>
            stored.1.report note t (.address e) := by
  rw [Reading.storeStrings]
  split
  · rfl
  · generalize Literal.unescape (stringBody t.text) = unescaped
    obtain ⟨bytes, problem⟩ := unescaped
    cases problem with
    | none =>
      simp only [Option.elim_none]
      generalize r.storeBytes _ = stored
      obtain ⟨after, refused⟩ := stored
      cases refused <;> rfl
    | some e =>
      simp only [Option.elim_some]
      generalize (r.report note t (.escape e)).storeBytes _ = stored
      obtain ⟨after, refused⟩ := stored
      cases refused <;> rfl

theorem storeStrings (h : Alike P r r') (d : Directive) {ts ts' : List Token}
    (hts : List.Forall₂ Token.Alike ts ts') :
    Alike P (r.storeStrings note d ts) (r'.storeStrings note' d ts') := by
  induction hts generalizing r r' with
  | nil => exact h
  | @cons t t' ts ts' ht _ ih =>
    rw [storeStrings_cons, storeStrings_cons]
    simp only [ht.kind, ht.text]
    split
    · exact ih (h.report rfl)
    · generalize Literal.unescape (stringBody t.text) = unescaped
      have hreported : Alike P (unescaped.2.elim r fun e => r.report note t (.escape e))
          (unescaped.2.elim r' fun e => r'.report note' t' (.escape e)) := by
        cases unescaped.2 with
        | none => exact h
        | some e => exact h.report rfl
      obtain ⟨hstored, hrefused⟩ := hreported.storeBytes
        (if d == .ascii then unescaped.1 else unescaped.1 ++ [0])
      rw [hrefused]
      generalize Reading.storeBytes (unescaped.2.elim r _) _ = stored at hstored ⊢
      cases stored.2 with
      | none => exact ih hstored
      | some e => exact hstored.report rfl

theorem storeData (h : Alike P r r') (d : Directive) {ts ts' : List Token}
    (hts : List.Forall₂ Token.Alike ts ts') :
    Alike P (r.storeData note d ts) (r'.storeData note' d ts') := by
  unfold Reading.storeData
  split
  · exact h.storeStrings d hts
  · exact h.storeNumeric d hts

/-! ### Directives -/

theorem executeData (h : Alike P r r') (d : Directive) (t t' : Token) {ts ts' : List Token}
    (hts : List.Forall₂ Token.Alike ts ts') :
    Alike P (r.executeData note d t ts) (r'.executeData note' d t' ts') := by
  unfold Reading.executeData
  simp only [h.cursors]
  split
  · exact (h.set_cursors _).storeData d hts
  · exact (h.set_cursors _).report rfl

theorem selectSegment (h : Alike P r r') (t t' : Token) {ts ts' : List Token}
    (hts : List.Forall₂ Token.Alike ts ts') (segment : Segment) :
    Alike P (r.selectSegment note t ts segment) (r'.selectSegment note' t' ts' segment) := by
  unfold Reading.selectSegment
  rw [h.cursors]
  rcases hts with _ | ⟨hfirst, _ | ⟨_, _⟩⟩
  · exact h.set_cursors _
  · simp only [hfirst.kind, hfirst.value, List.isEmpty_nil, Bool.true_and]
    split
    · exact h.set_cursors _
    · exact (h.set_cursors _).report rfl
  · exact (h.set_cursors _).report rfl

theorem selectSection (h : Alike P r r') (t t' : Token) {ts ts' : List Token}
    (hts : List.Forall₂ Token.Alike ts ts') :
    Alike P (r.selectSection note t ts) (r'.selectSection note' t' ts') := by
  unfold Reading.selectSection
  rcases hts with _ | ⟨hfirst, _ | ⟨_, _⟩⟩
  · exact h.report rfl
  · simp only [hfirst.text]
    split
    · exact h.selectSegment t t' .nil _
    · split
      · exact h.selectSegment t t' .nil _
      · exact h.report rfl
  · exact h.report rfl

theorem executeAlign (h : Alike P r r') (t t' : Token) {ts ts' : List Token}
    (hts : List.Forall₂ Token.Alike ts ts') :
    Alike P (r.executeAlign note t ts) (r'.executeAlign note' t' ts') := by
  unfold Reading.executeAlign
  rcases hts with _ | ⟨hfirst, _ | ⟨_, _⟩⟩
  · exact h.report rfl
  · simp only [hfirst.kind, hfirst.value, h.cursors]
    split
    · exact h.report rfl
    · split
      · exact h.report rfl
      · split
        · split
          · show Alike P _ ((r'.report note' _ (.alignRounded _)).align r'.cursors.textSegment _)
            rw [h.cursors]
            exact (h.report rfl).align _ _
          · rw [h.cursors]
            exact h.align _ _
        · split
          · exact h.set_cursors _
          · exact h.align _ _
  · exact h.report rfl

theorem executeSpace (h : Alike P r r') (t t' : Token) {ts ts' : List Token}
    (hts : List.Forall₂ Token.Alike ts ts') :
    Alike P (r.executeSpace note t ts) (r'.executeSpace note' t' ts') := by
  unfold Reading.executeSpace
  rw [h.cursors]
  split
  · exact h.report rfl
  · rcases hts with _ | ⟨hfirst, _ | ⟨_, _⟩⟩
    · exact h.report rfl
    · simp only [hfirst.kind, hfirst.value]
      split
      · exact h.advanceData _
      · exact h.report rfl
    · exact h.report rfl

theorem executeExternal (h : Alike P r r') (t t' : Token) {ts ts' : List Token}
    (hts : List.Forall₂ Token.Alike ts ts') :
    Alike P (r.executeExternal note t ts) (r'.executeExternal note' t' ts') := by
  unfold Reading.executeExternal
  rcases hts with _ | ⟨hlabel, _ | ⟨hsize, _ | ⟨_, _⟩⟩⟩
  · exact h.report rfl
  · exact h.report rfl
  · simp only [hlabel.kind, hlabel.text, hsize.kind, hsize.value, h.global, h.cursors]
    split
    · split
      · exact h
      · exact { h with global := rfl, cursors := rfl }
    · exact h.report rfl
  · exact h.report rfl

theorem executeGlobal (h : Alike P r r') (d : Directive) (t t' : Token) {ts ts' : List Token}
    (hts : List.Forall₂ Token.Alike ts ts') :
    Alike P (r.executeGlobal note d t ts) (r'.executeGlobal note' d t' ts') := by
  unfold Reading.executeGlobal
  have hempty : ts'.isEmpty = ts.isEmpty := by
    cases hts <;> rfl
  rw [hempty]
  split
  · exact h.report rfl
  · refine foldl ?_ hts h
    intro r r' u u' h hu
    simp only [hu.kind]
    split
    · exact { h with exported := List.rel_append h.exported (.cons hu .nil) }
    · exact h.report rfl

theorem executePlain (h : Alike P r r') {d : Directive} (hbegin : d ≠ .beginMacro)
    (hend : d ≠ .endMacro) (index index' : Int) (t t' : Token) {ts ts' : List Token}
    (hts : List.Forall₂ Token.Alike ts ts') :
    Alike P (r.executePlain note index d t ts) (r'.executePlain note' index' d t' ts') := by
  cases d with
  | data | kernelData | text | kernelText => exact h.selectSegment t t' hts _
  | namedSection => exact h.selectSection t t' hts
  | word | half | byte | doubleWord | float | double | ascii | asciz | string =>
    exact h.executeData _ t t' hts
  | align => exact h.executeAlign t t' hts
  | space => exact h.executeSpace t t' hts
  | external => exact h.executeExternal t t' hts
  | globl | global => exact h.executeGlobal _ t t' hts
  | equivalence => exact h
  | includeFile => exact h.report rfl
  | beginMacro => exact absurd rfl hbegin
  | endMacro => exact absurd rfl hend

end Reading.Alike

/-! ### Instructions -/

namespace Instruction

theorem accepts_alike (form : Instruction) {ts ts' : List Token}
    (hts : List.Forall₂ Token.Alike ts ts') : form.accepts ts' = form.accepts ts := by
  have hall {p : Kind × Token → Bool}
      (hp : ∀ required {t t' : Token}, t.Alike t' → p (required, t') = p (required, t))
      (format : List Kind) : (format.zip ts').all p = (format.zip ts).all p := by
    induction hts generalizing format with
    | nil => rfl
    | cons ht _ ih =>
      cases format with
      | nil => rfl
      | cons required format => simp only [List.zip_cons_cons, List.all_cons, hp required ht, ih]
  rw [accepts, accepts, hts.length_eq, hall fun required t t' ht => by simp only [ht.kind]]

theorem select_alike (forms : List Instruction) {ts ts' : List Token}
    (hts : List.Forall₂ Token.Alike ts ts') : select forms ts' = select forms ts := by
  have haccepts : (fun i : Instruction => i.accepts ts') = fun i => i.accepts ts := by
    funext form
    exact form.accepts_alike hts
  rw [select, select, haccepts]

theorem operandError?_alike (form : Instruction) (required : Kind) {t t' : Token}
    (ht : t.Alike t') : form.operandError? required t' = form.operandError? required t := by
  simp only [operandError?, ht.kind, ht.text]

theorem check_alike (form : Instruction) (t t' : Token) {ts ts' : List Token}
    (hts : List.Forall₂ Token.Alike ts ts') :
    (form.check t' ts').map Prod.snd = (form.check t ts).map Prod.snd := by
  have hfind {f : Kind × Token → Option (Token × OperandError)}
      (hf : ∀ required {t t' : Token}, t.Alike t' →
        (f (required, t')).map Prod.snd = (f (required, t)).map Prod.snd) (format : List Kind) :
      ((format.zip ts').findSome? f).map Prod.snd = ((format.zip ts).findSome? f).map Prod.snd := by
    induction hts generalizing format with
    | nil => rfl
    | @cons u u' _ _ hu _ ih =>
      cases format with
      | nil => rfl
      | cons required format =>
        have hsame := hf required hu
        simp only [List.zip_cons_cons, List.findSome?_cons]
        cases hfound : f (required, u) with
        | none =>
          rw [hfound, Option.map_none, Option.map_eq_none_iff] at hsame
          rw [hsame]
          exact ih format
        | some found =>
          rw [hfound, Option.map_some] at hsame
          obtain ⟨found', hfound', hsame⟩ := Option.map_eq_some_iff.1 hsame
          rw [hfound']
          exact congrArg some hsame
  unfold check
  rw [hts.length_eq]
  split
  · rfl
  · by_cases hbeyond : form.format.length < ts.length
    · rw [List.getElem?_eq_getElem hbeyond, List.getElem?_eq_getElem (hts.length_eq ▸ hbeyond)]
      rfl
    · rw [List.getElem?_eq_none (Nat.le_of_not_lt hbeyond),
        List.getElem?_eq_none (hts.length_eq ▸ Nat.le_of_not_lt hbeyond)]
      refine hfind ?_ form.format
      intro required u u' hu
      simp only [form.operandError?_alike required hu, Option.map_map]
      rfl

end Instruction

namespace Reading.Alike

variable {P : MacroPool → MacroPool → Prop} {r r' : Reading} {note note' : Text}

theorem readInstruction (h : Alike P r r') {s s' : Scope} (hconfig : s'.config = s.config)
    (hisa : s'.isa = s.isa) (hunit : s'.unit = s.unit) (line line' : TokenLine) {t t' : Token}
    (ht : t.Alike t') {ts ts' : List Token} (hts : List.Forall₂ Token.Alike ts ts') :
    Alike P (r.readInstruction s note line t ts) (r'.readInstruction s' note' line' t' ts') := by
  unfold Reading.readInstruction
  simp only [ht.kind, ht.text, hisa, hconfig, hunit, h.cursors, Instruction.select_alike _ hts]
  split
  · split <;> split <;> exact h.report rfl
  · cases Instruction.select (s.isa.lookup t.text) ts with
    | none => exact h.report rfl
    | some form =>
      simp only
      split
      · exact h.report rfl
      · have hcheck := form.check_alike t t' hts
        cases hfound : form.check t ts with
        | some found =>
          rw [hfound] at hcheck
          obtain ⟨found', hfound', -⟩ := Option.map_eq_some_iff.1 hcheck
          rw [hfound']
          exact h.report rfl
        | none =>
          rw [hfound, Option.map_none, Option.map_eq_none_iff] at hcheck
          rw [hcheck]
          exact { h with
            cursors := rfl
            parsed := List.rel_append h.parsed (.cons ⟨rfl, ht, hts, rfl, rfl⟩ .nil) }

theorem readPlain (h : Alike P r r') {s s' : Scope} (hconfig : s'.config = s.config)
    (hisa : s'.isa = s.isa) (hunit : s'.unit = s.unit) (line line' : TokenLine) {t t' : Token}
    (ht : t.Alike t') {ts ts' : List Token} (hts : List.Forall₂ Token.Alike ts ts') :
    Alike P (r.readPlain s note line t ts) (r'.readPlain s' note' line' t' ts') := by
  have hcontinues : continuesData t' = continuesData t := by
    simp only [continuesData, ht.kind]
  unfold Reading.readPlain
  simp only [ht.kind, ht.text, h.cursors, hcontinues]
  split
  · exact h.report rfl
  · split
    · cases r.cursors.directive with
      | none => exact h.report rfl
      | some d => exact h.storeData d (.cons ht hts)
    · split
      · exact h.report rfl
      · exact h.readInstruction hconfig hisa hunit line line' ht hts

end Reading.Alike

/-! ### What leaves the macros alone

A state is like itself, so what keeps states alike whatever is asked of their macros leaves the
macros as they are. -/

namespace Reading

theorem pool_readPlain (r : Reading) (s : Scope) (note : Text) (line : TokenLine) (t : Token)
    (ts : List Token) : (r.readPlain s note line t ts).pool = r.pool := by
  have h : Alike (fun p _ => p = r.pool) r r := .refl rfl
  have hread : Alike (fun p _ => p = r.pool) (r.readPlain s note line t ts)
      (r.readPlain s note line t ts) :=
    h.readPlain rfl rfl rfl line line (.refl t) (List.forall₂_same.2 fun t _ => .refl t)
  exact hread.pool

theorem pool_executePlain (r : Reading) (note : Text) (index : Int) {d : Directive}
    (hbegin : d ≠ .beginMacro) (hend : d ≠ .endMacro) (t : Token) (ts : List Token) :
    (r.executePlain note index d t ts).pool = r.pool := by
  have h : Alike (fun p _ => p = r.pool) r r := .refl rfl
  have hexecute : Alike (fun p _ => p = r.pool) (r.executePlain note index d t ts)
      (r.executePlain note index d t ts) :=
    h.executePlain hbegin hend index index t t (List.forall₂_same.2 fun t _ => .refl t)
  exact hexecute.pool

/-- A directive starts a definition, ends one or leaves the macros alone. -/
theorem execute_cases (r : Reading) (note : Text) (index : Int) (t : Token) (ts : List Token) :
    (r.execute note index t ts).pool = r.pool ∨
      r.pool.begin ts index = .ok (r.execute note index t ts).pool ∨
      r.pool.commit index t.line ts = .ok (r.execute note index t ts).pool := by
  have hbegin : (r.executeBegin note index t ts).pool = r.pool ∨
      r.pool.begin ts index = .ok (r.executeBegin note index t ts).pool := by
    rw [executeBegin_eq]
    cases r.pool.begin ts index with
    | ok pool => exact .inr rfl
    | error e => exact .inl rfl
  have hend : (r.executeEnd note index t ts).pool = r.pool ∨
      r.pool.commit index t.line ts = .ok (r.executeEnd note index t ts).pool := by
    rw [executeEnd_eq]
    cases r.pool.commit index t.line ts with
    | ok pool => exact .inr rfl
    | error e => exact .inl rfl
  unfold execute
  cases Directive.ofName? t.text with
  | none => exact .inl rfl
  | some d =>
    simp only
    by_cases hb : d = .beginMacro
    · subst hb
      split
      · exact hbegin.imp id .inl
      · exact hbegin.imp id .inl
    · by_cases he : d = .endMacro
      · subst he
        split
        · exact hend.imp id .inr
        · exact hend.imp id .inr
      · split
        · simp [hb, he]
        · exact .inl (r.pool_executePlain note index hb he t ts)

end Reading

end Rv32Assembler
