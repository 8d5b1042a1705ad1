import Rv32Assembler.Proofs.Decimal
import Rv32Assembler.Proofs.ErrorLimit
import Rv32Assembler.Proofs.Promotion
/-!
# Messages about missing symbols

That a symbol is missing is said in words that no other message of the first pass has
(`not_saysMissing`): the others start differently, or they start with a name and end differently. So a
log can be asked for the messages that say so (`Log.missing`), whatever else it holds. Tokenizing adds
none to those that come with the files, and neither does reading a line (`missing_result`), the end of a
file (`missing_finish`) or a patch.
-/

namespace Rv32Assembler

/-- The words say that a symbol is missing. -/
def Text.saysMissing (s : Text) : Bool :=
  ("symbol " : Text).isPrefixOf s && (" not found in symbol table" : Text).isSuffixOf s

def Log.missing (l : Log) : List Message := l.messages.filter fun m => m.text.saysMissing

/-! ### Words -/

theorem Text.saysMissing_undefined (name : Text) :
    Text.saysMissing ("symbol " ++ name ++ " not found in symbol table") = true := by
  simp only [saysMissing, Bool.and_eq_true, List.isPrefixOf_iff_prefix, List.isSuffixOf_iff_suffix]
  refine ⟨?_, List.suffix_append _ _⟩
  rw [List.append_assoc]
  exact List.prefix_append _ _

theorem Text.not_saysMissing_append (s : Text) {ending : Text}
    (h : ∀ s, (" not found in symbol table" : Text).reverse.isPrefixOf (ending.reverse ++ s) = false) :
    saysMissing (s ++ ending) = false := by
  rw [saysMissing, Bool.and_eq_false_iff]
  right
  rw [List.isSuffixOf, List.reverse_append]
  exact h s.reverse

theorem Text.not_saysMissing_of_getLast {s : Text} {b : UInt8} (h : b ∈ s.getLast?)
    (hb : b ≠ 0x65) : saysMissing s = false := by
  rw [saysMissing, Bool.and_eq_false_iff]
  right
  rw [Bool.eq_false_iff, ne_eq, List.isSuffixOf_iff_suffix]
  rintro ⟨front, rfl⟩
  rw [List.getLast?_append_of_ne_nil _ (by decide)] at h
  exact hb (Option.some.inj h).symm

theorem Macro.Error.not_saysMissing (e : Macro.Error) : e.message.saysMissing = false := by
  cases e <;> rfl

theorem Literal.EscapeError.not_saysMissing (e : Literal.EscapeError) :
    e.message.saysMissing = false := by
  cases e <;> rfl

theorem LexicalError.not_saysMissing (e : LexicalError) : e.message.saysMissing = false := by
  cases e with
  | character error =>
    cases error with
    | escape error => exact error.not_saysMissing
    | notOne body => rfl
  | _ => rfl

theorem EquivalenceError.not_saysMissing (e : EquivalenceError) : e.message.saysMissing = false := by
  cases e with
  | redefined symbol value line =>
    -- The number at the end ends in a digit.
    have hne : Text.decimal line ≠ [] := by
      unfold Text.decimal
      split <;> simp [Text.digits_ne_nil]
    refine Text.not_saysMissing_of_getLast (b := (Text.decimal line).getLast hne) ?_ fun hlast => ?_
    · rw [message, List.getLast?_append_of_ne_nil _ hne, List.getLast?_eq_getLast_of_ne_nil hne]
      rfl
    · have hmem := List.getLast_mem hne
      rw [hlast] at hmem
      rcases Text.isDigit_of_mem_decimal hmem with hsign | hdigit
      · exact absurd hsign (by decide)
      · exact hdigit.ne.2.2.2.1 rfl
  | _ => rfl

namespace Problem

def isLate : Problem → Bool
  | undefinedSymbol _ | operand (.undefinedSymbol _) | template _ | encoding _ => true
  | _ => false

theorem not_saysMissing {p : Problem} (h : p.isLate = false) : p.message.saysMissing = false := by
  cases p with
  | undefinedSymbol | template | encoding => cases h
  | operand error =>
    cases error with
    | undefinedSymbol => cases h
    | _ => rfl
  | definition error => exact error.not_saysMissing
  | escape error => exact error.not_saysMissing
  | directiveInText | noGlobalLabel | undefinedGlobal | duplicateGlobal | segmentOperands =>
    exact Text.not_saysMissing_append _ fun _ => rfl
  | _ => rfl

end Problem

/-! ### Logs -/

namespace Log

/-- A message that says something else leaves those that say it, in a full log too. -/
theorem missing_add {m : Message} (h : m.text.saysMissing = false) (l : Log) :
    (l.add m).missing = l.missing := by
  have hnotice : l.notice.text.saysMissing = false := rfl
  unfold add
  split
  · rfl
  · split
    · simp [missing, hnotice]
    · simp [missing, h]

theorem missing_addAll {ms : List Message} (h : ∀ m ∈ ms, m.text.saysMissing = false) (l : Log) :
    (l.addAll ms).missing = l.missing := by
  induction ms generalizing l with
  | nil => rfl
  | cons m ms ih =>
    rw [List.forall_mem_cons] at h
    exact (ih h.2 (l.add m)).trans (missing_add h.1 l)

theorem room_of_addAll {l : Log} {ms : List Message} (h : (l.addAll ms).exceeded = false) :
    l.exceeded = false := by
  rw [Bool.eq_false_iff]
  intro hfull
  rw [addAll_of_exceeded hfull, hfull] at h
  cases h

theorem add_of_room {l : Log} {m : Message} (h : (l.add m).exceeded = false) :
    l.add m = { l with messages := l.messages ++ [m] } := by
  unfold add at h ⊢
  split at h
  · rename_i hfull
    rw [hfull] at h
    cases h
  · rename_i hroom
    split at h
    · rename_i hlast
      simp only [Bool.and_eq_true, decide_eq_true_eq] at hlast
      have hcount : errorCount { l with messages := l.messages ++ [l.notice] } = l.errorCount + 1 := by
        simp [errorCount, notice]
      simp only [exceeded, hcount, decide_eq_false_iff_not] at h
      omega
    · rename_i hlast
      rw [if_neg hroom, if_neg hlast]

theorem messages_addAll {l : Log} {ms : List Message} (h : (l.addAll ms).exceeded = false) :
    (l.addAll ms).messages = l.messages ++ ms := by
  induction ms generalizing l with
  | nil => simp [addAll]
  | cons m ms ih =>
    have hrest : (l.addAll (m :: ms)).messages = (l.add m).messages ++ ms := ih h
    have hroom : ((l.add m).addAll ms).exceeded = false := h
    rw [hrest, add_of_room (room_of_addAll hroom)]
    simp

theorem missing_addAll_of_room {l : Log} {ms : List Message} (h : (l.addAll ms).exceeded = false) :
    (l.addAll ms).missing = l.missing ++ ms.filter fun m => m.text.saysMissing := by
  simp [missing, messages_addAll h]

end Log

theorem not_saysMissing_lexicalMessages (note : Text) (problems : List LexicalProblem) :
    ∀ m ∈ lexicalMessages note problems, m.text.saysMissing = false := by
  intro m hm
  obtain ⟨⟨t, error⟩, -, rfl⟩ := List.mem_map.1 hm
  exact error.not_saysMissing

theorem Vocabulary.missing_tokenizeLines (v : Vocabulary) (es : Equivalences) (log : Log)
    (lines : List SourceLine) : (v.tokenizeLines es log lines).2.missing = log.missing := by
  induction lines generalizing es log with
  | nil => rfl
  | cons line lines ih =>
    rw [tokenizeLines]
    have hproblems := Log.missing_addAll
      (not_saysMissing_lexicalMessages [] (v.tokenizeUnder es line).2) log
    simp only
    split
    · exact (ih _ _).trans hproblems
    · rename_i t error _
      exact (ih _ _).trans ((Log.missing_add error.not_saysMissing _).trans hproblems)

theorem missing_tokenizeFiles {v : Vocabulary} {log : Log} {files : List SourceFile}
    (h : (tokenizeFiles v log files).1.exceeded = false) :
    (tokenizeFiles v log files).1.missing
      = log.missing ++ (files.flatMap SourceFile.messages).filter fun m => m.text.saysMissing := by
  induction files generalizing log with
  | nil => simp [tokenizeFiles]
  | cons f files ih =>
    obtain ⟨tokens, ms, hlines⟩ := exists_tokenizeLines v [] f.lines
    obtain ⟨tokenized, more, hfiles⟩ := exists_tokenizeFiles_eq v files
    have hfile := v.missing_tokenizeLines [] (log.addAll f.messages) f.lines
    rw [tokenizeFiles] at h ⊢
    simp only [Vocabulary.tokenizeFile] at h ⊢
    have hroom : (log.addAll f.messages).exceeded = false := by
      simp only [hlines, hfiles] at h
      exact Log.room_of_addAll (Log.room_of_addAll h)
    rw [ih h, hfile, Log.missing_addAll_of_room hroom]
    simp

/-! ### Reading a file -/

namespace DataItem

variable {mistake : Token × Problem}

theorem not_isLate_of_readValue {t : Token} {rest : List Token}
    (h : readValue t rest = .error mistake) : mistake.2.isLate = false := by
  unfold readValue at h
  split at h
  · split at h
    · cases h
    · cases h
      rfl
  · cases h

theorem not_isLate_of_readCount {rest : List Token} (h : readCount rest = .error mistake) :
    mistake.2.isLate = false := by
  unfold readCount at h
  split at h
  · split at h
    · split at h
      · cases h
      · cases h
        rfl
    · cases h
  · cases h

theorem not_isLate_of_read {t : Token} {rest : List Token} (h : read t rest = .error mistake) :
    mistake.2.isLate = false := by
  unfold read at h
  cases hvalue : readValue t rest with
  | error e =>
    rw [hvalue] at h
    cases h
    exact not_isLate_of_readValue hvalue
  | ok value =>
    rw [hvalue] at h
    cases hcount : readCount (rest.drop value.2.2) with
    | error e =>
      simp only [bind, Except.bind, hcount] at h
      cases h
      exact not_isLate_of_readCount hcount
    | ok count =>
      simp only [bind, Except.bind, hcount] at h
      cases h

theorem not_isLate_of_readAll {ts : List Token} (h : (readAll ts).2 = some mistake) :
    mistake.2.isLate = false := by
  fun_induction readAll ts with
  | case1 => cases h
  | case2 t rest mistake' hread =>
    cases h
    exact not_isLate_of_read hread
  | case3 t rest item used hread items mistake' hrest ih =>
    exact ih (by rw [hrest]; exact h)

end DataItem

/-- A form refuses operands by their number or kind, not by what they name. -/
theorem Instruction.not_isLate_of_check {i : Instruction} {operator t : Token}
    {operands : List Token} {e : OperandError} (h : i.check operator operands = some (t, e)) :
    (Problem.operand e).isLate = false := by
  unfold check at h
  split at h
  · cases h
    rfl
  · split at h
    · cases h
      rfl
    · obtain ⟨⟨required, given⟩, -, hfound⟩ := List.exists_of_findSome?_eq_some h
      obtain ⟨e', herror, heq⟩ := Option.map_eq_some_iff.1 hfound
      cases heq
      unfold operandError? at herror
      split at herror
      · cases herror
      · cases herror
      · cases herror
        rfl
      · split at herror <;> cases herror <;> rfl

namespace Reading

theorem missing_report (r : Reading) (note : Text) (t : Token) {p : Problem}
    (h : p.isLate = false) : (r.report note t p).log.missing = r.log.missing :=
  Log.missing_add (Problem.not_saysMissing h) r.log

theorem missing_stored (s : Session) (t : Token) (note : Text)
    (outcome : Image MachineStatement × Option Image.AddressError) :
    (s.stored t note outcome).log.missing = s.log.missing := by
  obtain ⟨image, _ | e⟩ := outcome
  · rfl
  · exact Log.missing_add (Problem.not_saysMissing (p := .address e) rfl) s.log

theorem missing_writeValue (r : Reading) (note : Text) (t : Token) (a : Address) (v : Int)
    (width : Nat) : (r.writeValue note t a v width).log.missing = r.log.missing := by
  unfold writeValue
  split
  · generalize r.image.setDouble a (BitVec.ofInt 64 v) = result
    obtain ⟨image, refused⟩ := result
    cases refused with
    | none => rfl
    | some e => exact missing_report _ note t rfl
  · exact missing_stored r.toSession t note _

theorem missing_writePending (r : Reading) (note : Text) (t : Token) (a : Address) (width : Nat) :
    (r.writePending note t a width).log.missing = r.log.missing :=
  r.missing_writeValue note t a 0 width

theorem missing_storeCopies {put : Reading → Address → Reading}
    (h : ∀ r a, (put r a).log.missing = r.log.missing) (width n : Nat) (r : Reading) :
    (storeCopies put width n r).log.missing = r.log.missing := by
  induction n generalizing r with
  | zero => rfl
  | succ n ih => exact (ih _).trans (h r _)

theorem missing_storeInteger (r : Reading) (note : Text) (d : Directive) (item : DataItem) :
    (r.storeInteger note d item).log.missing = r.log.missing := by
  unfold storeInteger
  simp only
  split
  · generalize (if item.negated = true then Literal.wrap64 (-item.token.value)
      else item.token.value) = v
    rw [missing_storeCopies fun r a => r.missing_writeValue note _ a _ _]
    split
    · rfl
    · exact missing_report r note _ rfl
  · split
    · split
      · exact missing_storeCopies (fun r a => r.missing_writeValue note _ a _ _) _ _ r
      · exact missing_storeCopies (fun r a => r.missing_writePending note _ a _) _ _ r
    · exact missing_report r note _ rfl

theorem missing_storeReal (r : Reading) (note : Text) (d : Directive) (item : DataItem) :
    (r.storeReal note d item).log.missing = r.log.missing := by
  unfold storeReal
  simp only
  split
  · exact missing_report r note _ rfl
  · rename_i x _
    generalize (if item.negated = true then x.negate else x) = value
    split
    · split
      · exact missing_report r note _ rfl
      · exact missing_storeCopies (fun r a => r.missing_writeValue note _ a _ _) _ _ r
    · exact missing_storeCopies (fun r a => r.missing_writeValue note _ a _ _) _ _ r

theorem missing_foldl {α : Type} {f : Reading → α → Reading}
    (h : ∀ r x, (f r x).log.missing = r.log.missing) (xs : List α) (r : Reading) :
    (xs.foldl f r).log.missing = r.log.missing := by
  induction xs generalizing r with
  | nil => rfl
  | cons x xs ih => exact (ih _).trans (h r x)

theorem log_align (r : Reading) (s : Segment) (multiple : Nat) : (r.align s multiple).log = r.log := by
  rcases r.align_cases s multiple with h | ⟨-, h⟩ <;> rw [h]

theorem missing_storeNumeric (r : Reading) (note : Text) (d : Directive) (operands : List Token) :
    (r.storeNumeric note d operands).log.missing = r.log.missing := by
  have hitems (items : List DataItem) (r : Reading) : (items.foldl (fun r item =>
      if d.isInteger then r.storeInteger note d item else r.storeReal note d item) r).log.missing
      = r.log.missing := by
    refine missing_foldl (fun r item => ?_) items r
    split
    · exact r.missing_storeInteger note d item
    · exact r.missing_storeReal note d item
  have haligned : (if r.cursors.autoAlign then r.align r.cursors.dataSegment d.width
      else r).log.missing = r.log.missing := by
    split
    · rw [log_align]
    · rfl
  unfold storeNumeric
  simp only
  split
  · rename_i mistake
    rw [missing_report _ note _ (DataItem.not_isLate_of_readAll mistake), hitems, haligned]
  · rw [hitems, haligned]

theorem missing_storeStrings (r : Reading) (note : Text) (d : Directive) (operands : List Token) :
    (r.storeStrings note d operands).log.missing = r.log.missing := by
  have hbytes (r : Reading) (bytes : Text) : (r.storeBytes bytes).1.log.missing = r.log.missing := by
    obtain ⟨image, cursors, hstore, -⟩ := r.storeBytes_frame bytes
    rw [hstore]
  induction operands generalizing r with
  | nil => rfl
  | cons t rest ih =>
    rw [storeStrings]
    split
    · rw [ih, missing_report r note t rfl]
    · generalize Literal.unescape (stringBody t.text) = unescaped
      obtain ⟨bytes, problem⟩ := unescaped
      simp only
      generalize (if (d == Directive.ascii) = true then bytes else bytes ++ [0]) = stored
      have hafter {reported after : Reading} {refused : Option Image.AddressError}
          (h : reported.log.missing = r.log.missing)
          (hstore : reported.storeBytes stored = (after, refused)) :
          after.log.missing = r.log.missing := by
        rw [← h, ← hbytes reported stored, hstore]
      cases problem with
      | none =>
        simp only
        split
        · rename_i after hstore
          exact (ih after).trans (hafter rfl hstore)
        · rename_i after e hstore
          exact (missing_report after note t rfl).trans (hafter rfl hstore)
      | some e =>
        have hescape := missing_report r note t (p := .escape e) rfl
        simp only
        split
        · rename_i after hstore
          exact (ih after).trans (hafter hescape hstore)
        · rename_i after e' hstore
          exact (missing_report after note t rfl).trans (hafter hescape hstore)

theorem missing_storeData (r : Reading) (note : Text) (d : Directive) (operands : List Token) :
    (r.storeData note d operands).log.missing = r.log.missing := by
  unfold storeData
  split
  · exact r.missing_storeStrings note d operands
  · exact r.missing_storeNumeric note d operands

theorem missing_selectSegment (r : Reading) (note : Text) (directive : Token)
    (operands : List Token) (segment : Segment) :
    (r.selectSegment note directive operands segment).log.missing = r.log.missing := by
  unfold selectSegment
  split
  · rfl
  · split
    · rfl
    · exact missing_report _ note _ rfl

theorem missing_selectSection (r : Reading) (note : Text) (directive : Token)
    (operands : List Token) :
    (r.selectSection note directive operands).log.missing = r.log.missing := by
  unfold selectSection
  split
  · simp only
    split
    · exact r.missing_selectSegment note directive [] _
    · split
      · exact r.missing_selectSegment note directive [] _
      · exact missing_report r note _ rfl
  · exact missing_report r note _ rfl

theorem missing_executeAlign (r : Reading) (note : Text) (directive : Token)
    (operands : List Token) :
    (r.executeAlign note directive operands).log.missing = r.log.missing := by
  unfold executeAlign
  split
  · simp only
    split
    · exact missing_report r note _ rfl
    · split
      · exact missing_report r note _ rfl
      · split
        · rw [log_align]
          split
          · exact missing_report r note _ rfl
          · rfl
        · split
          · rfl
          · rw [log_align]
  · exact missing_report r note _ rfl

theorem missing_executeSpace (r : Reading) (note : Text) (directive : Token)
    (operands : List Token) :
    (r.executeSpace note directive operands).log.missing = r.log.missing := by
  unfold executeSpace
  split
  · exact missing_report r note _ rfl
  · split
    · split
      · rfl
      · exact missing_report r note _ rfl
    · exact missing_report r note _ rfl

theorem missing_executeExternal (r : Reading) (note : Text) (directive : Token)
    (operands : List Token) :
    (r.executeExternal note directive operands).log.missing = r.log.missing := by
  unfold executeExternal
  split
  · split
    · split <;> rfl
    · exact missing_report r note _ rfl
  · exact missing_report r note _ rfl

theorem missing_executeGlobal (r : Reading) (note : Text) (d : Directive) (directive : Token)
    (operands : List Token) :
    (r.executeGlobal note d directive operands).log.missing = r.log.missing := by
  unfold executeGlobal
  split
  · exact missing_report r note _ rfl
  · refine missing_foldl (fun r t => ?_) operands r
    split
    · rfl
    · exact missing_report r note _ rfl

theorem missing_executeBegin (r : Reading) (note : Text) (index : Int) (directive : Token)
    (operands : List Token) :
    (r.executeBegin note index directive operands).log.missing = r.log.missing := by
  rw [executeBegin_eq]
  split
  · rfl
  · exact missing_report r note _ rfl

theorem missing_executeEnd (r : Reading) (note : Text) (index : Int) (directive : Token)
    (operands : List Token) :
    (r.executeEnd note index directive operands).log.missing = r.log.missing := by
  rw [executeEnd_eq]
  split
  · rfl
  · exact missing_report r note _ rfl

theorem missing_executePlain (r : Reading) (note : Text) (index : Int) (d : Directive)
    (directive : Token) (operands : List Token) :
    (r.executePlain note index d directive operands).log.missing = r.log.missing := by
  cases d with
  | data | kernelData | text | kernelText =>
    exact r.missing_selectSegment note directive operands _
  | namedSection => exact r.missing_selectSection note directive operands
  | word | half | byte | doubleWord | float | double | ascii | asciz | string =>
    simp only [executePlain, executeData]
    split
    · exact missing_storeData _ note _ operands
    · exact missing_report _ note _ rfl
  | align => exact r.missing_executeAlign note directive operands
  | space => exact r.missing_executeSpace note directive operands
  | external => exact r.missing_executeExternal note directive operands
  | globl | global => exact r.missing_executeGlobal note _ directive operands
  | equivalence => rfl
  | beginMacro => exact r.missing_executeBegin note index directive operands
  | endMacro => exact r.missing_executeEnd note index directive operands
  | includeFile => exact missing_report r note _ rfl

theorem missing_execute (r : Reading) (note : Text) (index : Int) (directive : Token)
    (operands : List Token) :
    (r.execute note index directive operands).log.missing = r.log.missing := by
  unfold execute
  split
  · exact missing_report r note _ rfl
  · split
    · split
      · exact r.missing_executeBegin note index directive operands
      · split
        · exact r.missing_executeEnd note index directive operands
        · rfl
    · exact r.missing_executePlain note index _ directive operands

theorem missing_defineLabel (r : Reading) (note : Text) (t : Token) :
    (r.defineLabel note t).log.missing = r.log.missing := by
  unfold defineLabel
  split
  · rfl
  · split
    · rfl
    · exact missing_report r note t rfl

theorem missing_defineLabels (r : Reading) (note : Text) (tokens : List Token) :
    (r.defineLabels note tokens).1.log.missing = r.log.missing := by
  induction tokens using afterLabels.induct generalizing r with
  | case1 label colon rest hlabel ih =>
    rw [r.defineLabels_of_label note rest hlabel, ih, missing_defineLabel]
  | case2 label colon rest hother => rw [r.defineLabels_of_other note rest hother]
  | case3 tokens hshort => rw [r.defineLabels_of_short note hshort]

theorem missing_readInstruction (r : Reading) (s : Scope) (note : Text) (tokenLine : TokenLine)
    (operator : Token) (operands : List Token) :
    (r.readInstruction s note tokenLine operator operands).log.missing = r.log.missing := by
  unfold readInstruction
  split
  · split <;> exact missing_report r note _ rfl
  · split
    · exact missing_report r note _ rfl
    · split
      · exact missing_report r note _ rfl
      · split
        · rename_i hcheck
          exact missing_report r note _ (Instruction.not_isLate_of_check hcheck)
        · rfl

theorem missing_readPlain (r : Reading) (s : Scope) (note : Text) (tokenLine : TokenLine)
    (first : Token) (rest : List Token) :
    (r.readPlain s note tokenLine first rest).log.missing = r.log.missing := by
  unfold readPlain
  split
  · exact missing_report r note _ rfl
  · split
    · split
      · exact r.missing_storeData note _ (first :: rest)
      · exact missing_report r note _ rfl
    · split
      · exact missing_report r note _ rfl
      · exact r.missing_readInstruction s note tokenLine first rest

theorem missing_readPlainLine (r : Reading) (s : Scope) (note : Text) (index : Int)
    (line : TokenLine) : (r.readPlainLine s note index line).log.missing = r.log.missing := by
  unfold readPlainLine
  simp only
  split
  · rfl
  · have hlabels := r.missing_defineLabels note line.withoutComment.tokens
    split
    · exact hlabels
    · split
      · exact (missing_execute _ note index _ _).trans hlabels
      · split
        · exact hlabels
        · exact (missing_readPlain _ s note line _ _).trans hlabels

theorem missing_foldlM {α : Type} {f : Reading → α → Except Fault Reading}
    (hf : ∀ {r r' x}, f r x = .ok r' → r'.log.missing = r.log.missing) {xs : List α}
    {r r' : Reading} (h : xs.foldlM f r = .ok r') : r'.log.missing = r.log.missing := by
  induction xs generalizing r with
  | nil =>
    cases h
    rfl
  | cons x xs ih =>
    rw [List.foldlM_cons] at h
    obtain ⟨middle, hx, hrest⟩ := exists_of_bind_eq_ok h
    exact (ih hrest).trans (hf hx)

end Reading

namespace LineReading

theorem missing_readBodyLine {v : LineReading} {c : MacroCall} {r r' : Reading} {i : Int}
    (h : v.readBodyLine c r i = .ok r')
    (hread : ∀ w r'', v.bodyLine? c r i = some w → w.result = .ok r'' →
      r''.log.missing = w.before.log.missing) : r'.log.missing = r.log.missing := by
  unfold bodyLine? at hread
  unfold readBodyLine Reading.expandLine at h
  by_cases hfull : r.log.exceeded = true
  · rw [if_pos hfull] at h
    cases h
    rfl
  · rw [if_neg hfull] at h hread
    cases hline : Macro.lineAt? v.scope.lines i with
    | none =>
      rw [hline] at h
      cases h
    | some body =>
      cases hbody : c.callee.substitute v.scope.lines i c.tokens c.counter with
      | error e =>
        simp only [hline, hbody] at h
        split at h
        · cases h
        · cases h
          exact Log.missing_add e.not_saysMissing r.log
      | ok text =>
        simp only [hline, hbody] at h hread
        exact (hread _ r' rfl h).trans
          (Log.missing_addAll (not_saysMissing_lexicalMessages _ _) r.log)

/-- Reading a line, with all that it calls, leaves no message that a symbol is missing. -/
theorem missing_result {v : LineReading} {r : Reading} (h : v.result = .ok r) :
    r.log.missing = v.before.log.missing := by
  cases hc : v.call? with
  | none =>
    rw [result_of_none hc] at h
    cases h
    exact v.before.missing_readPlainLine v.scope v.note v.index v.line
  | some c =>
    have hbefore : c.before.log.missing = v.before.log.missing := by
      rw [(of_call? hc).1]
      exact v.before.missing_defineLabels v.note v.line.withoutComment.tokens
    rw [result_of_some hc] at h
    split at h
    · cases h
      exact (Reading.missing_report c.before v.note c.first rfl).trans hbefore
    · split at h
      · rename_i hroom
        have hbody : r.log.missing = c.entered.log.missing :=
          Reading.missing_foldlM (fun hline => missing_readBodyLine hline fun w r'' hw hresult =>
            have hsmaller := room_of_bodyLine? hw hroom
            missing_result hresult) h
        exact hbody.trans hbefore
      · cases h
termination_by v.scope.room v.stack

end LineReading

namespace Reading

theorem missing_readLines {s : Scope} {r r' : Reading} (h : readLines s r = .ok r') :
    r'.log.missing = r.log.missing := by
  rw [Scope.readLines_eq] at h
  refine missing_foldlM (fun hline => ?_) h
  unfold Scope.readNext at hline
  split at hline
  · cases hline
    rfl
  · rename_i r r' p _
    exact LineReading.missing_result (v := ⟨s, [], p.2, p.1, r⟩) hline

theorem missing_exportLabels (r : Reading) : r.exportLabels.log.missing = r.log.missing := by
  rw [r.promotes_exportLabels.rest]
  refine Log.missing_addAll (fun m hm => ?_) r.log
  obtain ⟨t, -, hrefused⟩ := List.mem_filterMap.1 hm
  unfold refusal? at hrefused
  split at hrefused
  · cases hrefused
    exact Problem.not_saysMissing (p := .undefinedGlobal t.text) rfl
  · split at hrefused
    · cases hrefused
    · cases hrefused
      exact Problem.not_saysMissing (p := .duplicateGlobal t.text) rfl

theorem missing_closeDefinition (r : Reading) (name : Text) :
    (r.closeDefinition name).log.missing = r.log.missing := by
  unfold closeDefinition
  generalize r.pool.abandon = abandoned
  obtain ⟨open?, pool⟩ := abandoned
  cases open? with
  | none => rfl
  | some m => exact Log.missing_add rfl r.log

theorem missing_patchKnown (known : Pending → Option Symbol) (s : Session) (pending : List Pending) :
    (s.patchKnown known pending).log.missing = s.log.missing := by
  induction pending generalizing s with
  | nil => rfl
  | cons item pending ih =>
    unfold Session.patchKnown
    rw [List.foldl_cons]
    refine (ih _).trans ?_
    split
    · exact missing_stored s item.token [] _
    · rfl

theorem missing_finish (r : Reading) (name : Text) :
    (r.finish name).1.log.missing = r.log.missing := by
  have hpatched := missing_patchKnown (fun item =>
      (r.closeDefinition name).exportLabels.labels.lookupOr
        (r.closeDefinition name).exportLabels.global item.token.text)
    (r.closeDefinition name).exportLabels.toSession (r.closeDefinition name).exportLabels.pending
  exact hpatched.trans
    ((missing_exportLabels _).trans (r.missing_closeDefinition name))

end Reading

end Rv32Assembler
