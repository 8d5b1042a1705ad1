import Rv32Assembler.Isa.Rv32im
import Rv32Assembler.Proofs.MissingSymbols
import Rv32Assembler.Proofs.NoFault
/-!
# Unresolved references

A label operand of an integer directive whose label is not known yet waits for it: until the end of its
file, then until the end of all files. What a state knows it goes on to know, so of the names that are
missing in the end just the references in the lines read are left, in their order (`tokens_performAll`,
`tokens_of_readFiles`), once for each copy that a repetition count asks for. So the first pass reports
the missing labels of just these operands, each at its token and as often as it is stored
(`missing_firstPass`).
-/

namespace Rv32Assembler

/-! ### Label operands -/

namespace DataItem

/-- The operands of an integer directive that name labels; one with a sign is no label. -/
def labels (operands : List Token) : List DataItem :=
  (readAll operands).1.filter fun item => item.token.kind.isLabel && !item.negated

/-- The token of the operand, as often as the operand is stored. -/
def copies (item : DataItem) : List Token := List.replicate item.count item.token

end DataItem

/-- The label operands that an integer directive stores in a line, behind the labels of which the state
is `r`: those of the directive of the line, or of the one that the line goes on with. -/
def Reading.labelOperands (r : Reading) : List Token → List DataItem
  | [] => []
  | first :: rest =>
    if first.kind == .directive then
      match Directive.ofName? first.text with
      | none => []
      | some d =>
        if d.isInteger && r.cursors.segment.isData && !r.pool.isDefining then DataItem.labels rest
        else []
    else if r.pool.isDefining || (first.kind == .identifier && first.text.head? == some 0x2e) then []
    else if r.cursors.segment.isData && continuesData first then
      match r.cursors.directive with
      | none => []
      | some d => if d.isInteger then DataItem.labels (first :: rest) else []
    else []

namespace LineReading

/-- The label operands that an integer directive stores in the line. -/
def labelOperands (v : LineReading) : List DataItem :=
  let tokens := v.line.withoutComment.tokens
  if (tokens.any fun t => t.kind == .error) || v.call?.isSome then []
  else
    let (r, tokens) := v.before.defineLabels v.note tokens
    r.labelOperands tokens

def labelTokens (v : LineReading) : List Token := v.labelOperands.flatMap DataItem.copies

end LineReading

/-! ### References of actions -/

def Action.referenced? : Action → Option Token
  | .reference _ t _ => some t
  | _ => none

def Action.references (actions : List Action) : List Token := actions.filterMap referenced?

namespace Action

theorem references_append (as bs : List Action) :
    references (as ++ bs) = references as ++ references bs := List.filterMap_append

theorem references_flatMap {α : Type} (xs : List α) (f : α → List Action) :
    references (xs.flatMap f) = xs.flatMap fun x => references (f x) := List.filterMap_flatMap

theorem references_numbers (note : Text) (t : Token) (width : Nat) (v : Int) (n : Nat) :
    references (List.replicate n (.number note t width v)) = [] :=
  List.filterMap_replicate_of_none rfl

theorem references_copies (note : Text) (item : DataItem) (width : Nat) :
    references (List.replicate item.count (.reference note item.token width)) = item.copies :=
  List.filterMap_replicate_of_some rfl

end Action

namespace Reading

open Rv32Assembler.Action

theorem references_integerActions (note : Text) (d : Directive) (item : DataItem) :
    references (integerActions note d item)
      = if item.token.kind.isLabel && !item.negated then item.copies else [] := by
  unfold integerActions
  by_cases hinteger : item.token.kind.isInteger = true
  · have hlabel : item.token.kind.isLabel = false := by
      cases hkind : item.token.kind <;> simp_all [Kind.isInteger, Kind.integerRank?, Kind.isLabel]
    simp only [hinteger, hlabel, if_true, Bool.false_and, Bool.false_eq_true, if_false,
      references_append, references_numbers, List.append_nil]
    generalize (if item.negated = true then Literal.wrap64 (-item.token.value)
      else item.token.value) = v
    split <;> rfl
  · simp only [hinteger, if_false, Bool.false_eq_true]
    split
    · exact references_copies note item d.width
    · rfl

theorem references_realActions (note : Text) (d : Directive) (item : DataItem) :
    references (realActions note d item) = [] := by
  unfold realActions
  simp only
  split
  · rfl
  · rename_i x _
    generalize (if item.negated = true then x.negate else x) = value
    split
    · split
      · rfl
      · exact references_numbers note item.token 4 _ _
    · exact references_numbers note item.token 8 _ _

theorem references_numericActions (r : Reading) (note : Text) (d : Directive)
    (operands : List Token) :
    references (r.numericActions note d operands)
      = if d.isInteger then (DataItem.labels operands).flatMap DataItem.copies else [] := by
  unfold numericActions DataItem.labels
  generalize DataItem.readAll operands = result
  obtain ⟨items, mistake⟩ := result
  have haligned : references
      (if r.cursors.autoAlign then [.align r.cursors.dataSegment d.width] else []) = [] := by
    split <;> rfl
  have hitems : references (items.flatMap (itemActions note d))
      = if d.isInteger then
          (items.filter fun item => item.token.kind.isLabel && !item.negated).flatMap DataItem.copies
        else [] := by
    rw [references_flatMap]
    unfold itemActions
    cases d.isInteger with
    | false => simp [references_realActions]
    | true =>
      simp only [if_true, references_integerActions]
      induction items with
      | nil => rfl
      | cons item items ih =>
        rw [List.flatMap_cons, ih, List.filter_cons]
        split <;> rfl
  simp only [references_append, haligned, hitems, List.nil_append]
  cases mistake with
  | none => exact List.append_nil _
  | some _ => exact List.append_nil _

theorem references_stringActions (r : Reading) (note : Text) (d : Directive)
    (operands : List Token) : references (r.stringActions note d operands) = [] := by
  have hreports {t : Token} (problem : Option Literal.EscapeError) :
      references (problem.toList.map fun e => .report note t (.escape e)) = [] := by
    cases problem <;> rfl
  induction operands generalizing r with
  | nil => rfl
  | cons t rest ih =>
    rw [stringActions]
    simp only
    split
    · exact ih _
    · split
      · rw [references_append, hreports]
        exact ih _
      · rw [references_append, hreports]
        rfl

theorem references_dataActions (r : Reading) (note : Text) (d : Directive) (operands : List Token) :
    references (r.dataActions note d operands)
      = if d.isInteger then (DataItem.labels operands).flatMap DataItem.copies else [] := by
  unfold dataActions
  split
  · rename_i hstring
    have hinteger : d.isInteger = false := by
      cases d <;> simp_all [Directive.isString, Directive.isInteger]
    rw [hinteger, references_stringActions]
    rfl
  · exact r.references_numericActions note d operands

theorem references_alignActions (r : Reading) (directive : Token) (note : Text)
    (operands : List Token) : references (r.alignActions note directive operands) = [] := by
  unfold alignActions
  split
  · simp only
    split
    · rfl
    · split
      · rfl
      · split
        · rw [references_append]
          split <;> rfl
        · split <;> rfl
  · rfl

theorem references_sectionActions (directive : Token) (note : Text) (operands : List Token) :
    references (sectionActions note directive operands) = [] := by
  unfold sectionActions
  split
  · simp only
    split
    · rfl
    · split <;> rfl
  · rfl

theorem references_directiveActions (r : Reading) (note : Text) (index : Int) (d : Directive)
    (directive : Token) (operands : List Token) :
    references (r.directiveActions note index d directive operands)
      = if d.isInteger && r.cursors.segment.isData then
          (DataItem.labels operands).flatMap DataItem.copies
        else [] := by
  have hannounce (d : Directive) (actions : List Action) :
      references (.announce d :: actions) = references actions := rfl
  cases d with
  | word | half | byte | doubleWord | float | double | ascii | asciz | string =>
    simp only [directiveActions, hannounce]
    cases r.cursors.segment.isData with
    | false => rfl
    | true =>
      rw [if_pos rfl, Bool.and_true]
      exact references_dataActions _ note _ operands
  | namedSection => exact references_sectionActions directive note operands
  | align => exact r.references_alignActions directive note operands
  | _ => rfl

theorem references_executeActions (r : Reading) (note : Text) (index : Int) {first : Token}
    (rest : List Token) (h : first.kind = .directive) :
    references (r.executeActions note index first rest)
      = (r.labelOperands (first :: rest)).flatMap DataItem.copies := by
  rw [labelOperands, h]
  unfold executeActions
  cases Directive.ofName? first.text with
  | none => rfl
  | some d =>
    simp only [BEq.rfl, if_true]
    cases r.pool.isDefining with
    | true =>
      have hnone : references (if d == .beginMacro then [.beginMacro note index first rest]
          else if d == .endMacro then [.endMacro note index first rest] else []) = [] := by
        split
        · rfl
        · split <;> rfl
      simpa using hnone
    | false =>
      simp only [Bool.false_eq_true, if_false, references_directiveActions, Bool.not_false,
        Bool.and_true]
      split <;> rfl

theorem references_plainActions (r : Reading) (note : Text) (tokenLine : TokenLine) {first : Token}
    (rest : List Token) (h : first.kind ≠ .directive) (hplain : r.pool.isDefining = false) :
    references (r.plainActions note tokenLine first rest)
      = (r.labelOperands (first :: rest)).flatMap DataItem.copies := by
  have hkind : (first.kind == .directive) = false := by simpa using h
  rw [labelOperands, hkind, hplain, Bool.false_or]
  unfold plainActions
  simp only [Bool.false_eq_true, if_false]
  split
  · rfl
  · split
    · split
      · rename_i d hd
        rw [hd, references_dataActions]
        simp only
        split <;> rfl
      · rename_i hd
        rw [hd]
        rfl
    · split <;> rfl

theorem references_labelActions (note : Text) (tokens : List Token) :
    references (labelActions note tokens).1 = [] := by
  fun_induction labelActions note tokens with
  | case1 label colon rest hlabel ih => exact ih
  | case2 => rfl
  | case3 => rfl

end Reading

/-! ### References of readings -/

namespace LineReading

open Rv32Assembler.Action

theorem exists_actions_plain {v : LineReading} (h : v.call? = none) :
    ∃ actions, v.plain = v.scope.performAll v.before actions ∧
      references actions = v.labelTokens := by
  unfold plain Reading.readPlainLine labelTokens labelOperands
  rw [h]
  simp only [Option.isSome_none, Bool.or_false, Reading.defineLabels_eq v.scope]
  split
  · exact ⟨[], rfl, rfl⟩
  · have hlabels := Reading.references_labelActions v.note v.line.withoutComment.tokens
    generalize Reading.labelActions v.note v.line.withoutComment.tokens = split at hlabels ⊢
    obtain ⟨labels, tokens⟩ := split
    simp only at hlabels ⊢
    generalize hr : v.scope.performAll v.before labels = r
    suffices hrest : ∃ actions, (match tokens with
        | [] => r
        | first :: rest =>
          if first.kind == .directive then r.execute v.note v.index first rest
          else if r.pool.isDefining then r
          else r.readPlain v.scope v.note v.line first rest) = v.scope.performAll r actions ∧
        references actions = (r.labelOperands tokens).flatMap DataItem.copies by
      obtain ⟨actions, hperform, htokens⟩ := hrest
      refine ⟨labels ++ actions, ?_, ?_⟩
      · rw [Scope.performAll_append, hr]
        exact hperform
      · rw [references_append, hlabels, htokens, List.nil_append]
    cases tokens with
    | nil => exact ⟨[], rfl, rfl⟩
    | cons first rest =>
      simp only
      by_cases hdirective : first.kind = .directive
      · rw [if_pos (by simp [hdirective]), Reading.execute_eq v.scope]
        exact ⟨_, rfl, r.references_executeActions v.note v.index rest hdirective⟩
      · rw [if_neg (by simpa using hdirective)]
        by_cases hdefining : r.pool.isDefining = true
        · rw [if_pos hdefining]
          refine ⟨[], rfl, ?_⟩
          rw [Reading.labelOperands, if_neg (by simpa using hdirective), hdefining]
          rfl
        · rw [if_neg hdefining, Reading.readPlain_eq]
          have hplain : r.pool.isDefining = false := by simpa using hdefining
          exact ⟨_, rfl, r.references_plainActions v.note v.line rest hdirective hplain⟩

theorem exists_actions_before {v : LineReading} {c : MacroCall} (h : v.call? = some c) :
    ∃ actions, c.before = v.scope.performAll v.before actions ∧ references actions = [] := by
  refine ⟨_, ?_, Reading.references_labelActions v.note v.line.withoutComment.tokens⟩
  rw [(of_call? h).1, Reading.defineLabels_eq v.scope]

theorem labelTokens_of_call? {v : LineReading} {c : MacroCall} (h : v.call? = some c) :
    v.labelTokens = [] := by
  simp [labelTokens, labelOperands, h]

end LineReading

/-- What readings do is done by actions with the references that the lines hold. -/
theorem Steps.exists_actions {s : Scope} {r r' : Reading} {vs : List LineReading}
    (h : Steps s r vs r') : ∃ actions, r' = s.performAll r actions ∧
      Action.references actions = vs.flatMap LineReading.labelTokens := by
  induction h with
  | nil r => exact ⟨[], rfl, rfl⟩
  | append _ _ ih₁ ih₂ =>
    obtain ⟨as, rfl, has⟩ := ih₁
    obtain ⟨bs, rfl, hbs⟩ := ih₂
    refine ⟨as ++ bs, (s.performAll_append _ as bs).symm, ?_⟩
    rw [Action.references_append, has, hbs, List.flatMap_append]
  | message r ms => exact ⟨[.record ms], rfl, rfl⟩
  | @plain v _ hscope hcall =>
    obtain ⟨actions, hperform, hreferences⟩ := LineReading.exists_actions_plain hcall
    rw [hscope] at hperform
    exact ⟨actions, hperform, by simpa using hreferences⟩
  | @refused v c _ hscope hcall _ =>
    obtain ⟨actions, hperform, hreferences⟩ := LineReading.exists_actions_before hcall
    rw [hscope] at hperform
    refine ⟨actions ++ [.report v.note c.first .expansionLoop], ?_, ?_⟩
    · rw [Scope.performAll_append, ← hperform]
      rfl
    · rw [Action.references_append, hreferences, List.flatMap_singleton,
        LineReading.labelTokens_of_call? hcall]
      rfl
  | @enter v c _ hscope hcall _ =>
    obtain ⟨actions, hperform, hreferences⟩ := LineReading.exists_actions_before hcall
    rw [hscope] at hperform
    refine ⟨actions ++ [.enter], ?_, ?_⟩
    · rw [Scope.performAll_append, ← hperform]
      rfl
    · rw [Action.references_append, hreferences, List.flatMap_singleton,
        LineReading.labelTokens_of_call? hcall]
      rfl

/-! ### What a state knows -/

theorem SymbolTable.lookup_move_eq_none_iff {t : SymbolTable} {old new : Address} {name : Text} :
    (t.move old new).lookup name = none ↔ t.lookup name = none := by
  have hnames : (t.move old new).entries.map Symbol.name = t.entries.map Symbol.name := by
    simp only [move, List.map_map]
    refine List.map_congr_left fun s _ => ?_
    simp only [Function.comp_apply]
    split <;> rfl
  rw [lookup_eq_none_iff, lookup_eq_none_iff, hnames]

theorem SymbolTable.lookupOr_eq_none_iff {t global : SymbolTable} {name : Text} :
    t.lookupOr global name = none ↔ t.lookup name = none ∧ global.lookup name = none :=
  Option.or_eq_none_iff

theorem SymbolTable.lookupOr_eq_none_of_extends {labels global global' : SymbolTable}
    (h : global.Extends global') {name : Text} (hname : labels.lookupOr global' name = none) :
    labels.lookupOr global name = none := by
  by_contra hfound
  obtain ⟨symbol, hsymbol⟩ := Option.ne_none_iff_exists'.1 hfound
  rw [lookupOr_of_extends h hsymbol] at hname
  cases hname

/-- A name that is unknown after an action was unknown before it. -/
theorem Action.Effect.lookup_eq_none {s : Scope} {r r' : Reading} {a : Action} (h : a.Effect s r r')
    {name : Text} (hname : r'.lookup name = none) : r.lookup name = none := by
  have hbefore := SymbolTable.lookupOr_eq_none_of_extends h.extends_global hname
  obtain ⟨hlabels, hglobal⟩ := SymbolTable.lookupOr_eq_none_iff.1 hbefore
  refine SymbolTable.lookupOr_eq_none_iff.2 ⟨?_, hglobal⟩
  cases h with
  | quiet hquiet _ => rwa [← hquiet.labels]
  | label _ hadd =>
    rw [SymbolTable.lookup_of_add hadd] at hlabels
    split at hlabels
    · cases hlabels
    · exact hlabels
  | move _ _ => exact SymbolTable.lookup_move_eq_none_iff.1 hlabels
  | store _ hkept _ _ _ _ => rwa [← hkept]
  | external | parse => exact hlabels

theorem Scope.lookup_eq_none_of_performAll {s : Scope} {r : Reading} {actions : List Action}
    {name : Text} (h : (s.performAll r actions).lookup name = none) : r.lookup name = none := by
  induction actions generalizing r with
  | nil => exact h
  | cons a actions ih => exact (Action.effect_perform s r a).lookup_eq_none (ih h)

/-! ### What waits for a label -/

def Pending.tokens (unknown : Text → Bool) (items : List Pending) : List Token :=
  (items.map Pending.token).filter fun t => unknown t.text

/-- Of unknown names, a reference waits and nothing else does. -/
theorem Action.tokens_perform {s : Scope} {r : Reading} {unknown : Text → Bool}
    (h : ∀ name, unknown name = true → r.lookup name = none) (a : Action) :
    Pending.tokens unknown (a.perform s r).pending
      = Pending.tokens unknown r.pending ++ (references [a]).filter fun t => unknown t.text := by
  rw [(effect_perform s r a).pending, Pending.tokens, List.map_append, List.filter_append]
  congr 1
  cases a with
  | reference note t width =>
    by_cases hname : unknown t.text = true
    · simp [deferred?, references, referenced?, h t.text hname, hname]
    · cases r.lookup t.text <;> simp [deferred?, references, referenced?, hname]
  | _ => rfl

/-- Of names that stay unknown to the end, just the references wait. -/
theorem Scope.tokens_performAll {s : Scope} {r : Reading} {actions : List Action}
    {unknown : Text → Bool}
    (h : ∀ name, unknown name = true → (s.performAll r actions).lookup name = none) :
    Pending.tokens unknown (s.performAll r actions).pending
      = Pending.tokens unknown r.pending ++
        (Action.references actions).filter fun t => unknown t.text := by
  induction actions generalizing r with
  | nil => simp [Action.references]
  | cons a actions ih =>
    have hbefore (name : Text) (hname : unknown name = true) : r.lookup name = none :=
      (Action.effect_perform s r a).lookup_eq_none (lookup_eq_none_of_performAll (h name hname))
    have hsplit : Action.references (a :: actions)
        = Action.references [a] ++ Action.references actions := Action.references_append [a] actions
    rw [performAll_cons, ih h, Action.tokens_perform hbefore, hsplit, List.filter_append,
      List.append_assoc]

/-! ### The end of a file -/

theorem Session.patchKnown_frame (known : Pending → Option Symbol) (s : Session)
    (pending : List Pending) :
    ∃ image log, s.patchKnown known pending = { s with image := image, log := log } := by
  induction pending generalizing s with
  | nil => exact ⟨s.image, s.log, rfl⟩
  | cons item pending ih =>
    unfold patchKnown
    rw [List.foldl_cons]
    split
    · rename_i symbol _
      have hfirst : ∃ image log, s.patch item symbol = { s with image := image, log := log } := by
        unfold patch stored
        split
        · exact ⟨_, _, rfl⟩
        · exact ⟨_, s.log, rfl⟩
      obtain ⟨image, log, hpatch⟩ := hfirst
      rw [hpatch]
      exact ih { s with image := image, log := log }
    · exact ih s

namespace Reading

variable (r : Reading) (name : Text)

theorem closeDefinition_frame :
    ∃ pool log, r.closeDefinition name = { r with pool := pool, log := log } := by
  unfold closeDefinition
  generalize r.pool.abandon = abandoned
  obtain ⟨open?, pool⟩ := abandoned
  cases open? with
  | none => exact ⟨pool, r.log, rfl⟩
  | some m => exact ⟨pool, _, rfl⟩

theorem global_finish :
    (r.finish name).1.global = (r.closeDefinition name).exportLabels.global := by
  unfold finish
  simp only [Session.patchAll_eq]
  obtain ⟨image, log, hpatch⟩ := Session.patchKnown_frame (fun item =>
      (r.closeDefinition name).exportLabels.labels.lookupOr
        (r.closeDefinition name).exportLabels.global item.token.text)
    (r.closeDefinition name).exportLabels.toSession (r.closeDefinition name).exportLabels.pending
  rw [hpatch]

theorem lookup_finish (x : Text) :
    (r.finish name).2.labels.lookupOr (r.finish name).1.global x = r.lookup x := by
  obtain ⟨pool, log, hclose⟩ := r.closeDefinition_frame name
  rw [global_finish]
  refine ((r.closeDefinition name).lookupOr_exportLabels x).trans ?_
  rw [hclose]
  rfl

/-- The items whose labels the file does not know are left. -/
theorem pending_finish :
    (r.finish name).2.pending = r.pending.filter fun item => (r.lookup item.token.text).isNone := by
  obtain ⟨pool, log, hclose⟩ := r.closeDefinition_frame name
  have hpending : (r.closeDefinition name).exportLabels.pending = r.pending := by
    rw [(r.closeDefinition name).promotes_exportLabels.rest, hclose]
  have hleft : (r.finish name).2.pending
      = (r.closeDefinition name).exportLabels.pending.filter fun item =>
          ((r.finish name).2.labels.lookupOr (r.closeDefinition name).exportLabels.global
            item.token.text).isNone := rfl
  rw [hleft, hpending, ← global_finish]
  simp only [lookup_finish]

theorem extends_global_finish : r.global.Extends (r.finish name).1.global := by
  obtain ⟨pool, log, hclose⟩ := r.closeDefinition_frame name
  have hpromotes := (r.closeDefinition name).promotes_exportLabels
  have hglobal : (r.closeDefinition name).global = r.global := by rw [hclose]
  intro x symbol hsymbol
  rw [global_finish, hpromotes.global]
  rw [← hglobal] at hsymbol
  split
  · rename_i hmoved
    rw [(hpromotes.movable x hmoved).2] at hsymbol
    cases hsymbol
  · exact hsymbol

end Reading

/-! ### Files -/

def Token.missing (t : Token) : Message := (Problem.undefinedSymbol t.text).about t []

namespace SourceUnit

/-- At the end the file knows no label of the name. -/
def misses (u : SourceUnit) (global : SymbolTable) (name : Text) : Bool :=
  (u.labels.lookupOr global name).isNone

def left (u : SourceUnit) (global : SymbolTable) : List Pending :=
  u.pending.filter fun item => u.misses global item.token.text

end SourceUnit

namespace Session

variable {config : Config} {isa : Registry}

/-- Of names that stay unknown after the file, just the references in its lines are left. -/
theorem tokens_of_readFile {session next : Session} {s : Scope} {name : Text} {u : SourceUnit}
    (h : session.readFile s name = .ok (next, u)) {global : SymbolTable}
    (hglobal : next.global.Extends global) :
    session.global.Extends next.global ∧
      (u.left global).map Pending.token
        = ((s.readings (.start session name)).flatMap LineReading.labelTokens).filter
            fun t => u.misses global t.text := by
  obtain ⟨r, hread, hfinish⟩ := exists_of_map_eq_ok h
  obtain ⟨r', hread', hsteps⟩ := s.exists_readLines session name
  cases hread.symm.trans hread'
  obtain ⟨actions, hperform, hreferences⟩ := hsteps.exists_actions
  have hlookup (x : Text) : u.labels.lookupOr next.global x = r.lookup x := by
    have hnames := r.lookup_finish name x
    rwa [hfinish] at hnames
  have hpending : u.pending = r.pending.filter fun item => (r.lookup item.token.text).isNone := by
    have hitems := r.pending_finish name
    rwa [hfinish] at hitems
  have hextends : r.global.Extends next.global := by
    have hgrows := r.extends_global_finish name
    rwa [hfinish] at hgrows
  have hunknown (x : Text) (hx : u.misses global x = true) : r.lookup x = none := by
    rw [← hlookup]
    exact SymbolTable.lookupOr_eq_none_of_extends hglobal (Option.isNone_iff_eq_none.1 hx)
  have hleft : (u.left global).map Pending.token = Pending.tokens (u.misses global) r.pending := by
    rw [SourceUnit.left, hpending, List.filter_filter, Pending.tokens, List.filter_map]
    congr 1
    refine List.filter_congr fun item _ => ?_
    have hitem := hunknown item.token.text
    cases hmisses : u.misses global item.token.text <;> simp_all
  rw [hperform] at hextends hunknown
  refine ⟨(Scope.extends_global_performAll _ actions).trans hextends, ?_⟩
  rw [hleft, hperform, Scope.tokens_performAll hunknown, hreferences]
  rfl

/-- The tokens of the items that are left, file by file, are those in the lines read, each of which
belongs to one of the files. -/
theorem tokens_of_readFiles {session last : Session} {unit : Nat}
    {files : List (Text × Array TokenLine)} {units all : List SourceUnit}
    (h : session.readFiles config isa unit files = .ok (last, units))
    (hroom : last.log.exceeded = false) (hall : ∀ i, all[unit + i]? = units[i]?) :
    session.global.Extends last.global ∧
      (∀ v ∈ session.readings config isa unit files, v.scope.unit < all.length) ∧
      (units.flatMap fun u => (u.left last.global).map Pending.token)
        = (session.readings config isa unit files).flatMap fun v =>
            v.labelTokens.filter fun t =>
              all[v.scope.unit]?.any fun u => u.misses last.global t.text := by
  induction files generalizing session unit units with
  | nil =>
    cases h
    exact ⟨SymbolTable.Extends.refl _, fun _ hv => (List.not_mem_nil hv).elim, rfl⟩
  | cons f files ih =>
    obtain ⟨name, lines⟩ := f
    have hstart : session.log.exceeded = false := by
      obtain ⟨ms, hms⟩ := exists_log_of_readFiles h
      exact Log.room_of_addAll (hms ▸ hroom)
    rw [readFiles_cons_of_room hstart] at h
    obtain ⟨⟨next, u⟩, hfile, h⟩ := exists_of_bind_eq_ok h
    obtain ⟨⟨last', us⟩, hrest, heq⟩ := exists_of_map_eq_ok h
    cases heq
    obtain ⟨hextends, hbelong, hlines⟩ := ih hrest fun i => by
      rw [Nat.add_right_comm, Nat.add_assoc]
      exact hall (i + 1)
    obtain ⟨hextends', htokens⟩ := tokens_of_readFile hfile hextends
    have hu : all[unit]? = some u := hall 0
    have hscope {v : LineReading}
        (hv : v ∈ Scope.readings ⟨config, isa, unit, lines⟩ (.start session name)) :
        v.scope.unit = unit := by
      rw [(Scope.proper_of_mem_readings hv).2]
    simp only [readings, hstart, Bool.false_eq_true, if_false, hfile]
    refine ⟨hextends'.trans hextends, fun v hv => ?_, ?_⟩
    · rcases List.mem_append.1 hv with hv | hv
      · rw [hscope hv]
        exact (List.getElem?_eq_some_iff.1 hu).1
      · exact hbelong v hv
    rw [List.flatMap_cons, List.flatMap_append, htokens, hlines, List.filter_flatMap]
    congr 1
    refine List.flatMap_congr fun v hv => ?_
    rw [hscope hv, hu]
    rfl

theorem patchEach_eq (s : Session) (waiting : List Pending) (units : List SourceUnit) :
    (s.patchEach waiting units).1.global = s.global ∧
      (s.patchEach waiting units).1.log.missing = s.log.missing ∧
      (s.patchEach waiting units).2 = waiting ++ units.flatMap fun u => u.left s.global := by
  induction units generalizing s waiting with
  | nil => exact ⟨rfl, rfl, (List.append_nil _).symm⟩
  | cons u units ih =>
    have hstep : s.patchEach waiting (u :: units)
        = (s.patchAll u.labels u.pending).1.patchEach (waiting ++ u.left s.global) units := rfl
    have hlog : (s.patchAll u.labels u.pending).1.log.missing = s.log.missing :=
      Reading.missing_patchKnown _ s u.pending
    have hglobal : (s.patchAll u.labels u.pending).1.global = s.global := by
      obtain ⟨image, log, hpatch⟩ :=
        s.patchKnown_frame (fun item => u.labels.lookupOr s.global item.token.text) u.pending
      rw [patchAll_eq, hpatch]
    obtain ⟨hglobals, hmissing, hwaiting⟩ :=
      ih (s.patchAll u.labels u.pending).1 (waiting ++ u.left s.global)
    rw [hstep, hglobals, hmissing, hwaiting, hglobal, hlog, List.append_assoc, List.flatMap_cons]
    exact ⟨rfl, rfl, rfl⟩

theorem foldl_record (s : Session) (items : List Pending) :
    items.foldl (fun s item =>
        s.record ((Problem.undefinedSymbol item.token.text).about item.token [])) s
      = { s with log := s.log.addAll ((items.map Pending.token).map Token.missing) } := by
  induction items generalizing s with
  | nil => rfl
  | cons item items ih => exact ih _

/-- The patches after the last file leave one error for each item that is left. -/
theorem missing_patchUnits {s : Session} {units : List SourceUnit}
    (h : (s.patchUnits units).log.exceeded = false) :
    (s.patchUnits units).global = s.global ∧
      (s.patchUnits units).log.missing = s.log.missing ++
        (units.flatMap fun u => (u.left s.global).map Pending.token).map Token.missing := by
  obtain ⟨hglobal, hmissing, hwaiting⟩ := s.patchEach_eq [] units
  have hpatch : s.patchUnits units = { (s.patchEach [] units).1 with
      log := (s.patchEach [] units).1.log.addAll
        (((s.patchEach [] units).2.map Pending.token).map Token.missing) } :=
    foldl_record _ _
  rw [hpatch] at h ⊢
  refine ⟨hglobal, ?_⟩
  rw [Log.missing_addAll_of_room h, hmissing, hwaiting, List.nil_append, List.map_flatMap]
  congr 1
  refine List.filter_eq_self.2 fun m hm => ?_
  obtain ⟨t, -, rfl⟩ := List.mem_map.1 hm
  exact Text.saysMissing_undefined t.text.quote

theorem missing_readFiles {config : Config} {isa : Registry} {session last : Session} {unit : Nat}
    {files : List (Text × Array TokenLine)} {units : List SourceUnit}
    (h : session.readFiles config isa unit files = .ok (last, units)) :
    last.log.missing = session.log.missing := by
  induction files generalizing session unit units with
  | nil =>
    cases h
    rfl
  | cons f files ih =>
    obtain ⟨name, lines⟩ := f
    cases hstart : session.log.exceeded with
    | true =>
      rw [readFiles_of_exceeded hstart] at h
      cases h
      rfl
    | false =>
      rw [readFiles_cons_of_room hstart] at h
      obtain ⟨⟨next, u⟩, hfile, h⟩ := exists_of_bind_eq_ok h
      obtain ⟨⟨last', us⟩, hrest, heq⟩ := exists_of_map_eq_ok h
      cases heq
      obtain ⟨r, hread, hfinish⟩ := exists_of_map_eq_ok hfile
      have hmissing := r.missing_finish name
      rw [hfinish] at hmissing
      exact (ih hrest).trans (hmissing.trans (Reading.missing_readLines hread))

end Session

/-! ### Runs -/

def LineReading.unresolved (units : List SourceUnit) (global : SymbolTable) (v : LineReading) :
    List Message :=
  v.labelOperands.flatMap fun item =>
    if units[v.scope.unit]?.any fun u => u.misses global item.token.text then
      List.replicate item.count item.token.missing
    else []

theorem LineReading.unresolved_eq (units : List SourceUnit) (global : SymbolTable) (v : LineReading) :
    v.unresolved units global = (v.labelTokens.filter fun t =>
      units[v.scope.unit]?.any fun u => u.misses global t.text).map Token.missing := by
  rw [labelTokens, List.filter_flatMap, List.map_flatMap, unresolved]
  refine List.flatMap_congr fun item _ => ?_
  rw [DataItem.copies, List.filter_replicate]
  split <;> simp

/-- The first pass of any files that do not exceed the error limit reports missing symbols, besides what
the files bring along, just so: in the order of the lines read, for each label operand of an integer
directive whose name is in the end neither a label of its file nor a global one, one error at its token
for each copy of it. -/
theorem missing_firstPass (config : Config) (isa : Registry) (files : List SourceFile) :
    ∃ session units, firstPass config isa files = .ok (session, units) ∧
      (session.log.exceeded = false →
        (∀ v ∈ lineReadings config isa files, v.scope.unit < units.length) ∧
        session.log.missing =
          ((files.flatMap SourceFile.messages).filter fun m => m.text.saysMissing) ++
            (lineReadings config isa files).flatMap (LineReading.unresolved units session.global)) := by
  obtain ⟨session, units, hpass⟩ := exists_firstPass config isa files
  refine ⟨session, units, hpass, fun hroom => ?_⟩
  obtain ⟨log, tokenized, last, htokens, hread, -, rfl⟩ := exists_of_firstPass hpass
  have hlast : last.log.exceeded = false := by
    obtain ⟨ms, hms⟩ : ∃ ms, (last.patchUnits units).log = last.log.addAll ms :=
      (Session.blind_patchUnits (k := 0) units).exists_log last
    exact Log.room_of_addAll (hms ▸ hroom)
  have hstart : (tokenizeFiles (isa.vocabulary true) (Session.ofConfig config).log files).1.exceeded
      = false := by
    obtain ⟨ms, hms⟩ := Session.exists_log_of_readFiles hread
    rw [htokens]
    exact Log.room_of_addAll (hms ▸ hlast)
  have hloaded := missing_tokenizeFiles hstart
  obtain ⟨hglobal, hmissing⟩ := Session.missing_patchUnits hroom
  have hown (i : Nat) : units[0 + i]? = units[i]? := by rw [Nat.zero_add]
  obtain ⟨-, hbelong, hleft⟩ := Session.tokens_of_readFiles hread hlast hown
  rw [htokens] at hloaded
  simp only [lineReadings, htokens]
  refine ⟨hbelong, ?_⟩
  rw [hmissing, hglobal, hleft, Session.missing_readFiles hread, hloaded, List.map_flatMap]
  simp only [← LineReading.unresolved_eq]
  rfl

/-- Of the labels that two files name, two are missing: `x` in both files, once with a repetition count,
and `z` on a line that goes on with the directive before it. -/
def missingSources : List SourceFile :=
  [.ofText "a.s" ".data\n.word x:3, y\n.half 1\n\tz, g\ny: .byte 0\n",
   .ofText "b.s" ".globl g\n.data\ng: .word x\n"]

/-- The errors about them: one for each copy of an operand. -/
def missingErrors : List Message :=
  let x : Text := "symbol \"x\" not found in symbol table"
  let z : Text := "symbol \"z\" not found in symbol table"
  List.replicate 3 { file := "a.s", line := 2, column := 7, text := x } ++
    [{ file := "a.s", line := 4, column := 2, text := z },
     { file := "b.s", line := 3, column := 10, text := x }]

theorem missing_firstPass_sources :
    ∃ session units, firstPass {} Rv32im.registry missingSources = .ok (session, units) ∧
      session.log.exceeded = false ∧ session.log.missing = missingErrors ∧
      (lineReadings {} Rv32im.registry missingSources).flatMap
        (LineReading.unresolved units session.global) = missingErrors := by
  obtain ⟨session, units, hpass, hmissing⟩ := missing_firstPass {} Rv32im.registry missingSources
  have hlog : (firstPass {} Rv32im.registry missingSources).toOption.map
      (fun p => (p.1.log.exceeded, p.1.log.missing)) = some (false, missingErrors) := by
    decide +kernel
  rw [hpass] at hlog
  obtain ⟨hroom, herrors⟩ := Prod.mk.inj (Option.some.inj hlog)
  obtain ⟨-, hall⟩ := hmissing hroom
  have hloaded : missingSources.flatMap SourceFile.messages = [] := rfl
  refine ⟨session, units, hpass, hroom, herrors, ?_⟩
  rw [← herrors, hall, hloaded, List.filter_nil, List.nil_append]

end Rv32Assembler
