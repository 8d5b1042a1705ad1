import Rv32Assembler.Proofs.Journal
import Rv32Assembler.Proofs.Log
import Rv32Assembler.Proofs.Memory
import Rv32Assembler.Proofs.PoolSteps
/-!
# What an action can do

Most actions are quiet: they move cursors, keep macros or record messages. For each of the others
there is one lemma that says all it can do to the image, the symbols, the pending data and the
statements. No action takes a message back, so a state without errors was reached without any.
-/

namespace Rv32Assembler

theorem Log.addAll_addAll (l : Log) (ms more : List Message) :
    (l.addAll ms).addAll more = l.addAll (ms ++ more) := by
  simp [Log.addAll]

namespace Reading

/-- The image, the symbols, the pending data and the statements are the same, and messages at most
were added. -/
structure Quiet (r r' : Reading) : Prop where
  image : r'.image = r.image
  global : r'.global = r.global
  labels : r'.labels = r.labels
  pending : r'.pending = r.pending
  parsed : r'.parsed = r.parsed
  log : ∃ ms, r'.log = r.log.addAll ms

theorem Quiet.refl (r : Reading) : Quiet r r := ⟨rfl, rfl, rfl, rfl, rfl, [], rfl⟩

theorem Quiet.trans {r₁ r₂ r₃ : Reading} (h : Quiet r₁ r₂) (h' : Quiet r₂ r₃) : Quiet r₁ r₃ := by
  obtain ⟨ms, hms⟩ := h.log
  obtain ⟨more, hmore⟩ := h'.log
  refine ⟨h'.image.trans h.image, h'.global.trans h.global, h'.labels.trans h.labels,
    h'.pending.trans h.pending, h'.parsed.trans h.parsed, ms ++ more, ?_⟩
  rw [hmore, hms, Log.addAll_addAll]

theorem quiet_report (r : Reading) (note : Text) (t : Token) (p : Problem) :
    Quiet r (r.report note t p) := ⟨rfl, rfl, rfl, rfl, rfl, [_], rfl⟩

theorem quiet_cursors (r : Reading) (cursors : Cursors) :
    Quiet r { r with cursors := cursors } := ⟨rfl, rfl, rfl, rfl, rfl, [], rfl⟩

theorem quiet_pool (r : Reading) (pool : MacroPool) :
    Quiet r { r with pool := pool } := ⟨rfl, rfl, rfl, rfl, rfl, [], rfl⟩

theorem quiet_selectSegment (r : Reading) (note : Text) (directive : Token) (operands : List Token)
    (segment : Segment) : Quiet r (r.selectSegment note directive operands segment) := by
  unfold selectSegment
  split
  · exact quiet_cursors r _
  · split
    · exact quiet_cursors r _
    · exact (quiet_cursors r _).trans (quiet_report _ _ _ _)

theorem quiet_executeSpace (r : Reading) (note : Text) (directive : Token) (operands : List Token) :
    Quiet r (r.executeSpace note directive operands) := by
  unfold executeSpace
  split
  · exact quiet_report r _ _ _
  · split
    · split
      · exact quiet_cursors r _
      · exact quiet_report r _ _ _
    · exact quiet_report r _ _ _

theorem quiet_executeGlobal (r : Reading) (note : Text) (d : Directive) (directive : Token)
    (operands : List Token) : Quiet r (r.executeGlobal note d directive operands) := by
  unfold executeGlobal
  split
  · exact quiet_report r _ _ _
  · clear * -
    induction operands generalizing r with
    | nil => exact Quiet.refl r
    | cons t operands ih =>
      rw [List.foldl_cons]
      refine Quiet.trans ?_ (ih _)
      split
      · exact ⟨rfl, rfl, rfl, rfl, rfl, [], rfl⟩
      · exact quiet_report r _ _ _

theorem quiet_define (r : Reading) (note : Text) (t : Token)
    (outcome : MacroPool × Option Macro.Error) : Quiet r (r.define note t outcome) := by
  unfold define
  split
  · exact (quiet_pool r _).trans (quiet_report _ _ _ _)
  · exact quiet_pool r _

theorem executeBegin_eq (r : Reading) (note : Text) (index : Int) (directive : Token)
    (operands : List Token) :
    r.executeBegin note index directive operands
      = match r.pool.begin operands index with
        | .ok pool => { r with pool := pool }
        | .error e => r.report note directive (.definition e) := by
  rw [executeBegin, MacroPool.start_eq]
  cases r.pool.begin operands index <;> rfl

theorem executeEnd_eq (r : Reading) (note : Text) (index : Int) (directive : Token)
    (operands : List Token) :
    r.executeEnd note index directive operands
      = match r.pool.commit index directive.line operands with
        | .ok pool => { r with pool := pool }
        | .error e => r.report note directive (.definition e) := by
  rw [executeEnd, MacroPool.finish_eq]
  cases r.pool.commit index directive.line operands <;> rfl

theorem quiet_executeBegin (r : Reading) (note : Text) (index : Int) (directive : Token)
    (operands : List Token) : Quiet r (r.executeBegin note index directive operands) :=
  quiet_define r note directive _

theorem quiet_executeEnd (r : Reading) (note : Text) (index : Int) (directive : Token)
    (operands : List Token) : Quiet r (r.executeEnd note index directive operands) :=
  quiet_define r note directive _

/-! ### The actions that are not quiet -/

theorem defineLabel_cases (r : Reading) (note : Text) (t : Token) :
    Quiet r (r.defineLabel note t) ∨
      ∃ labels, r.labels.add ⟨t.text, r.cursors.here, r.cursors.segment.isData⟩ = .ok labels ∧
        r.defineLabel note t = { r with labels := labels } := by
  unfold defineLabel
  split
  · exact .inl (quiet_pool r _)
  · split
    · rename_i labels hadd
      exact .inr ⟨labels, hadd, rfl⟩
    · exact .inl (quiet_report r _ _ _)

theorem executeExternal_cases (r : Reading) (note : Text) (directive : Token)
    (operands : List Token) :
    Quiet r (r.executeExternal note directive operands) ∨
      ∃ symbol global cursors, r.global.add symbol = .ok global ∧
        r.executeExternal note directive operands
          = { r with global := global, cursors := cursors } := by
  unfold executeExternal
  split
  · split
    · split
      · exact .inl (Quiet.refl r)
      · rename_i global hadd
        exact .inr ⟨_, global, _, hadd, rfl⟩
    · exact .inl (quiet_report r _ _ _)
  · exact .inl (quiet_report r _ _ _)

theorem align_cases (r : Reading) (segment : Segment) (multiple : Nat) :
    r.align segment multiple = r ∨
      alignUp (r.cursors.get segment) multiple ≠ r.cursors.get segment ∧
        r.align segment multiple
          = { r with
              cursors := r.cursors.set segment (alignUp (r.cursors.get segment) multiple)
              labels :=
                r.labels.move (r.cursors.get segment)
                  (alignUp (r.cursors.get segment) multiple) } := by
  unfold align
  by_cases hsame : alignUp (r.cursors.get segment) multiple = r.cursors.get segment
  · exact .inl (if_pos hsame)
  · exact .inr ⟨hsame, if_neg hsame⟩

theorem readInstruction_cases (r : Reading) (s : Scope) (note : Text) (tokenLine : TokenLine)
    (operator : Token) (operands : List Token) :
    Quiet r (r.readInstruction s note tokenLine operator operands) ∨
      ∃ form cursors, operator.kind = .operator ∧
        Instruction.select (s.isa.lookup operator.text) operands = some form ∧
        form.check operator operands = none ∧
        r.readInstruction s note tokenLine operator operands
          = { r with
              cursors := cursors
              parsed := r.parsed ++
                [{ source := some tokenLine.source, unit := s.unit, tokenLine := tokenLine,
                   line := tokenLine.source, operator := operator, operands := operands,
                   address := r.cursors.get r.cursors.textSegment, instruction := form,
                   note := note }] } := by
  unfold readInstruction
  split
  · split <;> exact .inl (quiet_report r _ _ _)
  · rename_i hoperator
    split
    · exact .inl (quiet_report r _ _ _)
    · rename_i form hselect
      split
      · exact .inl (quiet_report r _ _ _)
      · split
        · exact .inl (quiet_report r _ _ _)
        · rename_i hcheck
          exact .inr ⟨form, _, by simpa using hoperator, hselect, hcheck, rfl⟩

/-! ### Stores -/

theorem stored_log (session : Session) (t : Token) (note : Text)
    (outcome : Image MachineStatement × Option Image.AddressError) :
    ∃ ms, (session.stored t note outcome).log = session.log.addAll ms := by
  obtain ⟨image, _ | e⟩ := outcome
  · exact ⟨[], rfl⟩
  · exact ⟨[_], rfl⟩

/-- A store that leaves no error holds its bytes, and no other byte changes. -/
theorem writeValue_of_clean {r : Reading} {note : Text} {t : Token} {a : Address} {v : Int}
    {width : Nat} (h : (r.writeValue note t a v width).log.hasErrors = false) :
    ∃ image, r.writeValue note t a v width = { r with image := image } ∧
      image.layout = r.image.layout ∧ image.bytesFrom a width = littleEndian width v ∧
      ∀ x, ¬ Covers a width x → image.byte x = r.image.byte x := by
  unfold writeValue at h ⊢
  by_cases hwide : (width == 8) = true
  · obtain rfl : width = 8 := eq_of_beq hwide
    simp only [hwide, if_true] at h ⊢
    cases hset : r.image.setDouble a (BitVec.ofInt 64 v) with
    | mk image refused =>
      simp only [hset] at h ⊢
      cases refused with
      | none => exact ⟨image, rfl, Image.of_setDouble hset⟩
      | some e => exact absurd (Log.hasErrors_add_eq_false_iff.1 h).2 (by simp [Problem.about,
          Problem.isWarning, Message.ofToken])
  · simp only [hwide, if_false, Bool.false_eq_true, Image.store_eq] at h ⊢
    cases hset : r.image.set a v width with
    | error e =>
      rw [hset] at h
      exact absurd (Log.hasErrors_add_eq_false_iff.1 h).2 (by simp [Problem.about,
        Problem.isWarning, Message.ofToken])
    | ok image =>
      refine ⟨image, rfl, Image.layout_of_set hset, Image.bytesFrom_of_set hset, ?_⟩
      intro x hx
      exact Image.byte_of_set hset hx

theorem width_le_of_writeValue {r : Reading} {note : Text} {t : Token} {a : Address} {v : Int}
    {width : Nat} (h : (r.writeValue note t a v width).log.hasErrors = false) : width ≤ 8 := by
  unfold writeValue at h
  split at h
  · rename_i hwide
    exact Nat.le_of_eq (eq_of_beq hwide)
  · rw [Image.store_eq] at h
    cases hset : r.image.set a v width with
    | error e =>
      rw [hset] at h
      cases (Log.hasErrors_add_eq_false_iff.1 h).2
    | ok image =>
      have hwidth := (Image.set_eq_ok_iff.1 hset).1.toNat_le
      omega

theorem dataCursor_advanceData (r : Reading) (n : Nat) :
    (r.advanceData n).dataCursor = r.dataCursor + BitVec.ofNat 32 n := by
  cases hkernel : r.cursors.segment.isKernel <;>
    simp [advanceData, dataCursor, Cursors.dataSegment, Cursors.get, Cursors.set, hkernel]

/-- A string changes bytes from the cursor on, as many as it has when none is refused. -/
theorem storeBytes_frame (r : Reading) (bytes : Text) :
    ∃ image cursors, (r.storeBytes bytes).1 = { r with image := image, cursors := cursors } ∧
      image.layout = r.image.layout ∧
      ((r.storeBytes bytes).2 = none →
        ∀ x, ¬ Covers r.dataCursor bytes.length x → image.byte x = r.image.byte x) := by
  induction bytes generalizing r with
  | nil => exact ⟨r.image, r.cursors, rfl, rfl, fun _ _ _ => rfl⟩
  | cons b rest ih =>
    rw [storeBytes, Image.store_eq]
    cases hset : r.image.set r.dataCursor b.toNat 1 with
    | error e => exact ⟨r.image, r.cursors, rfl, rfl, nofun⟩
    | ok image =>
      obtain ⟨after, cursors, hafter, hlayout, hbytes⟩ :=
        ih ({ r with image := image }.advanceData 1)
      refine ⟨after, cursors, hafter, hlayout.trans (Image.layout_of_set hset), ?_⟩
      intro hstored x hx
      have hrest : ¬ Covers ({ r with image := image }.advanceData 1).dataCursor rest.length x := by
        rw [dataCursor_advanceData]
        change ¬ Covers (r.dataCursor + 1) rest.length x
        simp only [Covers, List.length_cons] at hx ⊢
        bv_omega
      have hfirst : ¬ Covers r.dataCursor 1 x :=
        fun hcovers => hx (hcovers.mono (by simp))
      rw [hbytes hstored x hrest]
      exact Image.byte_of_set hset hfirst

theorem writeValue_log (r : Reading) (note : Text) (t : Token) (a : Address) (v : Int)
    (width : Nat) : ∃ ms, (r.writeValue note t a v width).log = r.log.addAll ms := by
  unfold writeValue
  split
  · generalize r.image.setDouble a (BitVec.ofInt 64 v) = result
    obtain ⟨image, refused⟩ := result
    cases refused with
    | none => exact ⟨[], rfl⟩
    | some e => exact ⟨[_], rfl⟩
  · exact stored_log r.toSession t note _

end Reading

namespace Action

open Reading

/-- The actions that change neither the image nor the symbols, the pending data or the
statements. -/
def isQuiet : Action → Bool
  | select .. | space .. | share .. | beginMacro .. | endMacro .. | announce _ | unalign
  | report .. | record _ | enter => true
  | label .. | external .. | align .. | number .. | reference .. | string .. | instruction .. =>
    false

theorem quiet_perform {a : Action} (h : a.isQuiet = true) (s : Scope) (r : Reading) :
    Quiet r (a.perform s r) := by
  cases a with
  | select note directive operands segment =>
    exact quiet_selectSegment r note directive operands segment
  | space note directive operands => exact quiet_executeSpace r note directive operands
  | share note d directive operands => exact quiet_executeGlobal r note d directive operands
  | beginMacro note index directive operands =>
    exact quiet_executeBegin r note index directive operands
  | endMacro note index directive operands =>
    exact quiet_executeEnd r note index directive operands
  | announce d => exact quiet_cursors r _
  | unalign => exact quiet_cursors r _
  | report note t p => exact quiet_report r note t p
  | record messages => exact ⟨rfl, rfl, rfl, rfl, rfl, messages, rfl⟩
  | enter => exact quiet_pool r _
  | label | external | align | number | reference | string | instruction => cases h

theorem bytesFrom_of_writeValue {r : Reading} {note : Text} {t : Token} {v : Int} {width : Nat}
    (h : (r.writeValue note t r.dataCursor v width).log.hasErrors = false) :
    (r.writeValue note t r.dataCursor v width).image.bytesFrom r.dataCursor width
        = littleEndian width v ∧
      Image.ChangesWithin [(r.dataCursor, width)] r.image
        (r.writeValue note t r.dataCursor v width).image := by
  obtain ⟨image, hwrite, hlayout, hbytes, hframe⟩ := writeValue_of_clean h
  rw [hwrite]
  exact ⟨hbytes, Image.changesWithin_singleton hlayout hframe⟩

def deferred? (r : Reading) : Action → Option Pending
  | reference _ t width =>
    if (r.lookup t.text).isNone then some ⟨r.dataCursor, min width 4, t⟩ else none
  | _ => none

/-- All that an action can do. -/
inductive Effect (s : Scope) (r : Reading) (a : Action) : Reading → Prop where
  | quiet {r' : Reading} (hquiet : Quiet r r') (hnone : a.deferred? r = none) : Effect s r a r'
  | label {note : Text} {t : Token} {labels : SymbolTable} (haction : a = .label note t)
      (hadd : r.labels.add ⟨t.text, r.cursors.here, r.cursors.segment.isData⟩ = .ok labels) :
      Effect s r a { r with labels := labels }
  | external {note : Text} {directive : Token} {operands : List Token} {symbol : Symbol}
      {global : SymbolTable} (cursors : Cursors) (haction : a = .external note directive operands)
      (hadd : r.global.add symbol = .ok global) :
      Effect s r a { r with global := global, cursors := cursors }
  | move {segment : Segment} {multiple : Nat} (haction : a = .align segment multiple)
      (hmoves : alignUp (r.cursors.get segment) multiple ≠ r.cursors.get segment) :
      Effect s r a
        { r with
          cursors := r.cursors.set segment (alignUp (r.cursors.get segment) multiple)
          labels :=
            r.labels.move (r.cursors.get segment) (alignUp (r.cursors.get segment) multiple) }
  | store {r' : Reading} (hglobal : r'.global = r.global) (hlabels : r'.labels = r.labels)
      (hparsed : r'.parsed = r.parsed)
      (hpending : r'.pending = r.pending ++ (a.deferred? r).toList)
      (hlog : ∃ ms, r'.log = r.log.addAll ms)
      (himage : r'.log.hasErrors = false →
        Image.ChangesWithin [(r.dataCursor, a.size)] r.image r'.image) : Effect s r a r'
  | parse {note : Text} {tokenLine : TokenLine} {operator : Token} {operands : List Token}
      {form : Instruction} (cursors : Cursors)
      (haction : a = .instruction note tokenLine operator operands)
      (hoperator : operator.kind = .operator)
      (hselect : Instruction.select (s.isa.lookup operator.text) operands = some form)
      (hcheck : form.check operator operands = none) :
      Effect s r a
        { r with
          cursors := cursors
          parsed := r.parsed ++
            [{ source := some tokenLine.source, unit := s.unit, tokenLine := tokenLine,
               line := tokenLine.source, operator := operator, operands := operands,
               address := r.cursors.get r.cursors.textSegment, instruction := form,
               note := note }] }

/-- A value at the data cursor is stored; `item` may wait for a label. -/
theorem effect_store (s : Scope) (r : Reading) {a : Action} (note : Text) (t : Token) (v : Int)
    {r' : Reading} (himage : r'.image = (r.writeValue note t r.dataCursor v a.size).image)
    (hglobal : r'.global = r.global) (hlabels : r'.labels = r.labels)
    (hparsed : r'.parsed = r.parsed)
    (hpending : r'.pending = r.pending ++ (a.deferred? r).toList)
    (hlog : r'.log = (r.writeValue note t r.dataCursor v a.size).log) : Effect s r a r' := by
  refine .store hglobal hlabels hparsed hpending ?_ ?_
  · rw [hlog]
    exact writeValue_log r note t r.dataCursor v a.size
  · intro hclean
    rw [hlog] at hclean
    rw [himage]
    exact (bytesFrom_of_writeValue hclean).2

theorem effect_perform (s : Scope) (r : Reading) (a : Action) : Effect s r a (a.perform s r) := by
  cases a with
  | label note t =>
    rcases defineLabel_cases r note t with hquiet | ⟨labels, hadd, hlabel⟩
    · exact .quiet hquiet rfl
    · rw [perform, hlabel]
      exact .label rfl hadd
  | external note directive operands =>
    rcases executeExternal_cases r note directive operands with
      hquiet | ⟨symbol, global, cursors, hadd, hexternal⟩
    · exact .quiet hquiet rfl
    · rw [perform, hexternal]
      exact .external cursors rfl hadd
  | align segment multiple =>
    rcases align_cases r segment multiple with hkept | ⟨hmoves, hmoved⟩
    · rw [perform, hkept]
      exact .quiet (Quiet.refl r) rfl
    · rw [perform, hmoved]
      exact .move rfl hmoves
  | number note t width value =>
    obtain ⟨image, log, hwrite⟩ := r.writeValue_frame note t r.dataCursor value width
    refine effect_store s r note t value rfl ?_ ?_ ?_ ?_ rfl <;>
      simp [perform, hwrite, advanceData, deferred?]
  | reference note t width =>
    cases hlookup : r.lookup t.text with
    | some symbol =>
      obtain ⟨image, log, hwrite⟩ :=
        r.writeValue_frame note t r.dataCursor symbol.address.toNat width
      refine effect_store s r note t symbol.address.toNat ?_ ?_ ?_ ?_ ?_ ?_ <;>
        simp [perform, size, hlookup, hwrite, advanceData, deferred?]
    | none =>
      obtain ⟨image, log, hwrite⟩ := r.writeValue_frame note t r.dataCursor 0 width
      refine effect_store s r note t 0 ?_ ?_ ?_ ?_ ?_ ?_ <;>
        simp [perform, size, hlookup, hwrite, writePending, advanceData, deferred?]
  | string note t bytes =>
    obtain ⟨image, cursors, hstored, hlayout, hframe⟩ := storeBytes_frame r bytes
    cases hbytes : r.storeBytes bytes with
    | mk after refused =>
      rw [hbytes] at hstored hframe
      obtain rfl : after = _ := hstored
      have hpending : r.pending = r.pending ++ ((string note t bytes).deferred? r).toList :=
        (List.append_nil _).symm
      simp only [perform, hbytes]
      cases refused with
      | none =>
        refine .store rfl rfl rfl hpending ⟨[], rfl⟩ fun _ => ?_
        exact Image.changesWithin_singleton hlayout (hframe rfl)
      | some e =>
        refine .store rfl rfl rfl hpending ⟨[_], rfl⟩ fun hclean => ?_
        cases (Log.hasErrors_add_eq_false_iff.1 hclean).2
  | instruction note tokenLine operator operands =>
    rcases readInstruction_cases r s note tokenLine operator operands with
      hquiet | ⟨form, cursors, hoperator, hselect, hcheck, hparsed⟩
    · exact .quiet hquiet rfl
    · rw [perform, hparsed]
      exact .parse cursors rfl hoperator hselect hcheck
  | _ => exact .quiet (quiet_perform rfl s r) rfl

/-! ### Messages, bytes and pending data -/

theorem Effect.log {s : Scope} {r r' : Reading} {a : Action} (h : Effect s r a r') :
    ∃ ms, r'.log = r.log.addAll ms := by
  cases h with
  | quiet hquiet _ => exact hquiet.log
  | store _ _ _ _ hlog _ => exact hlog
  | label | external | move | parse => exact ⟨[], rfl⟩

/-- An action without an error changes no byte but those it stores. -/
theorem Effect.changesWithin {s : Scope} {r r' : Reading} {a : Action} (h : Effect s r a r')
    (hclean : r'.log.hasErrors = false) :
    Image.ChangesWithin [(r.dataCursor, a.size)] r.image r'.image := by
  cases h with
  | quiet hquiet _ =>
    rw [hquiet.image]
    exact Image.ChangesWithin.refl _ _
  | store _ _ _ _ _ himage => exact himage hclean
  | label | external | move | parse => exact Image.ChangesWithin.refl _ _

theorem Effect.pending {s : Scope} {r r' : Reading} {a : Action} (h : Effect s r a r') :
    r'.pending = r.pending ++ (a.deferred? r).toList := by
  cases h with
  | quiet hquiet hnone => simp [hquiet.pending, hnone]
  | store _ _ _ hpending _ _ => exact hpending
  | label haction | external _ haction | move haction | parse _ haction =>
    subst haction
    simp [deferred?]

theorem clean_of_perform {s : Scope} {r : Reading} {a : Action}
    (h : (a.perform s r).log.hasErrors = false) : r.log.hasErrors = false := by
  obtain ⟨ms, hlog⟩ := (effect_perform s r a).log
  rw [hlog] at h
  exact (Log.hasErrors_addAll_eq_false_iff.1 h).1

theorem width_le_of_reference {s : Scope} {r : Reading} {note : Text} {t : Token} {width : Nat}
    (h : ((reference note t width).perform s r).log.hasErrors = false) : width ≤ 8 := by
  cases hlookup : r.lookup t.text with
  | some symbol =>
    simp only [perform, hlookup] at h
    exact width_le_of_writeValue h
  | none =>
    simp only [perform, hlookup] at h
    exact width_le_of_writeValue h

/-- What a reference to a label stores: its address, or zero when it is not known yet. -/
theorem bytesFrom_reference {s : Scope} {r : Reading} {note : Text} {t : Token} {width : Nat}
    (h : ((reference note t width).perform s r).log.hasErrors = false) :
    ((reference note t width).perform s r).image.bytesFrom r.dataCursor width
        = littleEndian width ((r.lookup t.text).elim 0 fun symbol => symbol.address.toNat) ∧
      Image.ChangesWithin [(r.dataCursor, width)] r.image
        ((reference note t width).perform s r).image := by
  cases hlookup : r.lookup t.text with
  | some symbol =>
    simp only [perform, hlookup] at h ⊢
    exact bytesFrom_of_writeValue h
  | none =>
    simp only [perform, hlookup] at h ⊢
    exact bytesFrom_of_writeValue h

end Action

theorem Scope.clean_of_performAll {s : Scope} {actions : List Action} {r : Reading}
    (h : (s.performAll r actions).log.hasErrors = false) : r.log.hasErrors = false := by
  induction actions generalizing r with
  | nil => exact h
  | cons a actions ih => exact Action.clean_of_perform (ih h)

end Rv32Assembler
