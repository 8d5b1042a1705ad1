import Rv32Assembler.Proofs.References
import Rv32Assembler.Proofs.Regular
/-!
# References to labels that are known

A data item that names a known label takes a copy of its address. The copy is never looked at again,
while the address of the name may still change: an alignment moves the labels at its cursor, and a
label of the file takes the place of a global one. Such an action displaces the name; without one the
item holds the final address (`bytesFrom_of_known`). A label of the file only ever moves up, so once
displaced it never comes back to the address that the item holds.
-/

namespace Rv32Assembler

theorem SymbolTable.lookup_move (t : SymbolTable) (old new : Address) (name : Text) :
    (t.move old new).lookup name = (t.lookup name).map fun s =>
      if s.address = old then { s with address := new } else s := by
  simp only [lookup, move, List.find?_map]
  congr 2
  funext s
  simp only [Function.comp_apply]
  split <;> rfl

/-! ### Addresses move up -/

/-- The place of an address in the order in which cursors move; zero follows the last address. -/
def Address.rank (a : Address) : Nat := if a = 0 then 2 ^ 32 else a.toNat

theorem Address.rank_injective : Function.Injective Address.rank := by
  intro a b h
  have ha : a.toNat < 2 ^ 32 := a.isLt
  have hb : b.toNat < 2 ^ 32 := b.isLt
  unfold rank at h
  split at h <;> split at h
  · simp_all
  · omega
  · omega
  · exact BitVec.eq_of_toNat_eq h

/-- An alignment to a multiple that divides the address space moves up. -/
theorem rank_lt_rank_alignUp {a : Address} {multiple : Nat}
    (h : multiple = 0 ∨ multiple ∣ 2 ^ 32) (hmoves : alignUp a multiple ≠ a) :
    Address.rank a < Address.rank (alignUp a multiple) := by
  unfold alignUp at hmoves ⊢
  split at hmoves
  · exact absurd rfl hmoves
  · rename_i hrest
    rw [if_neg hrest]
    rcases h with rfl | ⟨k, hk⟩
    · simp at hmoves
    · have ha : a.toNat < 2 ^ 32 := a.isLt
      have hpos : 0 < multiple := by
        rcases Nat.eq_zero_or_pos multiple with rfl | hpos
        · omega
        · exact hpos
      have hnonzero : a ≠ 0 := by
        rintro rfl
        simp at hrest
      -- The next multiple is at most the end of the address space, itself a multiple.
      have hquotient : a.toNat / multiple < k := Nat.div_lt_of_lt_mul (by omega)
      have hbound : multiple * (a.toNat / multiple + 1) ≤ multiple * k :=
        Nat.mul_le_mul_left _ hquotient
      have hdivision := Nat.div_add_mod a.toNat multiple
      have hremainder := Nat.mod_lt a.toNat hpos
      rw [Nat.mul_add, Nat.mul_one] at hbound
      generalize hstep : multiple - a.toNat % multiple = step
      have hstep' : a.toNat + step ≤ 2 ^ 32 := by omega
      have hpositive : 0 < step := by omega
      unfold Address.rank
      rw [if_neg hnonzero]
      split
      · exact ha
      · rename_i hsum
        have hne : (a + BitVec.ofNat 32 step).toNat ≠ 0 := fun hzero =>
          hsum (BitVec.eq_of_toNat_eq (by simpa using hzero))
        rw [BitVec.toNat_add, BitVec.toNat_ofNat] at hne ⊢
        omega

/-! ### What changes the address of a name -/

theorem Action.symbols_of_reference {s : Scope} {r : Reading} {note : Text} {t : Token}
    {width : Nat} :
    ((reference note t width).perform s r).labels = r.labels ∧
      ((reference note t width).perform s r).global = r.global := by
  generalize haction : reference note t width = a
  have heffect := effect_perform s r a
  generalize a.perform s r = r' at heffect ⊢
  cases heffect with
  | quiet hquiet => exact ⟨hquiet.labels, hquiet.global⟩
  | store hglobal hlabels => exact ⟨hlabels, hglobal⟩
  | label hother | external _ hother | move hother | parse _ hother =>
    rw [hother] at haction
    cases haction

namespace Action.Effect

variable {s : Scope} {r r' : Reading} {a : Action} {name : Text} {symbol : Symbol}

theorem lookup_labels (h : a.Effect s r r') (hknown : r.labels.lookup name = some symbol) :
    r'.labels.lookup name = some symbol ∨
      ∃ segment multiple, a = .align segment multiple ∧ r.cursors.get segment = symbol.address ∧
        alignUp symbol.address multiple ≠ symbol.address ∧
        r'.labels.lookup name
          = some { symbol with address := alignUp symbol.address multiple } := by
  cases h with
  | quiet hquiet _ =>
    rw [hquiet.labels]
    exact .inl hknown
  | label _ hadd => exact .inl (SymbolTable.extends_of_add hadd hknown)
  | external | parse => exact .inl hknown
  | store _ hlabels =>
    rw [hlabels]
    exact .inl hknown
  | @move segment multiple haction hmoves =>
    rw [SymbolTable.lookup_move, hknown, Option.map_some]
    by_cases hhere : symbol.address = r.cursors.get segment
    · rw [if_pos hhere]
      rw [← hhere] at hmoves
      exact .inr ⟨segment, multiple, haction, hhere.symm, hmoves, by rw [hhere]⟩
    · exact .inl (congrArg some (if_neg hhere))

theorem lookup_global (h : a.Effect s r r') (hlocal : r.labels.lookup name = none)
    (hknown : r.global.lookup name = some symbol) :
    r'.lookup name = some symbol ∨
      ∃ note t, a = .label note t ∧ t.text = name ∧
        r'.lookup name = some ⟨name, r.cursors.here, r.cursors.segment.isData⟩ := by
  have hgrows := h.extends_global hknown
  cases h with
  | quiet hquiet _ =>
    left
    rw [Reading.lookup, SymbolTable.lookupOr, hquiet.labels, hlocal, hgrows]
    rfl
  | @label note t _ haction hadd =>
    simp only [Reading.lookup, SymbolTable.lookupOr, SymbolTable.lookup_of_add hadd]
    by_cases hname : name = t.text
    · right
      refine ⟨note, t, haction, hname.symm, ?_⟩
      rw [if_pos hname, hname]
      rfl
    · left
      rw [if_neg hname, hlocal, hknown]
      rfl
  | external | parse =>
    left
    rw [Reading.lookup, SymbolTable.lookupOr, hlocal, hgrows]
    rfl
  | store _ hlabels =>
    left
    rw [Reading.lookup, SymbolTable.lookupOr, hlabels, hlocal, hgrows]
    rfl
  | move =>
    left
    simp only [Reading.lookup, SymbolTable.lookupOr, SymbolTable.lookup_move, hlocal, hknown]
    rfl

end Action.Effect

namespace Moment

/-- The action changes the address that a look-up of the name gives. -/
def Displaces (m : Moment) (name : Text) : Prop :=
  (m.after.lookup name).map Symbol.address ≠ (m.before.lookup name).map Symbol.address

instance (m : Moment) (name : Text) : Decidable (m.Displaces name) :=
  inferInstanceAs (Decidable (_ ≠ _))

/-- A known name is displaced by an alignment at its address or by a label elsewhere that takes its
place; nothing else displaces it. -/
theorem cases_of_displaces {m : Moment} {name : Text} {symbol : Symbol} (h : m.Displaces name)
    (hknown : m.before.lookup name = some symbol) :
    (∃ segment multiple, m.action = .align segment multiple ∧
        m.before.labels.lookup name = some symbol ∧
        m.before.cursors.get segment = symbol.address ∧
        alignUp symbol.address multiple ≠ symbol.address) ∨
      ∃ note t, m.action = .label note t ∧ t.text = name ∧ m.before.labels.lookup name = none ∧
        m.before.cursors.here ≠ symbol.address := by
  have heffect := Action.effect_perform m.scope m.before m.action
  cases hlocal : m.before.labels.lookup name with
  | some own =>
    have hown : own = symbol := by
      simpa [Reading.lookup, SymbolTable.lookupOr, hlocal] using hknown
    subst hown
    rcases heffect.lookup_labels hlocal with hkept | ⟨segment, multiple, haction, hat, hmoves, -⟩
    · refine absurd ?_ h
      rw [hknown, after, Reading.lookup, SymbolTable.lookupOr, hkept]
      rfl
    · exact .inl ⟨segment, multiple, haction, rfl, hat, hmoves⟩
  | none =>
    have hglobal : m.before.global.lookup name = some symbol := by
      simpa [Reading.lookup, SymbolTable.lookupOr, hlocal] using hknown
    rcases heffect.lookup_global hlocal hglobal with hkept | ⟨note, t, haction, hname, hfound⟩
    · exact absurd (by rw [hknown, after, hkept]) h
    · refine .inr ⟨note, t, haction, hname, rfl, fun hsame => h ?_⟩
      rw [hknown, after, hfound, Option.map_some, Option.map_some, hsame]

/-- What one action does to a label of the file: it keeps it, or it moves it up and so displaces it. -/
theorem lookup_labels_after {m : Moment} {v : Vocabulary} (hregular : m.action.Regular v)
    {name : Text} {symbol : Symbol} (hknown : m.before.labels.lookup name = some symbol) :
    ∃ next, m.after.labels.lookup name = some next ∧
      Address.rank symbol.address ≤ Address.rank next.address ∧
      (next.address = symbol.address ↔ ¬ m.Displaces name) := by
  have hbefore : m.before.lookup name = some symbol := by
    rw [Reading.lookup, SymbolTable.lookupOr, hknown]
    rfl
  rcases (Action.effect_perform m.scope m.before m.action).lookup_labels hknown with
    hkept | ⟨segment, multiple, haction, -, hmoves, hmoved⟩
  · refine ⟨symbol, hkept, Nat.le_refl _, iff_of_true rfl fun h => h ?_⟩
    rw [hbefore, after, Reading.lookup, SymbolTable.lookupOr, hkept]
    rfl
  · rw [haction] at hregular
    refine ⟨_, hmoved, (rank_lt_rank_alignUp hregular hmoves).le, iff_of_false hmoves ?_⟩
    refine not_not.2 fun hsame => hmoves ?_
    rw [hbefore, after, Reading.lookup, SymbolTable.lookupOr, hmoved] at hsame
    exact Option.some.inj hsame

end Moment

namespace Scope

variable {s : Scope} {r : Reading} {actions : List Action} {name : Text} {symbol : Symbol}

/-- A name that is found is found after any actions. -/
theorem exists_lookup_performAll (hknown : r.lookup name = some symbol) :
    ∃ final, (s.performAll r actions).lookup name = some final := by
  induction actions generalizing r symbol with
  | nil => exact ⟨symbol, hknown⟩
  | cons a actions ih =>
    have heffect := Action.effect_perform s r a
    cases hlocal : r.labels.lookup name with
    | some own =>
      have hstep : ∃ next, (a.perform s r).labels.lookup name = some next := by
        rcases heffect.lookup_labels hlocal with hkept | ⟨_, _, _, _, _, hmoved⟩
        · exact ⟨own, hkept⟩
        · exact ⟨_, hmoved⟩
      obtain ⟨next, hnext⟩ := hstep
      have hfound : (a.perform s r).lookup name = some next := by
        rw [Reading.lookup, SymbolTable.lookupOr, hnext]
        rfl
      exact ih hfound
    | none =>
      have hglobal : r.global.lookup name = some symbol := by
        simpa [Reading.lookup, SymbolTable.lookupOr, hlocal] using hknown
      rcases heffect.lookup_global hlocal hglobal with hkept | ⟨_, _, _, _, hfound⟩
      · exact ih hkept
      · exact ih hfound

/-- Actions that displace a name at no time leave its address as it is. -/
theorem address_performAll (h : ∀ m ∈ s.moments r actions, ¬ m.Displaces name) :
    ((s.performAll r actions).lookup name).map Symbol.address
      = (r.lookup name).map Symbol.address := by
  induction actions generalizing r with
  | nil => rfl
  | cons a actions ih =>
    have hfirst := not_not.1 (h ⟨s, r, a, actions⟩ (List.mem_cons_self ..))
    rw [performAll_cons, ih fun m hm => h m (List.mem_cons_of_mem _ hm)]
    exact hfirst

/-- A label of the file has its address at the end exactly when nothing has displaced it. -/
theorem address_labels_performAll {v : Vocabulary}
    (hregular : ∀ m ∈ s.moments r actions, m.action.Regular v)
    (hknown : r.labels.lookup name = some symbol) :
    ∃ final, (s.performAll r actions).labels.lookup name = some final ∧
      Address.rank symbol.address ≤ Address.rank final.address ∧
      (final.address = symbol.address ↔ ∀ m ∈ s.moments r actions, ¬ m.Displaces name) := by
  induction actions generalizing r symbol with
  | nil => exact ⟨symbol, hknown, Nat.le_refl _, iff_of_true rfl (List.forall_mem_nil _)⟩
  | cons a actions ih =>
    obtain ⟨next, hnext, hfirst, hkept⟩ :=
      Moment.lookup_labels_after (hregular ⟨s, r, a, actions⟩ (List.mem_cons_self ..)) hknown
    obtain ⟨final, hfinal, hrest, hall⟩ := ih (fun m hm => hregular m (List.mem_cons_of_mem _ hm)) hnext
    refine ⟨final, hfinal, hfirst.trans hrest, ?_⟩
    rw [moments, List.forall_mem_cons, ← hkept, ← hall]
    refine ⟨fun hsame => ?_, fun hboth => hboth.2.trans hboth.1⟩
    -- Both steps go up, so a label that ends where it was has not moved in between.
    have hstep : next.address = symbol.address := by
      rw [hsame] at hrest
      exact Address.rank_injective (Nat.le_antisymm hrest hfirst)
    exact ⟨hstep, hsame.trans hstep.symm⟩

end Scope

/-! ### Items with a copy of an address -/

/-- The bytes of a reference to a known label are never patched. -/
theorem Run.bytesFrom_of_stored {config : Config} {isa : Registry} {files : List SourceFile}
    {program : Program} (run : Run config isa files program) {earlier later : List Moment}
    {m : Moment} (hm : moments config isa files = earlier ++ m :: later) {next : Session}
    {u : SourceUnit} (hfile : run.FileOf m next u) (hdata : m.Lasts earlier later)
    (hnone : m.deferred? = none) :
    run.patched.bytesFrom m.range.1 m.range.2 = m.after.image.bytesFrom m.range.1 m.range.2 := by
  calc run.patched.bytesFrom m.range.1 m.range.2
      = run.session.image.bytesFrom m.range.1 m.range.2 := by
        refine run.patches.bytesFrom_eq ?_
        intro r hr
        obtain ⟨u', hu', hr⟩ := List.mem_flatMap.1 hr
        obtain ⟨q, hq, rfl⟩ := List.mem_map.1 hr
        obtain ⟨k, hk⟩ := List.mem_iff_getElem?.1 hu'
        have hcases := run.eq_or_apart_of_left hm hdata hk hq
        rw [hnone] at hcases
        exact hcases.resolve_left nofun
    _ = next.image.bytesFrom m.range.1 m.range.2 := hfile.kept
    _ = m.fileEnd.image.bytesFrom m.range.1 m.range.2 := by
        refine hfile.finishes.changes.bytesFrom_eq ?_
        intro r hr
        obtain ⟨q, hq, rfl⟩ := List.mem_map.1 hr
        have hcases := hfile.pending q (List.mem_of_mem_filter hq)
        rw [hnone] at hcases
        exact hcases.resolve_left nofun
    _ = m.after.image.bytesFrom m.range.1 m.range.2 := hfile.stored

/-- A reference to a known label holds the low bytes of the address that the label had then, if
nothing is stored over it afterwards. These are the bytes of the final address exactly when the two
addresses agree in them; they do if no later action of the file displaces the name, and for a label of the file
the addresses agree in no other case. -/
theorem bytesFrom_of_known {config : Config} {isa : Registry} {files : List SourceFile}
    {program : Program} (h : assemble config isa files = .ok (.ok program))
    {earlier later : List Moment} {m : Moment}
    (hm : moments config isa files = earlier ++ m :: later) {note : Text} {t : Token} {width : Nat}
    (haction : m.action = .reference note t width) {symbol : Symbol}
    (hknown : m.before.lookup t.text = some symbol) (hdata : m.Lasts earlier later)
    (htext : ∀ s ∈ program.statements, Apart m.before.dataCursor width s.address 4) :
    ∃ name labels final, program.locals[m.scope.unit]? = some (name, labels) ∧
      labels.lookupOr program.global t.text = some final ∧
      program.image.bytesFrom m.before.dataCursor width
        = littleEndian width symbol.address.toNat ∧
      (program.image.bytesFrom m.before.dataCursor width = littleEndian width final.address.toNat ↔
        symbol.address.toNat % 256 ^ width = final.address.toNat % 256 ^ width) ∧
      ((∀ other ∈ m.scope.moments m.after m.later, ¬ other.Displaces t.text) →
        final.address = symbol.address) ∧
      (m.before.labels.lookup t.text = some symbol → final.address = symbol.address →
        ∀ other ∈ m.scope.moments m.after m.later, ¬ other.Displaces t.text) := by
  obtain ⟨run⟩ := nonempty_run h
  obtain ⟨next, u, hfile⟩ := run.exists_fileOf hm hdata
  have hrange := Moment.range_of_reference haction
  have hnone : m.deferred? = none := by
    simp [Moment.deferred?, haction, Action.deferred?, hknown]
  have hbytes : program.image.bytesFrom m.before.dataCursor width
      = littleEndian width symbol.address.toNat := by
    have hstored := (run.bytesFrom_of_stored hm hfile hdata hnone).trans
      (Moment.bytesFrom_after_of_reference haction hfile.clean)
    rw [hrange, hknown] at hstored
    rw [run.bytesFrom_image htext]
    exact hstored
  -- A reference changes no symbol, so the state after it knows the label too.
  obtain ⟨hlabels, hglobal⟩ : m.after.labels = m.before.labels ∧
      m.after.global = m.before.global := by
    rw [Moment.after, haction]
    exact Action.symbols_of_reference
  have hafter : m.after.lookup t.text = some symbol := by
    rw [Reading.lookup, hlabels, hglobal]
    exact hknown
  obtain ⟨final, hfinal⟩ : ∃ final, m.fileEnd.lookup t.text = some final :=
    Scope.exists_lookup_performAll hafter
  refine ⟨u.name, u.labels, final, hfile.locals, ?_, hbytes, ?_, ?_, ?_⟩
  · rw [run.global]
    exact hfile.lookupOr hfinal
  · rw [hbytes, littleEndian_eq_iff]
    norm_cast
  · intro hkept
    have hsame := Scope.address_performAll hkept
    rw [hafter] at hsame
    rw [Moment.fileEnd] at hfinal
    rw [hfinal] at hsame
    exact Option.some.inj hsame
  · intro hlocal hsame
    rw [← hlabels] at hlocal
    obtain ⟨final', hfinal', -, hall⟩ :=
      Scope.address_labels_performAll (fun other hother => run.regular (hfile.later hother)) hlocal
    refine hall.1 ?_
    have hfound : m.fileEnd.lookup t.text = some final' := by
      rw [Reading.lookup, SymbolTable.lookupOr, Moment.fileEnd, hfinal']
      rfl
    rw [hfinal] at hfound
    cases hfound
    exact hsame

/-- A word that names a label which the next word aligns. -/
def displacedSource : List SourceFile :=
  [{ name := "a.s",
     lines :=
       [⟨".data", "a.s", 1⟩, ⟨".byte 1", "a.s", 2⟩, ⟨"x:", "a.s", 3⟩, ⟨".kdata", "a.s", 4⟩,
        ⟨".word x", "a.s", 5⟩, ⟨".data", "a.s", 6⟩, ⟨".word 5", "a.s", 7⟩, ⟨".text", "a.s", 8⟩,
        ⟨"la t0, x", "a.s", 9⟩] }]

/-- The word still holds the address from which the label was moved. -/
theorem bytesFrom_of_displacedSource :
    ∃ program labels, assemble {} Rv32im.registry displacedSource = .ok (.ok program) ∧
      program.locals[0]? = some (Text.ofString "a.s", labels) ∧
      labels.lookupOr program.global "x" = some ⟨"x", 0x10010004, true⟩ ∧
      program.image.bytesFrom 0x90000000 4 = littleEndian 4 0x10010001 ∧
      program.image.bytesFrom 0x90000000 4 ≠ littleEndian 4 0x10010004 := by
  have hprogram : (programInOrder? {} Rv32im.registry displacedSource).map (fun p : Program =>
      (p.locals[0]?.map fun l => (l.1, l.2.lookupOr p.global "x"),
        decide (∀ s ∈ p.statements, Apart 0x90000000 4 s.address 4)))
      = some (some (Text.ofString "a.s", some ⟨"x", 0x10010004, true⟩), true) := by
    decide +kernel
  have hmoment : (moments {} Rv32im.registry displacedSource)[8]?.map (fun m : Moment =>
      (m.action, m.before.dataCursor, m.scope.unit, m.before.lookup "x",
        decide (m.Lasts ((moments {} Rv32im.registry displacedSource).take 8)
          ((moments {} Rv32im.registry displacedSource).drop 9))))
      = some (.reference [] ⟨.identifier, "x", "a.s", 5, 7, 6, 0, 0⟩ 4, 0x90000000, 0,
          some ⟨"x", 0x10010001, true⟩, true) := by
    decide +kernel
  obtain ⟨program, hfound, hfacts⟩ := Option.map_eq_some_iff.1 hprogram
  obtain ⟨m, hm, hfacts'⟩ := Option.map_eq_some_iff.1 hmoment
  simp only [Prod.mk.injEq, decide_eq_true_eq] at hfacts hfacts'
  obtain ⟨haction, hcursor, hunit, hknown, hlasts⟩ := hfacts'
  have hassemble := assemble_of_programInOrder? hfound
  obtain ⟨name, labels, final, hlocals, hfinal, hbytes, hright, -, -⟩ :=
    bytesFrom_of_known hassemble (eq_take_append_cons_drop hm) haction hknown hlasts
      (hcursor ▸ hfacts.2)
  rw [hunit] at hlocals
  rw [hcursor] at hbytes hright
  have hnames := hfacts.1
  rw [hlocals, Option.map_some, Option.some.injEq, Prod.mk.injEq] at hnames
  obtain ⟨rfl, hlookup⟩ := hnames
  obtain rfl : final = _ := Option.some.inj (hfinal.symm.trans hlookup)
  refine ⟨program, labels, hassemble, hlocals, hlookup, hbytes, fun hwrong => ?_⟩
  exact absurd (hright.1 hwrong) (by decide)

end Rv32Assembler
