import Rv32Assembler.Proofs.Step
/-!
# The first pass over files

What one action keeps, the actions of a file keep, and the end of the file and the files after it
keep. A first pass without errors is a chain of files (`Session.Reads`), and the facts about it are
inductions over that chain: bytes change only where some action stored them, the global table only
grows, and what is pending at the end was deferred by an action of its file.
-/

namespace Rv32Assembler

/-- What the one table says of a name, the other says too. -/
def SymbolTable.Extends (t t' : SymbolTable) : Prop :=
  ∀ ⦃name : Text⦄ ⦃symbol : Symbol⦄, t.lookup name = some symbol → t'.lookup name = some symbol

namespace SymbolTable

theorem Extends.refl (t : SymbolTable) : t.Extends t := fun _ _ h => h

theorem Extends.trans {t₁ t₂ t₃ : SymbolTable} (h : t₁.Extends t₂) (h' : t₂.Extends t₃) :
    t₁.Extends t₃ := fun _ _ hsymbol => h' (h hsymbol)

theorem extends_of_add {t t' : SymbolTable} {symbol : Symbol} (h : t.add symbol = .ok t') :
    t.Extends t' := by
  intro name found hfound
  have hfree : t.lookup symbol.name = none := lookup_eq_none_of_add h
  have hne : name ≠ symbol.name := by
    rintro rfl
    rw [hfree] at hfound
    cases hfound
  rw [lookup_of_add h, if_neg hne, hfound]

theorem lookupOr_of_extends {labels global global' : SymbolTable} (h : global.Extends global')
    {name : Text} {symbol : Symbol} (hfound : labels.lookupOr global name = some symbol) :
    labels.lookupOr global' name = some symbol := by
  unfold lookupOr at hfound ⊢
  cases hlabels : labels.lookup name with
  | some own =>
    rw [hlabels] at hfound
    exact hfound
  | none =>
    rw [hlabels] at hfound
    exact h hfound

end SymbolTable

def Pending.range (p : Pending) : Address × Nat := (p.address, p.width)

theorem Action.Effect.extends_global {s : Scope} {r r' : Reading} {a : Action}
    (h : a.Effect s r r') : r.global.Extends r'.global := by
  cases h with
  | quiet hquiet _ =>
    rw [hquiet.global]
    exact SymbolTable.Extends.refl _
  | external _ _ hadd => exact SymbolTable.extends_of_add hadd
  | store hglobal =>
    rw [hglobal]
    exact SymbolTable.Extends.refl _
  | label | move | parse => exact SymbolTable.Extends.refl _

namespace Moment

def range (m : Moment) : Address × Nat := (m.before.dataCursor, m.action.size)

def deferred? (m : Moment) : Option Pending := m.action.deferred? m.before

def after (m : Moment) : Reading := m.action.perform m.scope m.before

def fileEnd (m : Moment) : Reading := m.scope.performAll m.after m.later

theorem exists_of_deferred? {m : Moment} {p : Pending} (h : m.deferred? = some p) :
    ∃ note width, m.action = .reference note p.token width ∧
      m.before.lookup p.token.text = none ∧ p.range = (m.before.dataCursor, min width 4) := by
  unfold deferred? at h
  cases haction : m.action with
  | reference note t width =>
    simp only [haction, Action.deferred?] at h
    split at h
    · rename_i hnone
      cases h
      exact ⟨note, width, rfl, Option.isNone_iff_eq_none.1 hnone, rfl⟩
    · cases h
  | _ =>
    rw [haction] at h
    cases h

theorem covers_of_deferred? {m : Moment} {p : Pending} (h : m.deferred? = some p) {x : Address}
    (hx : Covers p.range.1 p.range.2 x) : Covers m.range.1 m.range.2 x := by
  obtain ⟨note, width, haction, -, hrange⟩ := exists_of_deferred? h
  rw [hrange] at hx
  simp only [range, haction, Action.size]
  exact hx.mono (Nat.min_le_left _ _)

end Moment

namespace Scope

variable {s : Scope}

theorem changesWithin_performAll {r : Reading} {actions : List Action}
    (h : (s.performAll r actions).log.hasErrors = false) :
    Image.ChangesWithin ((s.moments r actions).map Moment.range) r.image
      (s.performAll r actions).image := by
  induction actions generalizing r with
  | nil => exact Image.ChangesWithin.refl _ _
  | cons a actions ih =>
    have hfirst := (Action.effect_perform s r a).changesWithin (clean_of_performAll h)
    exact hfirst.trans (ih h)

theorem pending_performAll (r : Reading) (actions : List Action) :
    (s.performAll r actions).pending
      = r.pending ++ (s.moments r actions).filterMap Moment.deferred? := by
  induction actions generalizing r with
  | nil => simp [moments]
  | cons a actions ih =>
    rw [performAll_cons, ih, (Action.effect_perform s r a).pending, moments, List.filterMap_cons,
      List.append_assoc]
    congr 1
    unfold Moment.deferred?
    cases a.deferred? r <;> rfl

theorem extends_global_performAll (r : Reading) (actions : List Action) :
    r.global.Extends (s.performAll r actions).global := by
  induction actions generalizing r with
  | nil => exact SymbolTable.Extends.refl _
  | cons a actions ih => exact (Action.effect_perform s r a).extends_global.trans (ih _)

theorem exists_of_moments_eq {r : Reading} {actions : List Action} {earlier later : List Moment}
    {m : Moment} (h : s.moments r actions = earlier ++ m :: later) :
    m.scope = s ∧ later = s.moments m.after m.later ∧ s.performAll r actions = m.fileEnd := by
  induction actions generalizing r earlier with
  | nil => simp [moments] at h
  | cons a actions ih =>
    cases earlier with
    | nil =>
      obtain ⟨rfl, rfl⟩ := List.cons.inj h
      exact ⟨rfl, rfl, rfl⟩
    | cons e earlier => exact ih (List.cons.inj h).2

theorem scope_of_mem_moments {r : Reading} {actions : List Action} {m : Moment}
    (h : m ∈ s.moments r actions) : m.scope = s := by
  induction actions generalizing r with
  | nil => cases h
  | cons a actions ih =>
    rcases List.mem_cons.1 h with rfl | h
    · rfl
    · exact ih h

end Scope

/-! ### Patches -/

namespace Session

theorem patch_of_clean {s : Session} {item : Pending} {symbol : Symbol}
    (h : (s.patch item symbol).log.hasErrors = false) :
    ∃ image, s.patch item symbol = { s with image := image } ∧
      s.image.set item.address symbol.address.toNat item.width = .ok image := by
  rw [patch, Image.store_eq] at h ⊢
  cases hset : s.image.set item.address symbol.address.toNat item.width with
  | ok image => exact ⟨image, rfl, rfl⟩
  | error e =>
    rw [hset] at h
    cases (Log.hasErrors_add_eq_false_iff.1 h).2

/-- The patches of the items that `known` tells the symbols of. -/
def patchKnown (known : Pending → Option Symbol) (s : Session) (pending : List Pending) : Session :=
  pending.foldl (fun s item =>
    match known item with
    | some symbol => s.patch item symbol
    | none => s) s

theorem patchAll_eq (s : Session) (labels : SymbolTable) (pending : List Pending) :
    s.patchAll labels pending
      = (s.patchKnown (fun item => labels.lookupOr s.global item.token.text) pending,
         pending.filter fun item => (labels.lookupOr s.global item.token.text).isNone) := rfl

theorem clean_of_patchKnown {known : Pending → Option Symbol} {s : Session}
    {pending : List Pending} (h : (s.patchKnown known pending).log.hasErrors = false) :
    s.log.hasErrors = false := by
  induction pending generalizing s with
  | nil => exact h
  | cons item pending ih =>
    unfold patchKnown at h
    rw [List.foldl_cons] at h
    have hstep := ih h
    cases hknown : known item with
    | none =>
      rw [hknown] at hstep
      exact hstep
    | some symbol =>
      rw [hknown] at hstep
      obtain ⟨ms, hlog⟩ := Reading.stored_log s item.token []
        (s.image.store item.address symbol.address.toNat item.width)
      simp only [patch, hlog] at hstep
      exact (Log.hasErrors_addAll_eq_false_iff.1 hstep).1

/-- A patched item holds its symbol's address when nothing else is patched over it. -/
theorem patchKnown_of_clean {known : Pending → Option Symbol} {s : Session}
    {pending : List Pending} (h : (s.patchKnown known pending).log.hasErrors = false) :
    ∃ image, s.patchKnown known pending = { s with image := image } ∧
      Image.ChangesWithin ((pending.filter fun q => (known q).isSome).map Pending.range)
        s.image image ∧
      ∀ item symbol, known item = some symbol →
        (∀ q ∈ pending, q = item ∨ Apart item.address item.width q.address q.width) →
        (item ∈ pending ∨
          s.image.bytesFrom item.address item.width
            = littleEndian item.width symbol.address.toNat) →
        image.bytesFrom item.address item.width
          = littleEndian item.width symbol.address.toNat := by
  induction pending generalizing s with
  | nil =>
    refine ⟨s.image, rfl, Image.ChangesWithin.refl _ _, ?_⟩
    intro item symbol _ _ hstored
    exact hstored.resolve_left List.not_mem_nil
  | cons first pending ih =>
    have hstep := clean_of_patchKnown (s := match known first with
      | some symbol => s.patch first symbol
      | none => s) h
    cases hfirst : known first with
    | none =>
      simp only [patchKnown, List.foldl_cons, hfirst] at h ⊢
      obtain ⟨image, hrun, hchanges, hbytes⟩ := ih h
      refine ⟨image, hrun, ?_, ?_⟩
      · rw [List.filter_cons_of_neg (by simp [hfirst])]
        exact hchanges
      · intro item symbol hknown hapart hstored
        refine hbytes item symbol hknown (fun q hq => hapart q (List.mem_cons_of_mem _ hq)) ?_
        rcases hstored with hmem | hstored
        · rcases List.mem_cons.1 hmem with rfl | hmem
          · rw [hfirst] at hknown
            cases hknown
          · exact .inl hmem
        · exact .inr hstored
    | some known =>
      simp only [hfirst] at hstep
      obtain ⟨patched, hpatch, hset⟩ := patch_of_clean hstep
      simp only [patchKnown, List.foldl_cons, hfirst, hpatch] at h ⊢
      obtain ⟨image, hrun, hchanges, hbytes⟩ := ih h
      refine ⟨image, hrun, ?_, ?_⟩
      · rw [List.filter_cons_of_pos (by simp [hfirst])]
        exact (Image.changesWithin_of_set hset).trans hchanges
      intro item symbol hknown hapart hstored
      refine hbytes item symbol hknown (fun q hq => hapart q (List.mem_cons_of_mem _ hq)) ?_
      -- The first item is the one in question, or it leaves the bytes of that one alone.
      by_cases hsame : item = first
      · right
        subst hsame
        rw [hknown] at hfirst
        cases hfirst
        exact Image.bytesFrom_of_set hset
      · rcases hstored with hmem | hstored
        · exact .inl ((List.mem_cons.1 hmem).resolve_left hsame)
        · right
          rw [(Image.changesWithin_of_set hset).bytesFrom_eq, hstored]
          intro range hrange
          rw [List.mem_singleton.1 hrange]
          exact (hapart first (List.mem_cons_self ..)).resolve_left (Ne.symm hsame)

end Session

/-! ### The end of a file -/

namespace Reading

/-- Exporting moves a symbol between the tables that a look-up asks, so no look-up changes. -/
theorem exportLabel_of_clean {state : Reading × List Text} {t : Token}
    (h : (exportLabel state t).1.log.hasErrors = false) :
    ∃ labels global, (exportLabel state t).1 = { state.1 with labels := labels, global := global } ∧
      state.1.global.Extends global ∧
      ∀ name, labels.lookupOr global name = state.1.lookup name := by
  obtain ⟨r, done⟩ := state
  unfold exportLabel at h ⊢
  by_cases hdone : done.contains t.text = true
  · simp only [hdone, if_true]
    exact ⟨r.labels, r.global, rfl, SymbolTable.Extends.refl _, fun _ => rfl⟩
  · simp only [hdone, if_false, Bool.false_eq_true] at h ⊢
    cases hlookup : r.labels.lookup t.text with
    | none =>
      simp only [hlookup] at h
      cases (Log.hasErrors_add_eq_false_iff.1 h).2
    | some symbol =>
      simp only [hlookup] at h ⊢
      cases hadd : r.global.add symbol with
      | error e =>
        simp only [hadd] at h
        cases (Log.hasErrors_add_eq_false_iff.1 h).2
      | ok global =>
        have hname : symbol.name = t.text := by simpa using List.find?_some hlookup
        refine ⟨r.labels.remove t.text, global, rfl, SymbolTable.extends_of_add hadd, ?_⟩
        intro name
        simp only [lookup, SymbolTable.lookupOr, SymbolTable.lookup_remove,
          SymbolTable.lookup_of_add hadd, hname]
        by_cases hsame : name = t.text
        · simp [hsame, hlookup]
        · simp [hsame]

theorem exportLabels_of_clean {r : Reading} (h : r.exportLabels.log.hasErrors = false) :
    ∃ labels global, r.exportLabels = { r with labels := labels, global := global } ∧
      r.global.Extends global ∧ ∀ name, labels.lookupOr global name = r.lookup name := by
  unfold exportLabels at h ⊢
  suffices hrun : ∀ {tokens : List Token} {state : Reading × List Text},
      (tokens.foldl exportLabel state).1.log.hasErrors = false →
      ∃ labels global,
        (tokens.foldl exportLabel state).1 = { state.1 with labels := labels, global := global } ∧
        state.1.global.Extends global ∧
        ∀ name, labels.lookupOr global name = state.1.lookup name from hrun h
  clear h
  intro tokens
  induction tokens with
  | nil =>
    intro state _
    exact ⟨state.1.labels, state.1.global, rfl, SymbolTable.Extends.refl _, fun _ => rfl⟩
  | cons t tokens ih =>
    intro state h
    rw [List.foldl_cons] at h ⊢
    obtain ⟨labels, global, hrest, hgrows, hlookup⟩ := ih h
    have hfirst : (exportLabel state t).1.log.hasErrors = false := by
      rw [hrest] at h
      exact h
    obtain ⟨labels', global', hexport, hgrows', hlookup'⟩ := exportLabel_of_clean hfirst
    refine ⟨labels, global, ?_, ?_, ?_⟩
    · rw [hrest, hexport]
    · rw [hexport] at hgrows
      exact hgrows'.trans hgrows
    · intro name
      rw [hlookup name, hexport]
      exact hlookup' name

theorem closeDefinition_of_clean {r : Reading} {name : Text}
    (h : (r.closeDefinition name).log.hasErrors = false) :
    ∃ pool, r.closeDefinition name = { r with pool := pool } := by
  unfold closeDefinition at h ⊢
  generalize r.pool.abandon = abandoned at h ⊢
  obtain ⟨open?, pool⟩ := abandoned
  cases open? with
  | none => exact ⟨pool, rfl⟩
  | some m => cases (Log.hasErrors_add_eq_false_iff.1 h).2

/-- What the end of a file without errors brings about: the symbols mean what they meant, and the
items whose symbols are known are patched. -/
structure Finishes (r : Reading) (name : Text) (session : Session) (u : SourceUnit) : Prop where
  log : session.log = r.log
  cursors : session.cursors = r.cursors
  name_eq : u.name = name
  parsed : u.parsed = r.parsed
  lookup : ∀ x, u.labels.lookupOr session.global x = r.lookup x
  extends_global : r.global.Extends session.global
  pending : u.pending = r.pending.filter fun item => (r.lookup item.token.text).isNone
  changes : Image.ChangesWithin
    ((r.pending.filter fun q => (r.lookup q.token.text).isSome).map Pending.range)
    r.image session.image
  bytes : ∀ item symbol, r.lookup item.token.text = some symbol →
    (∀ q ∈ r.pending, q = item ∨ Apart item.address item.width q.address q.width) →
    item ∈ r.pending →
    session.image.bytesFrom item.address item.width = littleEndian item.width symbol.address.toNat

theorem finishes_of_clean {r : Reading} {name : Text}
    (h : (r.finish name).1.log.hasErrors = false) :
    r.Finishes name (r.finish name).1 (r.finish name).2 := by
  unfold finish at h ⊢
  simp only [Session.patchAll_eq] at h ⊢
  have hexported := Session.clean_of_patchKnown h
  obtain ⟨labels, global, hexport, hgrows, hlookup⟩ := exportLabels_of_clean hexported
  have hclosed : (r.closeDefinition name).log.hasErrors = false := by
    rw [hexport] at hexported
    exact hexported
  obtain ⟨pool, hclose⟩ := closeDefinition_of_clean hclosed
  rw [hclose] at hexport hgrows hlookup
  obtain ⟨image, hrun, hchanges, hbytes⟩ := Session.patchKnown_of_clean h
  simp only [hclose, hexport] at hrun hchanges hbytes ⊢
  have hmeaning (x : Text) : labels.lookupOr global x = r.lookup x := hlookup x
  simp only [hmeaning] at hrun hchanges hbytes ⊢
  rw [hrun]
  refine ⟨rfl, rfl, rfl, rfl, hmeaning, hgrows, rfl, hchanges, ?_⟩
  intro item symbol hknown hapart hmem
  exact hbytes item symbol hknown hapart (.inl hmem)

end Reading

/-! ### Chains of files -/

/-- Files read one after the other without an error: the moments, the units and the session that
they lead to. -/
inductive Session.Reads (config : Config) (isa : Registry) :
    Nat → Session → List (Text × Array TokenLine) → List Moment → List SourceUnit → Session → Prop
  | nil (unit : Nat) (session : Session) : Reads config isa unit session [] [] [] session
  | cons {unit : Nat} {session next last : Session} {name : Text} {lines : Array TokenLine}
      {rest : List (Text × Array TokenLine)} {moments : List Moment} {u : SourceUnit}
      {units : List SourceUnit} (s : Scope) (actions : List Action) (stop : Reading)
      (hscope : s = ⟨config, isa, unit, lines⟩)
      (hactions : actions = (Reading.start session name).fileActions s)
      (hstop : stop = s.performAll (.start session name) actions)
      (hclean : stop.log.hasErrors = false)
      (hfinishes : stop.Finishes name next u)
      (hrest : Reads config isa (unit + 1) next rest moments units last) :
      Reads config isa unit session ((name, lines) :: rest)
        (s.moments (.start session name) actions ++ moments) (u :: units) last

namespace Session

/-- Reading files without an error is such a chain. -/
theorem reads_of_readFiles {config : Config} {isa : Registry} {unit : Nat}
    {files : List (Text × Array TokenLine)} {session last : Session} {units : List SourceUnit}
    (h : session.readFiles config isa unit files = .ok (last, units))
    (hclean : last.log.hasErrors = false) :
    Reads config isa unit session files (session.moments config isa unit files) units last ∧
      session.log.hasErrors = false := by
  induction files generalizing session unit units with
  | nil =>
    cases h
    exact ⟨.nil unit _, hclean⟩
  | cons file files ih =>
    obtain ⟨name, lines⟩ := file
    rw [readFiles] at h
    by_cases hfull : session.log.exceeded = true
    · rw [if_pos hfull] at h
      cases h
      rw [Log.exceeded_of_hasErrors_eq_false hclean] at hfull
      cases hfull
    · rw [if_neg hfull] at h
      unfold readFile at h
      cases hlines : Reading.readLines ⟨config, isa, unit, lines⟩ (.start session name) with
      | error fault =>
        rw [hlines] at h
        cases h
      | ok stop =>
        have hstop := Reading.readLines_eq _ hlines
        rw [hlines] at h
        simp only [Except.map, bind, Except.bind] at h
        cases hrest : (stop.finish name).1.readFiles config isa (unit + 1) files with
        | error fault =>
          rw [hrest] at h
          cases h
        | ok result =>
          obtain ⟨last', units'⟩ := result
          rw [hrest] at h
          cases h
          obtain ⟨hreads, hfinish⟩ := ih hrest
          have hfinishes := Reading.finishes_of_clean hfinish
          have hread : stop.log.hasErrors = false := by
            rw [← hfinishes.log]
            exact hfinish
          refine ⟨?_, ?_⟩
          · simp only [moments, if_neg hfull, ← hstop]
            exact .cons _ _ stop rfl rfl hstop hread hfinishes hreads
          · rw [hstop] at hread
            exact Scope.clean_of_performAll hread

namespace Reads

variable {config : Config} {isa : Registry} {unit : Nat} {session last : Session}
  {files : List (Text × Array TokenLine)} {moments : List Moment} {units : List SourceUnit}

theorem extends_global (h : Reads config isa unit session files moments units last) :
    session.global.Extends last.global := by
  induction h with
  | nil => exact SymbolTable.Extends.refl _
  | @cons _ session _ _ name _ _ _ _ _ s actions stop _ _ hstop _ hfinishes _ ih =>
    have hread : session.global.Extends stop.global := by
      rw [hstop]
      exact Scope.extends_global_performAll (Reading.start session name) actions
    exact (hread.trans hfinishes.extends_global).trans ih

/-- The items that a file defers are those of its actions. -/
theorem pending_eq {s : Scope} {actions : List Action} {stop : Reading} {name : Text}
    (hstop : stop = s.performAll (.start session name) actions) :
    stop.pending = (s.moments (.start session name) actions).filterMap Moment.deferred? := by
  rw [hstop, Scope.pending_performAll]
  rfl

/-- Bytes change only where an action of the files stored them. -/
theorem changesWithin (h : Reads config isa unit session files moments units last) :
    Image.ChangesWithin (moments.map Moment.range) session.image last.image := by
  induction h with
  | nil => exact Image.ChangesWithin.refl _ _
  | @cons _ session next _ name _ _ _ _ _ s actions stop _ _ hstop hclean hfinishes _ ih =>
    have hread : Image.ChangesWithin ((s.moments (.start session name) actions).map Moment.range)
        session.image stop.image := by
      rw [hstop] at hclean ⊢
      exact Scope.changesWithin_performAll hclean
    have hpatched : Image.ChangesWithin
        ((s.moments (.start session name) actions).map Moment.range) stop.image next.image := by
      refine hfinishes.changes.mono ?_
      intro r hr x hx
      obtain ⟨p, hp, rfl⟩ := List.mem_map.1 hr
      rw [pending_eq hstop] at hp
      obtain ⟨m, hm, hdeferred⟩ := List.mem_filterMap.1 (List.mem_of_mem_filter hp)
      exact ⟨m.range, List.mem_map_of_mem hm, Moment.covers_of_deferred? hdeferred hx⟩
    rw [List.map_append]
    refine ((hread.trans hpatched).mono ?_).trans ih
    intro r hr x hx
    exact ⟨r, (List.mem_append.1 hr).elim id id, hx⟩

/-- What is pending at the end was deferred by an action of its file, the end of which does not know
the label either. -/
theorem exists_moment_of_pending (h : Reads config isa unit session files moments units last)
    {k : Nat} {u : SourceUnit} (hu : units[k]? = some u) {p : Pending} (hp : p ∈ u.pending) :
    ∃ m ∈ moments, m.scope.unit = unit + k ∧ m.deferred? = some p ∧
      m.fileEnd.lookup p.token.text = none := by
  induction h generalizing k with
  | nil => cases hu
  | @cons unit session _ _ name _ _ _ _ _ s actions stop hscope _ hstop _ hfinishes _ ih =>
    cases k with
    | zero =>
      cases hu
      rw [hfinishes.pending, List.mem_filter, Option.isNone_iff_eq_none, pending_eq hstop] at hp
      obtain ⟨m, hm, hdeferred⟩ := List.mem_filterMap.1 hp.1
      obtain ⟨earlier, later, hsplit⟩ := List.append_of_mem hm
      obtain ⟨rfl, -, hend⟩ := Scope.exists_of_moments_eq hsplit
      refine ⟨m, List.mem_append_left _ hm, ?_, hdeferred, ?_⟩
      · rw [hscope]
        rfl
      · rw [← hend, ← hstop]
        exact hp.2
    | succ k =>
      obtain ⟨m, hm, hunit, hdeferred, hunknown⟩ := ih hu
      exact ⟨m, List.mem_append_right _ hm, by omega, hdeferred, hunknown⟩

private theorem split_at_member {α : Type} {xs ys earlier later : List α} {a : α}
    (h : xs ++ ys = earlier ++ a :: later) :
    (∃ skipped, earlier = xs ++ skipped ∧ ys = skipped ++ a :: later) ∨
      ∃ skipped, xs = earlier ++ a :: skipped ∧ later = skipped ++ ys := by
  rcases List.append_eq_append_iff.1 h with ⟨skipped, hearlier, hys⟩ | ⟨skipped, hxs, hlater⟩
  · exact .inl ⟨skipped, hearlier, hys⟩
  · cases skipped with
    | nil => exact .inl ⟨[], by simpa using hxs.symm, by simpa using hlater.symm⟩
    | cons first skipped =>
      rw [List.cons_append] at hlater
      obtain ⟨rfl, hrest⟩ := List.cons.inj hlater
      exact .inr ⟨skipped, hxs, hrest⟩

/-- The file of a moment: how the moments divide at it, what is pending when its reading stops, and
the files after it. -/
theorem exists_file (h : Reads config isa unit session files moments units last)
    {earlier later : List Moment} {m : Moment} (hm : moments = earlier ++ m :: later) :
    ∃ name next u k fileEarlier fileLater rest files' units',
      units[k]? = some u ∧ m.scope.unit = unit + k ∧ m.fileEnd.log.hasErrors = false ∧
      m.fileEnd.Finishes name next u ∧ fileEarlier ⊆ earlier ∧
      (∀ other ∈ fileEarlier, other.scope = m.scope) ∧ fileLater = m.scope.moments m.after m.later ∧
      later = fileLater ++ rest ∧
      m.fileEnd.pending = (fileEarlier ++ m :: fileLater).filterMap Moment.deferred? ∧
      Reads config isa (unit + k + 1) next files' rest units' last := by
  induction h generalizing earlier with
  | nil => simp at hm
  | @cons unit session next _ name _ rest moments u units s actions stop hscope _ hstop hclean
      hfinishes hrest ih =>
    rcases split_at_member hm with ⟨skipped, hearlier, hrests⟩ | ⟨skipped, hfile, hlater⟩
    · obtain ⟨name', next', u', k, fileEarlier, fileLater, rest', files', units', hu, hunit, hend,
        hfinishes', hsub, hscopes, hfileLater, hsplit, hpending, hreads⟩ := ih hrests
      refine ⟨name', next', u', k + 1, fileEarlier, fileLater, rest', files', units', hu, by omega,
        hend, hfinishes', ?_, hscopes, hfileLater, hsplit, hpending, ?_⟩
      · intro x hx
        rw [hearlier]
        exact List.mem_append_right _ (hsub hx)
      · rw [show unit + (k + 1) + 1 = unit + 1 + k + 1 by omega]
        exact hreads
    · obtain ⟨rfl, hfileLater, hend⟩ := Scope.exists_of_moments_eq hfile
      have hstop' : stop = m.fileEnd := hstop.trans hend
      have hpending := pending_eq hstop
      rw [hfile] at hpending
      rw [hstop'] at hclean hfinishes hpending
      refine ⟨name, next, u, 0, earlier, skipped, moments, rest, units, rfl, ?_, hclean,
        hfinishes, List.Subset.refl _, ?_, hfileLater, hlater, hpending, hrest⟩
      · rw [hscope]
        rfl
      · intro other hother
        have hmem : other ∈ m.scope.moments (.start session name) actions := by
          rw [hfile]
          exact List.mem_append_left _ hother
        exact Scope.scope_of_mem_moments hmem

end Reads

/-! ### The end of all files -/

theorem clean_of_recordMissing {s : Session} {missing : List Pending}
    (h : (missing.foldl (fun s item =>
      s.record ((Problem.undefinedSymbol item.token.text).about item.token [])) s).log.hasErrors
        = false) : missing = [] := by
  suffices hrun : ∀ {missing : List Pending} {s : Session},
      (missing.foldl (fun s item => s.record
        ((Problem.undefinedSymbol item.token.text).about item.token [])) s).log.hasErrors = false →
      s.log.hasErrors = false by
    cases missing with
    | nil => rfl
    | cons item missing =>
      rw [List.foldl_cons] at h
      cases (Log.hasErrors_add_eq_false_iff.1 (hrun h)).2
  clear h
  intro missing
  induction missing with
  | nil => exact id
  | cons item missing ih =>
    intro s h
    exact (Log.hasErrors_add_eq_false_iff.1 (ih h)).1

/-- Patches the pending items of files in turn; `missing` collects those whose labels are unknown. -/
def patchEach (s : Session) (missing : List Pending) (units : List SourceUnit) :
    Session × List Pending :=
  units.foldl (fun (s, missing) u =>
    let (s, left) := s.patchAll u.labels u.pending
    (s, missing ++ left)) (s, missing)

/-- The label of every pending item is known, and the item holds its address unless a patch of its
file or of a later one goes over it. -/
def ItemsPatched (global : SymbolTable) (units : List SourceUnit) (image : Image MachineStatement) :
    Prop :=
  ∀ (earlier : List SourceUnit) (u : SourceUnit) (later : List SourceUnit),
    units = earlier ++ u :: later → ∀ item ∈ u.pending,
      ∃ symbol : Symbol, u.labels.lookupOr global item.token.text = some symbol ∧
        ((∀ q ∈ u.pending, q = item ∨ Apart item.address item.width q.address q.width) →
         (∀ u' ∈ later, ∀ q ∈ u'.pending, Apart item.address item.width q.address q.width) →
          image.bytesFrom item.address item.width
            = littleEndian item.width symbol.address.toNat)

/-- What patching the files' items in turn brings about when none is left over. -/
theorem patchEach_of_clean {s last : Session} {missing : List Pending} {units : List SourceUnit}
    (h : s.patchEach missing units = (last, [])) (hclean : last.log.hasErrors = false) :
    missing = [] ∧ s.log.hasErrors = false ∧ ∃ image, last = { s with image := image } ∧
      Image.ChangesWithin (units.flatMap fun u => u.pending.map Pending.range) s.image image ∧
      ItemsPatched s.global units image := by
  induction units generalizing s missing with
  | nil =>
    cases h
    refine ⟨rfl, hclean, _, rfl, Image.ChangesWithin.refl _ _, ?_⟩
    intro earlier u later hsplit
    simp at hsplit
  | cons first units ih =>
    unfold patchEach at h
    rw [List.foldl_cons] at h
    simp only [patchAll_eq] at h
    obtain ⟨hmissing, hpatched, image, hlast, hchanges, hbytes⟩ := ih h
    obtain ⟨hmissing, hleft⟩ := List.append_eq_nil_iff.1 hmissing
    obtain ⟨patched, hrun, hfirst, hfirstBytes⟩ := patchKnown_of_clean hpatched
    rw [hrun] at hlast hchanges hbytes
    refine ⟨hmissing, clean_of_patchKnown hpatched, image, hlast, ?_, ?_⟩
    · rw [List.flatMap_cons]
      refine (hfirst.mono ?_).trans hchanges
      intro r hr x hx
      obtain ⟨q, hq, rfl⟩ := List.mem_map.1 hr
      exact ⟨q.range, List.mem_map_of_mem (List.mem_of_mem_filter hq), hx⟩
    · intro earlier u later hsplit item hitem
      cases earlier with
      | cons e earlier =>
        obtain ⟨-, hrest⟩ := List.cons.inj hsplit
        exact hbytes earlier u later hrest item hitem
      | nil =>
        obtain ⟨rfl, rfl⟩ := List.cons.inj hsplit
        have hknown : (first.labels.lookupOr s.global item.token.text).isNone ≠ true :=
          List.filter_eq_nil_iff.1 hleft item hitem
        obtain ⟨symbol, hsymbol⟩ := Option.ne_none_iff_exists'.1
          (fun hnone => hknown (Option.isNone_iff_eq_none.2 hnone))
        refine ⟨symbol, hsymbol, ?_⟩
        intro hown hlater
        rw [hchanges.bytesFrom_eq]
        · exact hfirstBytes item symbol hsymbol hown (.inl hitem)
        · intro r hr
          obtain ⟨u', hu', hr⟩ := List.mem_flatMap.1 hr
          obtain ⟨q, hq, rfl⟩ := List.mem_map.1 hr
          exact hlater u' hu' q hq

/-- The end of all files without an error: every pending item is known and patched. -/
theorem patchUnits_of_clean {s : Session} {units : List SourceUnit}
    (h : (s.patchUnits units).log.hasErrors = false) :
    s.log.hasErrors = false ∧ ∃ image, s.patchUnits units = { s with image := image } ∧
      Image.ChangesWithin (units.flatMap fun u => u.pending.map Pending.range) s.image image ∧
      ItemsPatched s.global units image := by
  have hunfold : s.patchUnits units = (s.patchEach [] units).2.foldl (fun s item =>
      s.record ((Problem.undefinedSymbol item.token.text).about item.token []))
        (s.patchEach [] units).1 := rfl
  rw [hunfold] at h ⊢
  have hmissing := clean_of_recordMissing h
  rw [hmissing] at h ⊢
  obtain ⟨-, hs, image, hlast, hchanges, hbytes⟩ :=
    patchEach_of_clean (Prod.ext rfl hmissing) h
  exact ⟨hs, image, hlast, hchanges, hbytes⟩

end Session

end Rv32Assembler
