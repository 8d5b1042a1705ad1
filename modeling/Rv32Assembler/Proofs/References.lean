import Rv32Assembler.Isa.Rv32im
import Rv32Assembler.Proofs.Run
/-!
# References in data

What a data item holds that names a label. A label that is not known when its item is reached is
filled in later, at the end of its file or of all files; the tables asked then already say what they
say at the end, so such an item always holds the final address (`bytesFrom_of_deferred`).
-/

namespace Rv32Assembler

/-- The low four bytes of a wider zero give way to an address, and the address is zero extended. -/
theorem Image.bytesFrom_patched {σ : Type} {before after : Image σ} {a target : Address}
    {width : Nat} (hwidth : width ≤ 8) (hbefore : before.bytesFrom a width = littleEndian width 0)
    (hlow : after.bytesFrom a (min width 4) = littleEndian (min width 4) target.toNat)
    (hhigh : ∀ x, Covers a width x → ¬ Covers a (min width 4) x → after.byte x = before.byte x) :
    after.bytesFrom a width = littleEndian width target.toNat := by
  by_cases hsmall : width ≤ 4
  · rwa [Nat.min_eq_left hsmall] at hlow
  · obtain ⟨more, rfl⟩ : ∃ more, width = 4 + more := ⟨width - 4, by omega⟩
    rw [Nat.min_eq_right (by omega)] at hlow hhigh
    have hbound : target.toNat < 2 ^ 32 := target.isLt
    have hzero : ((target.toNat : Int) >>> (8 * 4 : Nat)) = 0 := by
      rw [Int.shiftRight_eq_div_pow]
      omega
    rw [bytesFrom_add, littleEndian_add] at hbefore
    obtain ⟨-, hrest⟩ := List.append_inj hbefore (by simp [bytesFrom])
    rw [bytesFrom_add, littleEndian_add, hlow, hzero]
    congr 1
    rw [show (0 : Int) >>> (8 * 4 : Nat) = 0 by decide] at hrest
    rw [← hrest]
    apply bytesFrom_congr
    intro x hx
    apply hhigh <;> simp only [Covers] at hx ⊢ <;> bv_omega

theorem eq_take_append_cons_drop {α : Type} {xs : List α} {i : Nat} {x : α}
    (h : xs[i]? = some x) : xs = xs.take i ++ x :: xs.drop (i + 1) := by
  obtain ⟨hlt, rfl⟩ := List.getElem?_eq_some_iff.1 h
  rw [List.getElem_cons_drop, List.take_append_drop]

namespace Moment

/-- The data item that the action leaves pending, if the action `m` comes before it is filled in: it
waits for the end of the file of `m`, or for the end of all files. -/
def pendingAt? (other m : Moment) : Option Pending :=
  other.deferred?.filter fun p =>
    other.scope.unit = m.scope.unit ∨ other.fileEnd.lookup p.token.text = none

/-- Nothing is stored over the bytes of the action afterwards: later actions store elsewhere, and so
does what fills in an item of an earlier one. What the action itself is stored over does not count. -/
structure Lasts (m : Moment) (earlier later : List Moment) : Prop where
  later : ∀ other ∈ later, Apart m.range.1 m.range.2 other.range.1 other.range.2
  filled : ∀ other ∈ earlier, ∀ p ∈ other.pendingAt? m,
    Apart m.range.1 m.range.2 p.address p.width

instance (m : Moment) (earlier later : List Moment) : Decidable (m.Lasts earlier later) :=
  decidable_of_iff
    ((∀ other ∈ later, Apart m.range.1 m.range.2 other.range.1 other.range.2) ∧
      ∀ other ∈ earlier, ∀ p ∈ other.pendingAt? m, Apart m.range.1 m.range.2 p.address p.width)
    ⟨fun h => ⟨h.1, h.2⟩, fun h => ⟨h.1, h.2⟩⟩

theorem pendingAt?_eq_some_iff {other m : Moment} {p : Pending} :
    other.pendingAt? m = some p ↔ other.deferred? = some p ∧
      (other.scope.unit = m.scope.unit ∨ other.fileEnd.lookup p.token.text = none) := by
  simp [pendingAt?, Option.filter_eq_some_iff]

theorem range_of_reference {m : Moment} {note : Text} {t : Token} {width : Nat}
    (haction : m.action = .reference note t width) : m.range = (m.before.dataCursor, width) := by
  rw [range, haction]
  rfl

theorem width_le_of_reference {m : Moment} {note : Text} {t : Token} {width : Nat}
    (haction : m.action = .reference note t width) (hclean : m.after.log.hasErrors = false) :
    width ≤ 8 := by
  rw [after, haction] at hclean
  exact Action.width_le_of_reference hclean

/-- A reference holds the address of its label when it has been stored, or zero if the label was not
found. -/
theorem bytesFrom_after_of_reference {m : Moment} {note : Text} {t : Token} {width : Nat}
    (haction : m.action = .reference note t width) (hclean : m.after.log.hasErrors = false) :
    m.after.image.bytesFrom m.range.1 m.range.2
      = littleEndian width
          ((m.before.lookup t.text).elim 0 fun symbol => symbol.address.toNat) := by
  simp only [after, range, haction] at hclean ⊢
  exact (Action.bytesFrom_reference hclean).1

theorem bytesFrom_fileEnd {m : Moment} {earlier : List Moment}
    (hclean : m.fileEnd.log.hasErrors = false)
    (hlasts : m.Lasts earlier (m.scope.moments m.after m.later)) :
    m.fileEnd.image.bytesFrom m.range.1 m.range.2
      = m.after.image.bytesFrom m.range.1 m.range.2 := by
  refine (Scope.changesWithin_performAll hclean).bytesFrom_eq ?_
  intro r hr
  obtain ⟨other, hother, rfl⟩ := List.mem_map.1 hr
  exact hlasts.later other hother

theorem eq_or_apart_of_pendingAt? {m other : Moment} {earlier later : List Moment} {q : Pending}
    (hlasts : m.Lasts earlier later) (hother : other ∈ earlier ++ m :: later)
    (hfrom : other.pendingAt? m = some q) :
    other = m ∨ Apart m.range.1 m.range.2 q.address q.width := by
  rw [List.mem_append, List.mem_cons] at hother
  rcases hother with hearlier | rfl | hlater
  · exact .inr (hlasts.filled other hearlier q hfrom)
  · exact .inl rfl
  · right
    intro x hx hcovers
    have hcovered := covers_of_deferred? (pendingAt?_eq_some_iff.1 hfrom).1 hcovers
    exact hlasts.later other hlater x hx hcovered

end Moment

/-! ### The file of a reference -/

namespace Run

variable {config : Config} {isa : Registry} {files : List SourceFile} {program : Program}

/-- The file of an action that nothing is stored over. -/
structure FileOf (run : Run config isa files program) (m : Moment) (next : Session)
    (u : SourceUnit) : Prop where
  unit : run.units[m.scope.unit]? = some u
  clean : m.after.log.hasErrors = false
  finishes : m.fileEnd.Finishes u.name next u
  later : m.scope.moments m.after m.later ⊆ moments config isa files
  /-- What the action stored is there when the reading of its file stops. -/
  stored : m.fileEnd.image.bytesFrom m.range.1 m.range.2
    = m.after.image.bytesFrom m.range.1 m.range.2
  waits : ∀ p, m.deferred? = some p → p ∈ m.fileEnd.pending
  /-- Of the items that wait in the file, each is the one in question or lies apart from it. -/
  pending : ∀ q ∈ m.fileEnd.pending,
    m.deferred? = some q ∨ Apart m.range.1 m.range.2 q.address q.width
  extends_global : next.global.Extends run.session.global
  /-- The files that follow leave the bytes alone. -/
  kept : run.session.image.bytesFrom m.range.1 m.range.2
    = next.image.bytesFrom m.range.1 m.range.2

theorem exists_fileOf (run : Run config isa files program) {earlier later : List Moment}
    {m : Moment} (hm : moments config isa files = earlier ++ m :: later)
    (hlasts : m.Lasts earlier later) : ∃ next u, run.FileOf m next u := by
  obtain ⟨log, tokenized, -, hreads⟩ := run.reads
  obtain ⟨name, next, u, k, fileEarlier, fileLater, rest, files', units', hu, hunit, hclean,
    hfinishes, hsub, hscopes, hfileLater, hlater, hpending, hrest⟩ := hreads.exists_file hm
  have hfile : m.Lasts fileEarlier fileLater := by
    constructor
    · intro other hother
      apply hlasts.later other
      rw [hlater]
      exact List.mem_append_left _ hother
    · exact fun other hother => hlasts.filled other (hsub hother)
  refine ⟨next, u, ?_, Scope.clean_of_performAll hclean, hfinishes.name_eq ▸ hfinishes, ?_, ?_, ?_,
    ?_, hrest.extends_global, ?_⟩
  · rw [hunit, Nat.zero_add]
    exact hu
  · rw [← hfileLater, hm, hlater]
    intro other hother
    simp [hother]
  · exact Moment.bytesFrom_fileEnd hclean (hfileLater ▸ hfile)
  · intro p hp
    rw [hpending]
    exact List.mem_filterMap.2 ⟨m, by simp, hp⟩
  · intro q hq
    rw [hpending] at hq
    obtain ⟨other, hother, hfrom⟩ := List.mem_filterMap.1 hq
    have hunit : other.scope.unit = m.scope.unit := by
      rcases List.mem_append.1 hother with hother | hother
      · rw [hscopes other hother]
      · rcases List.mem_cons.1 hother with rfl | hother
        · rfl
        · rw [hfileLater] at hother
          rw [Scope.scope_of_mem_moments hother]
    have hpends := Moment.pendingAt?_eq_some_iff.2 ⟨hfrom, .inl hunit⟩
    refine (Moment.eq_or_apart_of_pendingAt? hfile hother hpends).imp ?_ id
    rintro rfl
    exact hfrom
  · refine hrest.changesWithin.bytesFrom_eq ?_
    intro r hr
    obtain ⟨other, hother, rfl⟩ := List.mem_map.1 hr
    exact hlasts.later other (by rw [hlater]; simp [hother])

/-- What the end of the file knows of a name, the end of the run knows. -/
theorem FileOf.lookupOr {run : Run config isa files program} {m : Moment} {next : Session}
    {u : SourceUnit} (h : run.FileOf m next u) {name : Text} {symbol : Symbol}
    (hlookup : m.fileEnd.lookup name = some symbol) :
    u.labels.lookupOr run.session.global name = some symbol := by
  refine SymbolTable.lookupOr_of_extends h.extends_global ?_
  rw [h.finishes.lookup, hlookup]

theorem FileOf.locals {run : Run config isa files program} {m : Moment} {next : Session}
    {u : SourceUnit} (h : run.FileOf m next u) :
    program.locals[m.scope.unit]? = some (u.name, u.labels) := by
  rw [run.locals, List.getElem?_map, h.unit]
  rfl

/-- An item that waits for the end of all files is the one in question, in the file of that one, or
lies apart from it. -/
theorem eq_or_apart_of_left (run : Run config isa files program) {earlier later : List Moment}
    {m : Moment} (hm : moments config isa files = earlier ++ m :: later)
    (hlasts : m.Lasts earlier later) {k : Nat} {u : SourceUnit}
    (hu : run.units[k]? = some u) {q : Pending} (hq : q ∈ u.pending) :
    (k = m.scope.unit ∧ m.deferred? = some q) ∨ Apart m.range.1 m.range.2 q.address q.width := by
  obtain ⟨log, tokenized, -, hreads⟩ := run.reads
  obtain ⟨other, hother, hunit, hfrom, hunknown⟩ := hreads.exists_moment_of_pending hu hq
  rw [hm] at hother
  have hpends : other.pendingAt? m = some q :=
    Moment.pendingAt?_eq_some_iff.2 ⟨hfrom, .inr hunknown⟩
  refine (Moment.eq_or_apart_of_pendingAt? hlasts hother hpends).imp ?_ id
  rintro rfl
  exact ⟨by omega, hfrom⟩

theorem bytesFrom_image (run : Run config isa files program) {a : Address} {width : Nat}
    (htext : ∀ s ∈ program.statements, Apart a width s.address 4) :
    program.image.bytesFrom a width = run.patched.bytesFrom a width := by
  refine run.places.bytesFrom_eq ?_
  intro r hr
  obtain ⟨s, hs, rfl⟩ := List.mem_map.1 hr
  exact htext s hs

/-! ### Deferred references -/

/-- A reference to an unknown label, at the end of the files: it holds the address that its label
has, or it holds zero and still waits. -/
theorem FileOf.deferred {run : Run config isa files program} {m : Moment} {next : Session}
    {u : SourceUnit} (h : run.FileOf m next u) {t : Token} {width : Nat}
    (hrange : m.range = (m.before.dataCursor, width)) (hwidth : width ≤ 8)
    (hdeferred : m.deferred? = some ⟨m.before.dataCursor, min width 4, t⟩)
    (hzero : m.after.image.bytesFrom m.range.1 m.range.2 = littleEndian width 0) :
    (∃ symbol, u.labels.lookupOr run.session.global t.text = some symbol ∧
      ⟨m.before.dataCursor, min width 4, t⟩ ∉ u.pending ∧
      run.session.image.bytesFrom m.before.dataCursor width
        = littleEndian width symbol.address.toNat) ∨
    (⟨m.before.dataCursor, min width 4, t⟩ ∈ u.pending ∧
      run.session.image.bytesFrom m.before.dataCursor width = littleEndian width 0) := by
  have hitem := h.waits _ hdeferred
  have hitems {q : Pending} (hq : q ∈ m.fileEnd.pending) :
      q = ⟨m.before.dataCursor, min width 4, t⟩ ∨
        Apart m.before.dataCursor width q.address q.width := by
    have hcases := h.pending q hq
    rw [hdeferred, hrange] at hcases
    exact hcases.imp (fun hown => (Option.some.inj hown).symm) id
  have hend := h.stored.trans hzero
  have hkept := h.kept
  rw [hrange] at hend hkept
  cases hlookup : m.fileEnd.lookup t.text with
  | some symbol =>
    left
    refine ⟨symbol, h.lookupOr hlookup, ?_, ?_⟩
    · rw [h.finishes.pending]
      simp [hlookup]
    · have hlow : next.image.bytesFrom m.before.dataCursor (min width 4)
          = littleEndian (min width 4) symbol.address.toNat := by
        apply h.finishes.bytes ⟨m.before.dataCursor, min width 4, t⟩ symbol hlookup _ hitem
        intro q hq
        exact (hitems hq).imp id fun hfar => hfar.mono (Nat.min_le_left _ _)
      rw [hkept]
      refine Image.bytesFrom_patched hwidth hend hlow ?_
      intro x hx hhigh
      apply h.finishes.changes.byte
      intro r hr hcovers
      obtain ⟨q, hq, rfl⟩ := List.mem_map.1 hr
      rcases hitems (List.mem_of_mem_filter hq) with rfl | hfar
      · exact hhigh hcovers
      · exact hfar x hx hcovers
  | none =>
    right
    refine ⟨?_, ?_⟩
    · rw [h.finishes.pending]
      exact List.mem_filter.2 ⟨hitem, by simp [hlookup]⟩
    · rw [hkept, h.finishes.changes.bytesFrom_eq, hend]
      intro r hr
      obtain ⟨q, hq, rfl⟩ := List.mem_map.1 hr
      obtain ⟨hq, hknown⟩ := List.mem_filter.1 hq
      rcases hitems hq with rfl | hfar
      · simp [hlookup] at hknown
      · exact hfar

end Run

/-- A reference to a label that was not known yet holds the low bytes of the address that the label
has at the end, zero extended where the item is wider, if nothing is stored over it afterwards. -/
theorem bytesFrom_of_deferred {config : Config} {isa : Registry} {files : List SourceFile}
    {program : Program} (h : assemble config isa files = .ok (.ok program))
    {earlier later : List Moment} {m : Moment}
    (hm : moments config isa files = earlier ++ m :: later) {note : Text} {t : Token} {width : Nat}
    (haction : m.action = .reference note t width) (hunknown : m.before.lookup t.text = none)
    (hdata : m.Lasts earlier later)
    (htext : ∀ s ∈ program.statements, Apart m.before.dataCursor width s.address 4) :
    ∃ name labels symbol, program.locals[m.scope.unit]? = some (name, labels) ∧
      labels.lookupOr program.global t.text = some symbol ∧
      program.image.bytesFrom m.before.dataCursor width
        = littleEndian width symbol.address.toNat := by
  obtain ⟨run⟩ := nonempty_run h
  obtain ⟨next, u, hfile⟩ := run.exists_fileOf hm hdata
  have hu := hfile.unit
  have hrange := Moment.range_of_reference haction
  have hwidth := Moment.width_le_of_reference haction hfile.clean
  have hdeferred : m.deferred? = some ⟨m.before.dataCursor, min width 4, t⟩ := by
    simp [Moment.deferred?, haction, Action.deferred?, hunknown]
  have hzero : m.after.image.bytesFrom m.range.1 m.range.2 = littleEndian width 0 := by
    have hstored := Moment.bytesFrom_after_of_reference haction hfile.clean
    rwa [hunknown] at hstored
  have hleft {k : Nat} {u' : SourceUnit} (hu' : run.units[k]? = some u') {q : Pending}
      (hq : q ∈ u'.pending) :
      (k = m.scope.unit ∧ q = ⟨m.before.dataCursor, min width 4, t⟩) ∨
        Apart m.before.dataCursor width q.address q.width := by
    have hcases := run.eq_or_apart_of_left hm hdata hu' hq
    rw [hrange, hdeferred] at hcases
    exact hcases.imp (fun hown => ⟨hown.1, (Option.some.inj hown.2).symm⟩) id
  have hpatch : ∀ r ∈ run.units.flatMap fun u => u.pending.map Pending.range,
      (⟨m.before.dataCursor, min width 4, t⟩ ∈ u.pending ∧ r = (m.before.dataCursor, min width 4)) ∨
        Apart m.before.dataCursor width r.1 r.2 := by
    intro r hr
    obtain ⟨u', hu', hr⟩ := List.mem_flatMap.1 hr
    obtain ⟨q, hq, rfl⟩ := List.mem_map.1 hr
    obtain ⟨k, hk⟩ := List.mem_iff_getElem?.1 hu'
    refine (hleft hk hq).imp_left ?_
    rintro ⟨rfl, rfl⟩
    obtain rfl : u = u' := Option.some_inj.1 (hu.symm.trans hk)
    exact ⟨hq, rfl⟩
  rw [run.bytesFrom_image htext, run.global]
  rcases hfile.deferred hrange hwidth hdeferred hzero with
    ⟨symbol, hsymbol, hpatched, hbytes⟩ | ⟨hwaiting, hzero⟩
  · refine ⟨u.name, u.labels, symbol, hfile.locals, hsymbol, ?_⟩
    rw [run.patches.bytesFrom_eq, hbytes]
    exact fun r hr => (hpatch r hr).resolve_left fun hown => hpatched hown.1
  · obtain ⟨symbol, hsymbol, hlow⟩ :=
      run.patchedBytes _ _ _ (eq_take_append_cons_drop hu) _ hwaiting
    refine ⟨u.name, u.labels, symbol, hfile.locals, hsymbol, ?_⟩
    refine Image.bytesFrom_patched hwidth hzero (hlow ?_ ?_) ?_
    · intro q hq
      exact (hleft hu hq).imp (fun hown => hown.2) fun hfar => hfar.mono (Nat.min_le_left _ _)
    · intro u' hu' q hq
      obtain ⟨i, hi⟩ := List.mem_iff_getElem?.1 hu'
      rw [List.getElem?_drop] at hi
      rcases hleft hi hq with ⟨hunit, -⟩ | hfar
      · omega
      · exact hfar.mono (Nat.min_le_left _ _)
    · intro x hx hhigh
      apply run.patches.byte
      intro r hr hcovers
      rcases hpatch r hr with ⟨-, rfl⟩ | hfar
      · exact hhigh hcovers
      · exact hfar x hx hcovers

/-- A doubleword that is stored over an older word and names the label behind it. -/
def forwardSource : List SourceFile :=
  [{ name := "a.s",
     lines :=
       [⟨".data", "a.s", 1⟩, ⟨".word 5", "a.s", 2⟩, ⟨".data 0x10010000", "a.s", 3⟩,
        ⟨".dword x", "a.s", 4⟩, ⟨"x: .word 7", "a.s", 5⟩, ⟨".text", "a.s", 6⟩,
        ⟨"main: la t0, x", "a.s", 7⟩] }]

theorem bytesFrom_of_forwardSource :
    ∃ program labels, assemble {} Rv32im.registry forwardSource = .ok (.ok program) ∧
      program.locals[0]? = some (Text.ofString "a.s", labels) ∧
      labels.lookupOr program.global "x" = some ⟨"x", 0x10010008, true⟩ ∧
      program.image.bytesFrom 0x10010000 8 = littleEndian 8 0x10010008 := by
  have hprogram : (programInOrder? {} Rv32im.registry forwardSource).map (fun p : Program =>
      (p.locals[0]?.map fun l => (l.1, l.2.lookupOr p.global "x"),
        decide (∀ s ∈ p.statements, Apart 0x10010000 8 s.address 4)))
      = some (some (Text.ofString "a.s", some ⟨"x", 0x10010008, true⟩), true) := by
    decide +kernel
  have hmoment : (moments {} Rv32im.registry forwardSource)[7]?.map (fun m : Moment =>
      (m.action, m.before.dataCursor, m.scope.unit, m.before.lookup "x",
        decide (m.Lasts ((moments {} Rv32im.registry forwardSource).take 7)
          ((moments {} Rv32im.registry forwardSource).drop 8))))
      = some (.reference [] ⟨.identifier, "x", "a.s", 4, 8, 7, 0, 0⟩ 8, 0x10010000, 0, none,
          true) := by
    decide +kernel
  obtain ⟨program, hfound, hfacts⟩ := Option.map_eq_some_iff.1 hprogram
  obtain ⟨m, hm, hfacts'⟩ := Option.map_eq_some_iff.1 hmoment
  simp only [Prod.mk.injEq, decide_eq_true_eq] at hfacts hfacts'
  obtain ⟨haction, hcursor, hunit, hunknown, hlasts⟩ := hfacts'
  have hassemble := assemble_of_programInOrder? hfound
  obtain ⟨name, labels, symbol, hlocals, hsymbol, hbytes⟩ :=
    bytesFrom_of_deferred hassemble (eq_take_append_cons_drop hm) haction hunknown hlasts
      (hcursor ▸ hfacts.2)
  rw [hunit] at hlocals
  rw [hcursor] at hbytes
  have hnames := hfacts.1
  rw [hlocals, Option.map_some, Option.some.injEq, Prod.mk.injEq] at hnames
  obtain ⟨rfl, hlookup⟩ := hnames
  obtain rfl : symbol = _ := Option.some.inj (hsymbol.symm.trans hlookup)
  exact ⟨program, labels, hassemble, hlocals, hlookup, hbytes⟩

end Rv32Assembler
