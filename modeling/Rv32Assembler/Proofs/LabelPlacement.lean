import Rv32Assembler.Isa.Rv32im
import Rv32Assembler.Proofs.Cursors
import Rv32Assembler.Proofs.Displacement
/-!
# Where labels end up

A label is put at the cursor of its segment and goes along with it until bytes are reserved there:
an alignment of the segment moves both, and an alignment of another segment finds its own cursor, in
another range, so it moves neither. From the first reservation on the label stays behind
(`address_of_label`). That needs the cursor to go up. A reservation whose size is more than the rest
of the address space takes the cursor around, and if it stops at the label again, the next alignment
moves the label away from what is stored at it.
-/

namespace Rv32Assembler

def Layout.segmentRange (l : Layout) (s : Segment) : SegmentRange :=
  match s.isData, s.isKernel with
  | false, false => l.textRange
  | false, true => l.kernelTextRange
  | true, false => l.dataRange
  | true, true => l.kernelDataRange

/-- No address belongs to two segments. -/
def Layout.IsDisjoint (l : Layout) : Prop :=
  ∀ s s' a, s ≠ s' → (l.segmentRange s).contains a = true → (l.segmentRange s').contains a = false

/-- The state in which bytes of a segment are reserved for the first time, and the actions from
there on. -/
def Scope.firstReserved (s : Scope) (segment : Segment) (r : Reading) :
    List Action → Reading × List Action
  | [] => (r, [])
  | a :: as =>
    if 0 < a.reservedIn s r (.segment segment) then (r, a :: as)
    else s.firstReserved segment (a.perform s r) as

namespace Moment

/-- The action leaves no error and sets no cursor outright, and it finds every cursor in the range
of its segment. -/
structure Orderly (l : Layout) (m : Moment) : Prop where
  clean : m.after.log.hasErrors = false
  plain : m.action.isRelocation = false
  inside : ∀ s, (l.segmentRange s).contains (m.before.cursors.get s) = true

/-- The cursor of a segment goes up past what the action reserves there. -/
def Ascends (segment : Segment) (m : Moment) : Prop :=
  (m.before.cursors.get segment).toNat + m.action.reservedIn m.scope m.before (.segment segment)
    ≤ (m.after.cursors.get segment).toNat

structure Rising (l : Layout) (v : Vocabulary) (segment : Segment) (m : Moment) : Prop
    extends m.Orderly l where
  regular : m.action.Regular v
  ascends : m.Ascends segment

variable {l : Layout} {m : Moment} {segment : Segment} {name : Text} {symbol : Symbol}

/-- A label at the cursor of its segment stays there while nothing is reserved in the segment. -/
theorem Orderly.lookup_after (h : m.Orderly l) (hdisjoint : l.IsDisjoint)
    (hknown : m.before.labels.lookup name = some symbol)
    (hhere : symbol.address = m.before.cursors.get segment)
    (hnothing : m.action.reservedIn m.scope m.before (.segment segment) = 0) :
    ∃ next, m.after.labels.lookup name = some next ∧
      next.address = m.after.cursors.get segment := by
  have hkept (hkind : ∀ other multiple, m.action ≠ .align other multiple) :
      m.after.labels.lookup name = some symbol := by
    rcases (Action.effect_perform m.scope m.before m.action).lookup_labels hknown with
      hsame | ⟨other, multiple, haction, -⟩
    · exact hsame
    · exact absurd haction (hkind other multiple)
  cases Action.moves_perform h.clean h.plain with
  | still _ hkind hnext =>
    refine ⟨symbol, hkept fun other multiple haction => ?_,
      hhere.trans (hnext (.segment segment)).symm⟩
    rw [haction] at hkind
    cases hkind
  | reserve region n hsome hnext =>
    refine ⟨symbol, hkept fun other multiple haction => ?_, ?_⟩
    · rw [haction] at hsome
      cases hsome
    · have hcursor := hnext (.segment segment)
      rw [hhere]
      by_cases hregion : region = .segment segment
      · rw [Action.reservedIn, hsome] at hnothing
        obtain rfl : n = 0 := by simpa [hregion] using hnothing
        rw [if_pos hregion.symm, BitVec.add_zero] at hcursor
        exact hcursor.symm
      · rw [if_neg (Ne.symm hregion)] at hcursor
        exact hcursor.symm
  | align other multiple haction _ =>
    rw [after, haction, Action.perform]
    rcases m.before.align_cases other multiple with hsame | ⟨-, hmoved⟩
    · rw [hsame]
      exact ⟨symbol, hknown, hhere⟩
    · rw [hmoved]
      have hcursor := m.before.cursors.next_set other
        (alignUp (m.before.cursors.get other) multiple) (.segment segment)
      rw [SymbolTable.lookup_move, hknown, Option.map_some]
      refine ⟨_, rfl, ?_⟩
      by_cases hother : segment = other
      · subst hother
        rw [if_pos rfl] at hcursor
        rw [if_pos hhere]
        exact hcursor.symm
      · rw [if_neg fun heq => hother (Region.segment.inj heq)] at hcursor
        -- The other cursor is in another range, so the label is not there.
        have hapart : symbol.address ≠ m.before.cursors.get other := by
          intro heq
          have hfalse := hdisjoint segment other _ hother (h.inside segment)
          rw [← hhere, heq, h.inside other] at hfalse
          cases hfalse
        rw [if_neg hapart, hhere]
        exact hcursor.symm

/-- A label behind the cursor of its segment is not displaced. -/
theorem Orderly.not_displaces (h : m.Orderly l) (hdisjoint : l.IsDisjoint)
    (hknown : m.before.labels.lookup name = some symbol)
    (hinside : (l.segmentRange segment).contains symbol.address = true)
    (hbehind : symbol.address ≠ m.before.cursors.get segment) : ¬ m.Displaces name := by
  intro hdisplaces
  have hlookup : m.before.lookup name = some symbol := by
    rw [Reading.lookup, SymbolTable.lookupOr, hknown]
    rfl
  rcases cases_of_displaces hdisplaces hlookup with
    ⟨other, multiple, -, -, hcursor, -⟩ | ⟨note, t, -, -, hnone, -⟩
  · by_cases hother : segment = other
    · exact hbehind (hother ▸ hcursor.symm)
    · have hfalse := hdisjoint segment other _ hother hinside
      rw [← hcursor, h.inside other] at hfalse
      cases hfalse
  · rw [hknown] at hnone
    cases hnone

/-- An action that reserves bytes displaces no label of the file. -/
theorem not_displaces_of_reserved
    (hreserved : 0 < m.action.reservedIn m.scope m.before (.segment segment))
    (hknown : m.before.labels.lookup name = some symbol) : ¬ m.Displaces name := by
  intro hdisplaces
  have hlookup : m.before.lookup name = some symbol := by
    rw [Reading.lookup, SymbolTable.lookupOr, hknown]
    rfl
  rcases cases_of_displaces hdisplaces hlookup with
    ⟨other, multiple, haction, -⟩ | ⟨note, t, haction, -⟩
  all_goals
    rw [haction] at hreserved
    exact absurd hreserved (Nat.lt_irrefl 0)

end Moment

namespace Scope

variable {s : Scope} {segment : Segment} {r start : Reading} {actions rest : List Action}
  {l : Layout} {name : Text} {symbol : Symbol}

theorem performAll_firstReserved (h : s.firstReserved segment r actions = (start, rest)) :
    s.performAll start rest = s.performAll r actions ∧
      s.moments start rest ⊆ s.moments r actions ∧
      ∀ a ∈ rest.head?, 0 < a.reservedIn s start (.segment segment) := by
  induction actions generalizing r with
  | nil =>
    cases h
    exact ⟨rfl, List.Subset.refl _, by simp⟩
  | cons a actions ih =>
    rw [firstReserved] at h
    split at h
    · rename_i hreserved
      cases h
      exact ⟨rfl, List.Subset.refl _, by simpa using hreserved⟩
    · obtain ⟨hperform, hmoments, hhead⟩ := ih h
      exact ⟨hperform, List.subset_cons_of_subset _ hmoments, hhead⟩

theorem lookup_firstReserved (h : s.firstReserved segment r actions = (start, rest))
    (hdisjoint : l.IsDisjoint) (horderly : ∀ m ∈ s.moments r actions, m.Orderly l)
    (hknown : r.labels.lookup name = some symbol)
    (hhere : symbol.address = r.cursors.get segment) :
    ∃ next, start.labels.lookup name = some next ∧
      next.address = start.cursors.get segment := by
  induction actions generalizing r symbol with
  | nil =>
    cases h
    exact ⟨symbol, hknown, hhere⟩
  | cons a actions ih =>
    rw [firstReserved] at h
    split at h
    · cases h
      exact ⟨symbol, hknown, hhere⟩
    · rename_i hnothing
      have hfirst := horderly ⟨s, r, a, actions⟩ (List.mem_cons_self ..)
      obtain ⟨next, hnext, hthere⟩ :=
        hfirst.lookup_after hdisjoint hknown hhere (Nat.eq_zero_of_not_pos hnothing)
      exact ih h (fun m hm => horderly m (List.mem_cons_of_mem _ hm)) hnext hthere

/-- A label behind the cursor is never displaced while the cursor goes up. -/
theorem not_displaces_of_behind {v : Vocabulary} (hdisjoint : l.IsDisjoint)
    (hrising : ∀ m ∈ s.moments r actions, m.Rising l v segment)
    (hknown : r.labels.lookup name = some symbol)
    (hinside : (l.segmentRange segment).contains symbol.address = true)
    (hbehind : symbol.address.toNat < (r.cursors.get segment).toNat) :
    ∀ m ∈ s.moments r actions, ¬ m.Displaces name := by
  induction actions generalizing r symbol with
  | nil => exact fun m hm => absurd hm List.not_mem_nil
  | cons a actions ih =>
    obtain ⟨hfirst, hrest⟩ := List.forall_mem_cons.1 hrising
    have hnot := hfirst.not_displaces hdisjoint hknown hinside fun heq =>
      absurd (congrArg BitVec.toNat heq) (Nat.ne_of_lt hbehind)
    obtain ⟨next, hnext, -, hkept⟩ := Moment.lookup_labels_after hfirst.regular hknown
    have hsame := hkept.2 hnot
    have hup : (r.cursors.get segment).toNat ≤ ((a.perform s r).cursors.get segment).toNat :=
      (Nat.le_add_right _ _).trans hfirst.ascends
    refine List.forall_mem_cons.2 ⟨hnot, ih hrest hnext ?_ ?_⟩
    · rwa [hsame]
    · rw [hsame]
      exact hbehind.trans_le hup

theorem not_displaces_of_reserved {v : Vocabulary} (hdisjoint : l.IsDisjoint)
    (hrising : ∀ m ∈ s.moments r actions, m.Rising l v segment)
    (hreserved : ∀ a ∈ actions.head?, 0 < a.reservedIn s r (.segment segment))
    (hknown : r.labels.lookup name = some symbol)
    (hhere : symbol.address = r.cursors.get segment) :
    ∀ m ∈ s.moments r actions, ¬ m.Displaces name := by
  cases actions with
  | nil => exact fun m hm => absurd hm List.not_mem_nil
  | cons a actions =>
    obtain ⟨hfirst, hrest⟩ := List.forall_mem_cons.1 hrising
    have hpositive := hreserved a rfl
    have hnot : ¬ (⟨s, r, a, actions⟩ : Moment).Displaces name :=
      Moment.not_displaces_of_reserved hpositive hknown
    obtain ⟨next, hnext, -, hkept⟩ := Moment.lookup_labels_after hfirst.regular hknown
    have hsame := hkept.2 hnot
    refine List.forall_mem_cons.2
      ⟨hnot, not_displaces_of_behind hdisjoint hrest hnext ?_ ?_⟩
    · rw [hsame, hhere]
      exact hfirst.inside segment
    · rw [hsame, hhere]
      exact Nat.lt_of_lt_of_le (Nat.lt_add_of_pos_right hpositive) hfirst.ascends

end Scope

/-! ### Labels of a program -/

/-- A label that a clean action defines is at the cursor of the current segment. -/
theorem Moment.lookup_of_label {m : Moment} {note : Text} {t : Token}
    (haction : m.action = .label note t) (hdefines : m.before.pool.isDefining = false)
    (hclean : m.after.log.hasErrors = false) :
    m.after.cursors = m.before.cursors ∧
      m.after.labels.lookup t.text
        = some ⟨t.text, m.before.cursors.here, m.before.cursors.segment.isData⟩ := by
  rw [after, haction, Action.perform, Reading.defineLabel] at hclean ⊢
  simp only [hdefines, Bool.false_eq_true, if_false] at hclean ⊢
  cases hadd : m.before.labels.add
      ⟨t.text, m.before.cursors.here, m.before.cursors.segment.isData⟩ with
  | error e =>
    rw [hadd] at hclean
    exact (Action.not_clean_of_report rfl hclean).elim
  | ok labels => exact ⟨rfl, by rw [SymbolTable.lookup_of_add hadd, if_pos rfl]⟩

/-- The address of a label at the end is that of the cursor of its segment just before the first
later action of the file that reserves bytes there, or at the end of the file, exactly when no
alignment from there on displaces the label; and none does while the cursor goes up. -/
theorem address_of_label {config : Config} {isa : Registry} {files : List SourceFile}
    {program : Program} (h : assemble config isa files = .ok (.ok program))
    (hdisjoint : config.layout.IsDisjoint)
    (hplain : ∀ m ∈ moments config isa files, m.action.isRelocation = false)
    (hinside : ∀ m ∈ moments config isa files, ∀ s,
      (config.layout.segmentRange s).contains (m.before.cursors.get s) = true)
    {m : Moment} (hm : m ∈ moments config isa files) {note : Text} {t : Token}
    (haction : m.action = .label note t) (hdefines : m.before.pool.isDefining = false)
    {start : Reading} {rest : List Action}
    (hfirst : m.scope.firstReserved m.before.cursors.segment m.after m.later = (start, rest)) :
    ∃ name labels final, program.locals[m.scope.unit]? = some (name, labels) ∧
      labels.lookupOr program.global t.text = some final ∧
      (final.address = start.cursors.get m.before.cursors.segment ↔
        ∀ other ∈ m.scope.moments start rest, ¬ other.Displaces t.text) ∧
      ((∀ other ∈ m.scope.moments start rest, other.Ascends m.before.cursors.segment) →
        final.address = start.cursors.get m.before.cursors.segment) := by
  obtain ⟨run⟩ := nonempty_run h
  obtain ⟨earlier, later, hsplit⟩ := List.append_of_mem hm
  -- A label stores nothing, so nothing is stored over it.
  have hnone (a : Address) (width : Nat) : Apart m.range.1 m.range.2 a width := by
    intro x hx
    rw [Moment.range, haction] at hx
    exact absurd hx (Nat.not_lt_zero _)
  obtain ⟨next, u, hfile⟩ :=
    run.exists_fileOf hsplit ⟨fun _ _ => hnone _ _, fun _ _ _ _ => hnone _ _⟩
  obtain ⟨hcursors, hknown⟩ := Moment.lookup_of_label haction hdefines hfile.clean
  have horderly : ∀ other ∈ m.scope.moments m.after m.later, other.Orderly config.layout :=
    fun other hother => ⟨run.clean_after (hfile.later hother), hplain other (hfile.later hother),
      hinside other (hfile.later hother)⟩
  obtain ⟨hend, hrest, hreserved⟩ := Scope.performAll_firstReserved hfirst
  obtain ⟨symbol, hsymbol, hhere⟩ := Scope.lookup_firstReserved hfirst hdisjoint horderly hknown
    (by rw [hcursors]; rfl)
  have hregular : ∀ other ∈ m.scope.moments start rest,
      other.action.Regular (isa.vocabulary true) :=
    fun other hother => run.regular (hfile.later (hrest hother))
  obtain ⟨final, hfinal, -, hsame⟩ := Scope.address_labels_performAll hregular hsymbol
  have hlookup : m.fileEnd.lookup t.text = some final := by
    rw [Reading.lookup, SymbolTable.lookupOr, Moment.fileEnd, ← hend, hfinal]
    rfl
  rw [hhere] at hsame
  refine ⟨u.name, u.labels, final, hfile.locals, ?_, hsame, fun hascends => hsame.2 ?_⟩
  · rw [run.global]
    exact hfile.lookupOr hlookup
  · have hrising : ∀ other ∈ m.scope.moments start rest,
        other.Rising config.layout (isa.vocabulary true) m.before.cursors.segment :=
      fun other hother =>
        ⟨horderly other (hrest hother), hregular other hother, hascends other hother⟩
    exact Scope.not_displaces_of_reserved hdisjoint hrising hreserved hsymbol hhere

theorem Layout.isDisjoint_default : ({} : Layout).IsDisjoint := by
  intro s s' a hne ha
  have hapart : (({} : Layout).segmentRange s).last.toNat
        < (({} : Layout).segmentRange s').first.toNat ∨
      (({} : Layout).segmentRange s').last.toNat
        < (({} : Layout).segmentRange s).first.toNat := by
    obtain ⟨isData, isKernel⟩ := s
    obtain ⟨isData', isKernel'⟩ := s'
    revert hne
    cases isData <;> cases isKernel <;> cases isData' <;> cases isKernel' <;> decide
  rw [SegmentRange.contains_iff] at ha
  rw [← Bool.not_eq_true, SegmentRange.contains_iff]
  omega

/-- A space that goes around the address space, back to the label of the byte before it. -/
def wrappedSource : List SourceFile :=
  [{ name := "a.s",
     lines :=
       [⟨".data", "a.s", 1⟩, ⟨".byte 1", "a.s", 2⟩, ⟨"x: .byte 2", "a.s", 3⟩,
        ⟨".space 4294967295", "a.s", 4⟩, ⟨".word 5", "a.s", 5⟩] }]

/-- The word after it is aligned, and the label moves away from its byte. -/
theorem address_of_wrappedSource :
    ∃ program labels m, ∃ p : Reading × List Action,
      assemble {} Rv32im.registry wrappedSource = .ok (.ok program) ∧
      m ∈ moments {} Rv32im.registry wrappedSource ∧
      m.scope.firstReserved m.before.cursors.segment m.after m.later = p ∧
      p.1.cursors.get m.before.cursors.segment = 0x10010001 ∧
      program.locals[0]? = some (Text.ofString "a.s", labels) ∧
      labels.lookupOr program.global "x" = some ⟨"x", 0x10010004, true⟩ ∧
      ∃ other ∈ m.scope.moments p.1 p.2, other.Displaces "x" := by
  have hprogram : (programInOrder? {} Rv32im.registry wrappedSource).map (fun p : Program =>
      p.locals[0]?.map fun l => (l.1, l.2.lookupOr p.global "x"))
      = some (some (Text.ofString "a.s", some ⟨"x", 0x10010004, true⟩)) := by
    decide +kernel
  have hmoment : (moments {} Rv32im.registry wrappedSource)[4]?.map (fun m : Moment =>
      (m.action, m.before.pool.isDefining, m.scope.unit,
        (m.scope.firstReserved m.before.cursors.segment m.after m.later).1.cursors.get
          m.before.cursors.segment))
      = some (.label [] ⟨.identifier, "x", "a.s", 3, 1, 0, 0, 0⟩, false, 0, 0x10010001) := by
    decide +kernel
  have hall : ((moments {} Rv32im.registry wrappedSource).all fun m =>
      !m.action.isRelocation && [false, true].all fun isData => [false, true].all fun isKernel =>
        (({} : Layout).segmentRange ⟨isData, isKernel⟩).contains
          (m.before.cursors.get ⟨isData, isKernel⟩)) = true := by
    decide +kernel
  obtain ⟨program, hfound, hfacts⟩ := Option.map_eq_some_iff.1 hprogram
  obtain ⟨m, hm, hfacts'⟩ := Option.map_eq_some_iff.1 hmoment
  simp only [Prod.mk.injEq] at hfacts'
  obtain ⟨haction, hdefines, hunit, hcursor⟩ := hfacts'
  have hassemble := assemble_of_programInOrder? hfound
  have hmem := List.mem_of_getElem? hm
  have hplain : ∀ m ∈ moments {} Rv32im.registry wrappedSource, m.action.isRelocation = false := by
    intro m hm
    simpa using (Bool.and_eq_true_iff.1 (List.all_eq_true.1 hall m hm)).1
  have hinside : ∀ m ∈ moments {} Rv32im.registry wrappedSource, ∀ s,
      (({} : Layout).segmentRange s).contains (m.before.cursors.get s) = true := by
    rintro m hm ⟨isData, isKernel⟩
    have hranges := (Bool.and_eq_true_iff.1 (List.all_eq_true.1 hall m hm)).2
    exact List.all_eq_true.1 (List.all_eq_true.1 hranges isData (by cases isData <;> decide))
      isKernel (by cases isKernel <;> decide)
  generalize hfirst : m.scope.firstReserved m.before.cursors.segment m.after m.later = p at hcursor
  obtain ⟨name, labels, final, hlocals, hfinal, hsame, -⟩ :=
    address_of_label hassemble Layout.isDisjoint_default hplain hinside hmem haction hdefines
      (hfirst : _ = (p.1, p.2))
  rw [hunit] at hlocals
  rw [hlocals, Option.map_some, Option.some.injEq, Prod.mk.injEq] at hfacts
  obtain ⟨rfl, hlookup⟩ := hfacts
  obtain rfl : final = _ := Option.some.inj (hfinal.symm.trans hlookup)
  refine ⟨program, labels, m, p, hassemble, hmem, hfirst, hcursor, hlocals, hlookup, ?_⟩
  -- A label that nothing displaces would be where its byte is.
  by_contra hnone
  have hthere := hsame.2 fun other hother hdisplaces => hnone ⟨other, hother, hdisplaces⟩
  rw [hcursor] at hthere
  exact absurd hthere (by decide)

end Rv32Assembler
