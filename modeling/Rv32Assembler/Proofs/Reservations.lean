import Rv32Assembler.Proofs.Cursors
import Rv32Assembler.Proofs.Displacement
import Rv32Assembler.Proofs.TwoPass
/-!
# Reserved bytes

The bytes that a run reserves: for external data, for spaces, for stored items and for instructions.
Instructions never overlap, because two words at one address are an error. No such test is made for
data. There each cursor must stay in its own part of the address space; then it only goes up, so what
is reserved later lies behind what was reserved before (`pairwise_reservations`).
-/

namespace Rv32Assembler

def Region.isText : Region → Bool
  | .external => false
  | .segment s => !s.isData

/-- Where a region starts and stops. External data stops where the data segment starts. -/
def Layout.bounds (l : Layout) : Region → Nat × Nat
  | .external => (l.externBase.toNat, l.dataBase.toNat)
  | .segment s =>
    match s.isData, s.isKernel with
    | false, false => (l.textBase.toNat, l.textLimit.toNat + 1)
    | false, true => (l.kernelTextBase.toNat, l.kernelTextLimit.toNat + 1)
    | true, false => (l.dataBase.toNat, l.dataLimit.toNat + 1)
    | true, true => (l.kernelDataBase.toNat, l.kernelDataLimit.toNat + 1)

def Layout.Holds (l : Layout) (region : Region) (x : Address) : Prop :=
  (l.bounds region).1 ≤ x.toNat ∧ x.toNat < (l.bounds region).2

/-- Bytes that are reserved from the cursor of a region on. -/
structure Reservation where
  region : Region
  address : Address
  size : Nat
  deriving DecidableEq, Repr

namespace Reservation

/-- No byte belongs to both. -/
def Apart (a b : Reservation) : Prop := Rv32Assembler.Apart a.address a.size b.address b.size

instance (a b : Reservation) : Decidable (a.Apart b) :=
  inferInstanceAs (Decidable (Rv32Assembler.Apart ..))

/-- The bytes belong to the region. -/
def Inside (l : Layout) (a : Reservation) : Prop :=
  (l.bounds a.region).1 ≤ a.address.toNat ∧ a.address.toNat + a.size ≤ (l.bounds a.region).2

instance (l : Layout) (a : Reservation) : Decidable (a.Inside l) :=
  inferInstanceAs (Decidable (_ ∧ _))

end Reservation

namespace Moment

def reservation? (m : Moment) : Option Reservation :=
  (m.action.reservation? m.scope m.before).map fun p => ⟨p.1, m.before.cursors.next p.1, p.2⟩

def statement? (m : Moment) : Option Statement := m.action.statement? m.scope m.before

end Moment

/-- All that the first pass over files reserves, in order. -/
def reservations (config : Config) (isa : Registry) (files : List SourceFile) : List Reservation :=
  (moments config isa files).filterMap Moment.reservation?

/-! ### Bounds -/

theorem Covers.toNat_bounds {a x : Address} {n : Nat} (h : Covers a n x)
    (hn : a.toNat + n ≤ 2 ^ 32) : a.toNat ≤ x.toNat ∧ x.toNat < a.toNat + n := by
  unfold Covers at h
  bv_omega

theorem Address.rank_of_pos {a : Address} (ha : 0 < a.toNat) : rank a = a.toNat := by
  refine if_neg ?_
  rintro rfl
  exact absurd ha (Nat.lt_irrefl 0)

theorem Layout.bounds_default (region : Region) :
    0 < (({} : Layout).bounds region).1 ∧ (({} : Layout).bounds region).2 ≤ 2 ^ 32 := by
  cases region with
  | external => decide
  | segment s =>
    obtain ⟨isData, isKernel⟩ := s
    cases isData <;> cases isKernel <;> decide

/-- No address belongs to two regions. -/
theorem Layout.Holds.region_eq {region other : Region} {x : Address}
    (h : ({} : Layout).Holds region x) (h' : ({} : Layout).Holds other x) : region = other := by
  have hapart : region ≠ other →
      (({} : Layout).bounds region).2 ≤ (({} : Layout).bounds other).1 ∨
        (({} : Layout).bounds other).2 ≤ (({} : Layout).bounds region).1 := by
    rcases region with _ | ⟨isData, isKernel⟩ <;> rcases other with _ | ⟨isData', isKernel'⟩
    · decide
    · cases isData' <;> cases isKernel' <;> decide
    · cases isData <;> cases isKernel <;> decide
    · cases isData <;> cases isKernel <;> cases isData' <;> cases isKernel' <;> decide
  by_contra hne
  have hbounds := hapart hne
  unfold Holds at h h'
  omega

namespace Reservation.Inside

variable {a b : Reservation}

theorem toNat_bounds (h : a.Inside {}) {x : Address} (hx : Covers a.address a.size x) :
    a.address.toNat ≤ x.toNat ∧ x.toNat < a.address.toNat + a.size :=
  hx.toNat_bounds (h.2.trans (Layout.bounds_default a.region).2)

theorem holds (h : a.Inside {}) {x : Address} (hx : Covers a.address a.size x) :
    ({} : Layout).Holds a.region x := by
  obtain ⟨hlow, hhigh⟩ := h.toNat_bounds hx
  exact ⟨h.1.trans hlow, hhigh.trans_le h.2⟩

theorem rank_address (h : a.Inside {}) : Address.rank a.address = a.address.toNat :=
  Address.rank_of_pos ((Layout.bounds_default a.region).1.trans_le h.1)

theorem apart (h : a.Inside {}) (h' : b.Inside {})
    (hbehind : Address.rank a.address + a.size ≤ Address.rank b.address) : a.Apart b := by
  intro x hx hx'
  have hhigh := (h.toNat_bounds hx).2
  have hlow := (h'.toNat_bounds hx').1
  rw [h.rank_address, h'.rank_address] at hbehind
  omega

end Reservation.Inside

theorem SegmentRange.bounds_of_covers {r : SegmentRange} {a x : Address}
    (h : r.contains a = true) (ha : a.toNat % 4 = 0) (hlast : r.last.toNat % 4 = 3)
    (hx : Covers a 4 x) : r.first.toNat ≤ x.toNat ∧ x.toNat ≤ r.last.toNat := by
  obtain ⟨hfirst, hbefore⟩ := contains_iff.1 h
  obtain ⟨hlow, hhigh⟩ := hx.toNat_bounds (by omega)
  omega

/-! ### Instructions -/

theorem Statement.ExpandsTo.exists_covers {s : Statement} {machine : List MachineStatement}
    (h : s.ExpandsTo machine) {x : Address} (hx : Covers s.address s.instruction.size x) :
    ∃ m ∈ machine, Covers m.address 4 x := by
  unfold Covers Instruction.size at hx
  -- The distance from the start tells which word it is.
  have hindex : (x - s.address).toNat / 4 < s.instruction.wordCount := by omega
  have haddress : s.address + BitVec.ofNat 32 (4 * ((x - s.address).toNat / 4))
      ∈ machine.map (fun m => m.address) := by
    rw [h.addresses]
    exact List.mem_map.2 ⟨_, List.mem_range.2 hindex, rfl⟩
  obtain ⟨m, hm, haddress⟩ := List.mem_map.1 haddress
  refine ⟨m, hm, ?_⟩
  unfold Covers
  rw [haddress]
  bv_omega

theorem Action.Effect.parsed_eq_or {s : Scope} {r r' : Reading} {a : Action} (h : a.Effect s r r') :
    r'.parsed = r.parsed ∨
      ∃ note tokenLine operator operands, a = .instruction note tokenLine operator operands := by
  cases h with
  | quiet hquiet => exact .inl hquiet.parsed
  | label | external | move => exact .inl rfl
  | store _ _ hparsed => exact .inl hparsed
  | parse _ haction => exact .inr ⟨_, _, _, _, haction⟩

theorem Action.parsed_perform {s : Scope} {r : Reading} {a : Action}
    (h : (a.perform s r).log.hasErrors = false) :
    (a.perform s r).parsed = r.parsed ++ (a.statement? s r).toList := by
  have heffect := (effect_perform s r a).parsed_eq_or
  cases a with
  | instruction note tokenLine operator operands =>
    obtain ⟨statement, hstatement, hread⟩ := readInstruction_of_clean h
    rw [perform, hread, hstatement]
    rfl
  | _ =>
    rcases heffect with hsame | ⟨_, _, _, _, haction⟩
    · rw [hsame]
      exact (List.append_nil _).symm
    · cases haction

theorem Scope.parsed_performAll_eq {s : Scope} {r : Reading} {actions : List Action}
    (h : (s.performAll r actions).log.hasErrors = false) :
    (s.performAll r actions).parsed
      = r.parsed ++ (s.moments r actions).filterMap Moment.statement? := by
  induction actions generalizing r with
  | nil => simp [moments]
  | cons a actions ih =>
    rw [performAll_cons, ih h, Action.parsed_perform (clean_of_performAll h), moments,
      List.filterMap_cons, List.append_assoc]
    congr 1
    unfold Moment.statement?
    cases a.statement? s r <;> rfl

theorem Session.Reads.parsed_eq {config : Config} {isa : Registry} {unit : Nat}
    {session last : Session} {files : List (Text × Array TokenLine)} {moments : List Moment}
    {units : List SourceUnit} (h : Reads config isa unit session files moments units last) :
    units.flatMap SourceUnit.parsed = moments.filterMap Moment.statement? := by
  induction h with
  | nil => rfl
  | @cons _ session _ _ name _ _ _ _ _ s actions stop _ _ hstop hclean hfinishes _ ih =>
    rw [hstop] at hclean
    rw [List.flatMap_cons, List.filterMap_append, ih, hfinishes.parsed, hstop,
      Scope.parsed_performAll_eq hclean]
    rfl

theorem pairwise_of_expandsTo {statements : List Statement}
    {expansions : List (List MachineStatement)}
    (h : List.Forall₂ Statement.ExpandsTo statements expansions)
    (hwords : expansions.Pairwise fun ms ms' =>
      ∀ a ∈ ms, ∀ b ∈ ms', Apart a.address 4 b.address 4) :
    statements.Pairwise fun s t =>
      Apart s.address s.instruction.size t.address t.instruction.size := by
  induction h with
  | nil => exact .nil
  | @cons s ms statements expansions hs hrest ih =>
    obtain ⟨hfirst, hothers⟩ := List.pairwise_cons.1 hwords
    refine .cons (fun t ht x hx hx' => ?_) (ih hothers)
    obtain ⟨ms', hms', ht⟩ := exists_of_forall₂ hrest ht
    obtain ⟨a, ha, hcovers⟩ := hs.exists_covers hx
    obtain ⟨b, hb, hcovers'⟩ := ht.exists_covers hx'
    exact hfirst ms' hms' a ha b hb x hcovers hcovers'

namespace Run

variable {config : Config} {isa : Registry} {files : List SourceFile} {program : Program}

/-- No byte belongs to two statements. -/
theorem pairwise_statements (run : Run config isa files program) :
    ((moments config isa files).filterMap Moment.statement?).Pairwise fun s t =>
      Apart s.address s.instruction.size t.address t.instruction.size := by
  obtain ⟨log, tokenized, -, hreads⟩ := run.reads
  rw [← hreads.parsed_eq]
  have hwords : run.expansions.flatten.Pairwise fun a b => Apart a.address 4 b.address 4 := by
    refine (List.Perm.pairwise_iff Apart.symm run.statements).1 ?_
    refine run.ordered.imp_of_mem fun {a b} ha hb hlt => ?_
    exact apart_of_aligned (run.placed a ha).aligned (run.placed b hb).aligned (BitVec.ne_of_lt hlt)
  exact pairwise_of_expandsTo run.expandsTo (List.pairwise_flatten.1 hwords).2

theorem holds_of_statement (run : Run config isa files program) (hlayout : config.layout = {})
    {m : Moment} (hm : m ∈ moments config isa files) {s : Statement} (hs : m.statement? = some s)
    {x : Address} (hx : Covers s.address s.instruction.size x) :
    ∃ region : Region, region.isText = true ∧ ({} : Layout).Holds region x := by
  obtain ⟨log, tokenized, -, hreads⟩ := run.reads
  have hparsed : s ∈ run.units.flatMap SourceUnit.parsed := by
    rw [hreads.parsed_eq]
    exact List.mem_filterMap.2 ⟨m, hm, hs⟩
  obtain ⟨words, hwords, hexpands⟩ := exists_of_forall₂ run.expandsTo hparsed
  obtain ⟨word, hword, hcovers⟩ := hexpands.exists_covers hx
  have hplaced := run.placed word
    (run.statements.symm.subset (List.mem_flatten.2 ⟨words, hwords, hword⟩))
  have htext := hplaced.inText
  rw [run.layout_eq, hlayout, Layout.inText, Bool.or_eq_true] at htext
  rcases htext with htext | htext
  · obtain ⟨hlow, hhigh⟩ := SegmentRange.bounds_of_covers htext hplaced.aligned (by decide) hcovers
    exact ⟨.segment ⟨false, false⟩, rfl, hlow, Nat.lt_succ_of_le hhigh⟩
  · obtain ⟨hlow, hhigh⟩ := SegmentRange.bounds_of_covers htext hplaced.aligned (by decide) hcovers
    exact ⟨.segment ⟨false, true⟩, rfl, hlow, Nat.lt_succ_of_le hhigh⟩

end Run

/-! ### Data -/

/-- The actions follow one another: each finds the cursors as the one before has left them. -/
inductive Linked : (Region → Address) → List Moment → Prop
  | nil (next : Region → Address) : Linked next []
  | cons {m : Moment} {moments : List Moment} (h : Linked m.after.cursors.next moments) :
      Linked m.before.cursors.next (m :: moments)

theorem Scope.linked_moments {s : Scope} {r : Reading} {actions : List Action}
    {moments : List Moment} (h : Linked (s.performAll r actions).cursors.next moments) :
    Linked r.cursors.next (s.moments r actions ++ moments) := by
  induction actions generalizing r with
  | nil => exact h
  | cons a actions ih => exact .cons (m := ⟨s, r, a, actions⟩) (ih h)

theorem Session.Reads.linked {config : Config} {isa : Registry} {unit : Nat}
    {session last : Session} {files : List (Text × Array TokenLine)} {moments : List Moment}
    {units : List SourceUnit} (h : Reads config isa unit session files moments units last) :
    Linked session.cursors.next moments := by
  induction h with
  | nil => exact .nil _
  | @cons _ session _ _ name _ _ _ _ _ s actions stop _ _ hstop _ hfinishes _ ih =>
    have hstart : (Reading.start session name).cursors.next = session.cursors.next := by
      funext region
      cases region <;> rfl
    rw [← hstart]
    rw [hfinishes.cursors, hstop] at ih
    exact Scope.linked_moments ih

/-- The cursor of a region goes up past what the action reserves there. -/
def Moment.Raises (region : Region) (m : Moment) : Prop :=
  Address.rank (m.before.cursors.next region) + m.action.reservedIn m.scope m.before region
    ≤ Address.rank (m.after.cursors.next region)

theorem Address.rank_add {a : Address} {n : Nat} (ha : 0 < a.toNat) (hn : a.toNat + n ≤ 2 ^ 32) :
    rank (a + BitVec.ofNat 32 n) = a.toNat + n := by
  have hsum : (a + BitVec.ofNat 32 n).toNat = (a.toNat + n) % 2 ^ 32 := by
    rw [BitVec.toNat_add, BitVec.toNat_ofNat, Nat.add_mod_mod]
  unfold rank
  split
  · -- The sum is the end of the address space.
    rename_i hzero
    rw [hzero] at hsum
    have hmod : (a.toNat + n) % 2 ^ 32 = 0 := hsum.symm
    omega
  · rename_i hne
    have hpos : (a + BitVec.ofNat 32 n).toNat ≠ 0 := fun h => hne (BitVec.eq_of_toNat_eq h)
    omega

/-- An action that reserves only what its region has room for raises the cursor. -/
theorem Moment.raises_of_inside {m : Moment} {v : Vocabulary}
    (hclean : m.after.log.hasErrors = false) (hplain : m.action.isRelocation = false)
    (hregular : m.action.Regular v) {region : Region}
    (hinside : ∀ a, m.reservation? = some a → a.region = region → 0 < a.size → a.Inside {}) :
    m.Raises region := by
  unfold Raises Action.reservedIn after
  cases Action.moves_perform hclean hplain with
  | still hnone _ hnext =>
    rw [hnone, hnext]
    exact Nat.le_refl _
  | reserve own n hsome hnext =>
    rw [hsome, hnext]
    by_cases hown : own = region
    · subst hown
      simp only [if_true]
      rcases Nat.eq_zero_or_pos n with rfl | hn
      · simp
      · have hroom : (⟨own, m.before.cursors.next own, n⟩ : Reservation).Inside {} :=
          hinside _ (by rw [reservation?, hsome]; rfl) rfl hn
        obtain ⟨hfirst, hlast⟩ := hroom
        obtain ⟨hpos, hstop⟩ := Layout.bounds_default own
        have hstart := hpos.trans_le hfirst
        rw [Address.rank_of_pos hstart, Address.rank_add hstart (hlast.trans hstop)]
    · simp [hown, Ne.symm hown]
  | align segment multiple haction hnext =>
    rw [hnext]
    rw [haction] at hregular ⊢
    simp only [Action.reservation?]
    split
    · by_cases hmoves : alignUp (m.before.cursors.next region) multiple
          = m.before.cursors.next region
      · rw [hmoves]
        exact Nat.le_refl _
      · exact (rank_lt_rank_alignUp hregular hmoves).le
    · exact Nat.le_refl _

theorem Moment.reservedIn_of_reservation? {m : Moment} {a : Reservation}
    (h : m.reservation? = some a) :
    a.address = m.before.cursors.next a.region ∧
      m.action.reservedIn m.scope m.before a.region = a.size := by
  obtain ⟨⟨region, n⟩, hsome, rfl⟩ := Option.map_eq_some_iff.1 h
  refine ⟨rfl, ?_⟩
  rw [Action.reservedIn, hsome]
  exact if_pos rfl

namespace Linked

variable {next : Region → Address} {moments : List Moment} {region : Region}

theorem rank_le (h : Linked next moments) (hraises : ∀ m ∈ moments, m.Raises region) :
    ∀ m ∈ moments, Address.rank (next region) ≤ Address.rank (m.before.cursors.next region) := by
  induction h with
  | nil => exact fun m hm => absurd hm List.not_mem_nil
  | @cons first moments h ih =>
    obtain ⟨hfirst, hrest⟩ := List.forall_mem_cons.1 hraises
    have hstep := (Nat.le_add_right _ _).trans hfirst
    exact List.forall_mem_cons.2 ⟨Nat.le_refl _, fun m hm => hstep.trans (ih hrest m hm)⟩

/-- While every action raises the cursor of a region, an action finds it behind all that was
reserved there before. -/
theorem pairwise_rank_le (h : Linked next moments) (hraises : ∀ m ∈ moments, m.Raises region) :
    moments.Pairwise fun m other =>
      Address.rank (m.before.cursors.next region) + m.action.reservedIn m.scope m.before region
        ≤ Address.rank (other.before.cursors.next region) := by
  induction h with
  | nil => exact .nil
  | @cons first moments h ih =>
    obtain ⟨hfirst, hrest⟩ := List.forall_mem_cons.1 hraises
    exact .cons (fun m hm => hfirst.trans (h.rank_le hrest m hm)) (ih hrest)

theorem pairwise_apart (h : Linked next moments) (hraises : ∀ m ∈ moments, m.Raises region)
    (hinside : ∀ m ∈ moments, ∀ a, m.reservation? = some a → a.region = region → 0 < a.size →
      a.Inside {}) :
    moments.Pairwise fun m m' => ∀ a, m.reservation? = some a → ∀ b, m'.reservation? = some b →
      a.region = region → b.region = region → a.Apart b := by
  refine (h.pairwise_rank_le hraises).imp_of_mem ?_
  intro m m' hm hm' hbehind a ha b hb hregion hregion' x hx hx'
  obtain ⟨haddress, hsize⟩ := Moment.reservedIn_of_reservation? ha
  obtain ⟨haddress', -⟩ := Moment.reservedIn_of_reservation? hb
  rw [hregion] at haddress hsize
  rw [hregion'] at haddress'
  rw [← haddress, hsize, ← haddress'] at hbehind
  have hroom := hinside m hm a ha hregion ((Nat.zero_le _).trans_lt hx)
  have hroom' := hinside m' hm' b hb hregion' ((Nat.zero_le _).trans_lt hx')
  exact hroom.apart hroom' hbehind x hx hx'

end Linked

/-! ### All reservations -/

namespace Moment

variable {m : Moment} {a : Reservation}

theorem exists_statement (h : m.reservation? = some a) (htext : a.region.isText = true) :
    ∃ s, m.statement? = some s ∧ s.address = a.address ∧ s.instruction.size = a.size := by
  obtain ⟨⟨region, n⟩, hsome, rfl⟩ := Option.map_eq_some_iff.1 h
  unfold statement?
  generalize m.action = action at hsome
  cases action with
  | instruction note tokenLine operator operands =>
    obtain ⟨s, hs, heq⟩ := Option.map_eq_some_iff.1 hsome
    cases heq
    refine ⟨s, hs, ?_, rfl⟩
    obtain ⟨form, -, rfl⟩ := Option.map_eq_some_iff.1 hs
    rfl
  | number | reference | string =>
    cases hsome
    cases htext
  | space note directive operands =>
    match operands with
    | [operand] =>
      cases hsome
      cases htext
  | external note directive operands =>
    match operands with
    | [name, size] =>
      rw [Action.reservation?] at hsome
      split at hsome
      · cases hsome
        cases htext
      · cases hsome
  | _ => cases hsome

end Moment

namespace Run

variable {config : Config} {isa : Registry} {files : List SourceFile} {program : Program}

theorem apart_of_isText (run : Run config isa files program) :
    (moments config isa files).Pairwise fun m m' => ∀ a, m.reservation? = some a →
      ∀ b, m'.reservation? = some b → a.region.isText = true → b.region.isText = true →
        a.Apart b := by
  refine (List.pairwise_filterMap.1 run.pairwise_statements).imp ?_
  intro m m' hapart a ha b hb htext htext'
  obtain ⟨s, hs, haddress, hsize⟩ := Moment.exists_statement ha htext
  obtain ⟨t, ht, haddress', hsize'⟩ := Moment.exists_statement hb htext'
  have hstatements := hapart s hs t ht
  rwa [haddress, hsize, haddress', hsize'] at hstatements

/-- A reserved byte belongs to a region of the kind that it is reserved in, for data to that region
itself. -/
theorem holds_of_reservation (run : Run config isa files program) (hlayout : config.layout = {})
    {m : Moment} (hm : m ∈ moments config isa files) {a : Reservation}
    (ha : m.reservation? = some a)
    (hinside : a.region.isText = false → 0 < a.size → a.Inside {}) {x : Address}
    (hx : Covers a.address a.size x) :
    ∃ region : Region, ({} : Layout).Holds region x ∧ region.isText = a.region.isText ∧
      (a.region.isText = false → region = a.region) := by
  cases htext : a.region.isText with
  | false =>
    have hsize : 0 < a.size := (Nat.zero_le _).trans_lt hx
    exact ⟨a.region, (hinside htext hsize).holds hx, htext, fun _ => rfl⟩
  | true =>
    obtain ⟨s, hs, haddress, hsize⟩ := Moment.exists_statement ha htext
    rw [← haddress, ← hsize] at hx
    obtain ⟨region, hregion, hholds⟩ := run.holds_of_statement hlayout hm hs hx
    exact ⟨region, hholds, hregion, nofun⟩

end Run

/-- Bytes that are reserved for instructions never overlap. If all that is reserved for data,
external data included, belongs to the region that it is reserved in, no two reservations overlap. -/
theorem pairwise_reservations {config : Config} {isa : Registry} {files : List SourceFile}
    {program : Program} (h : assemble config isa files = .ok (.ok program))
    (hlayout : config.layout = {})
    (hplain : ∀ m ∈ moments config isa files, m.action.isRelocation = false) :
    (reservations config isa files).Pairwise (fun a b =>
        a.region.isText = true → b.region.isText = true → a.Apart b) ∧
      ((∀ a ∈ reservations config isa files,
          a.region.isText = false → 0 < a.size → a.Inside config.layout) →
        (reservations config isa files).Pairwise Reservation.Apart) := by
  obtain ⟨run⟩ := nonempty_run h
  obtain ⟨log, tokenized, -, hreads⟩ := run.reads
  refine ⟨List.pairwise_filterMap.2 run.apart_of_isText, fun hinside => ?_⟩
  rw [hlayout] at hinside
  have hroom : ∀ m ∈ moments config isa files, ∀ a, m.reservation? = some a →
      a.region.isText = false → 0 < a.size → a.Inside {} := fun m hm a ha =>
    hinside a (List.mem_filterMap.2 ⟨m, hm, ha⟩)
  have hroom' : ∀ region : Region, region.isText = false → ∀ m ∈ moments config isa files, ∀ a,
      m.reservation? = some a → a.region = region → 0 < a.size → a.Inside {} := by
    rintro _ hdata m hm a ha rfl hsize
    exact hroom m hm a ha hdata hsize
  have hraises : ∀ region : Region, region.isText = false →
      ∀ m ∈ moments config isa files, m.Raises region := fun region hdata m hm =>
    Moment.raises_of_inside (run.clean_after hm) (hplain m hm) (run.regular hm)
      (hroom' region hdata m hm)
  refine List.pairwise_filterMap.2 (List.pairwise_iff_forall_sublist.2 ?_)
  intro m m' hsublist a ha b hb x hx hx'
  have hm : m ∈ moments config isa files := hsublist.subset (List.mem_cons_self ..)
  have hm' : m' ∈ moments config isa files := hsublist.subset (by simp)
  obtain ⟨region, hholds, hkind, hown⟩ :=
    run.holds_of_reservation hlayout hm ha (hroom m hm a ha) hx
  obtain ⟨region', hholds', hkind', hown'⟩ :=
    run.holds_of_reservation hlayout hm' hb (hroom m' hm' b hb) hx'
  -- A common byte belongs to one region, so both are for instructions or both for its data.
  obtain rfl := hholds.region_eq hholds'
  cases htext : region.isText with
  | true =>
    have hapart := List.pairwise_iff_forall_sublist.1 run.apart_of_isText hsublist a ha b hb
      (hkind ▸ htext) (hkind' ▸ htext)
    exact hapart x hx hx'
  | false =>
    rw [htext] at hkind hkind'
    have hapart := hreads.linked.pairwise_apart (hraises region htext) (hroom' region htext)
    exact List.pairwise_iff_forall_sublist.1 hapart hsublist a ha b hb (hown hkind.symm).symm
      (hown' hkind'.symm).symm x hx hx'

/-- Something of every kind, with no byte to spare. -/
def packedSource : List SourceFile :=
  [{ name := "a.s",
     lines :=
       [⟨".extern buf 65536", "a.s", 1⟩, ⟨".data", "a.s", 2⟩, ⟨".byte 1", "a.s", 3⟩,
        ⟨".space 3", "a.s", 4⟩, ⟨".word buf", "a.s", 5⟩, ⟨".kdata", "a.s", 6⟩,
        ⟨".space 1879048192", "a.s", 7⟩, ⟨".text", "a.s", 8⟩, ⟨"li t0, 1048576", "a.s", 9⟩,
        ⟨"nop", "a.s", 10⟩] }]

theorem pairwise_packedSource :
    ∃ program, assemble {} Rv32im.registry packedSource = .ok (.ok program) ∧
      reservations {} Rv32im.registry packedSource
        = [⟨.external, 0x10000000, 65536⟩, ⟨.segment ⟨true, false⟩, 0x10010000, 1⟩,
           ⟨.segment ⟨true, false⟩, 0x10010001, 3⟩, ⟨.segment ⟨true, false⟩, 0x10010004, 4⟩,
           ⟨.segment ⟨true, true⟩, 0x90000000, 1879048192⟩,
           ⟨.segment ⟨false, false⟩, 0x400000, 8⟩, ⟨.segment ⟨false, false⟩, 0x400008, 4⟩] ∧
      (reservations {} Rv32im.registry packedSource).Pairwise Reservation.Apart := by
  have hprogram : (programInOrder? {} Rv32im.registry packedSource).isSome = true := by
    decide +kernel
  have hplain : ((moments {} Rv32im.registry packedSource).all fun m =>
      !m.action.isRelocation) = true := by
    decide +kernel
  have hreserved : reservations {} Rv32im.registry packedSource
      = [⟨.external, 0x10000000, 65536⟩, ⟨.segment ⟨true, false⟩, 0x10010000, 1⟩,
         ⟨.segment ⟨true, false⟩, 0x10010001, 3⟩, ⟨.segment ⟨true, false⟩, 0x10010004, 4⟩,
         ⟨.segment ⟨true, true⟩, 0x90000000, 1879048192⟩,
         ⟨.segment ⟨false, false⟩, 0x400000, 8⟩, ⟨.segment ⟨false, false⟩, 0x400008, 4⟩] := by
    decide +kernel
  obtain ⟨program, hfound⟩ := Option.isSome_iff_exists.1 hprogram
  have hassemble := assemble_of_programInOrder? hfound
  refine ⟨program, hassemble, hreserved, (pairwise_reservations hassemble rfl ?_).2 ?_⟩
  · intro m hm
    simpa using List.all_eq_true.1 hplain m hm
  · rw [hreserved]
    decide

/-- External data that runs into the data segment. -/
def spillingSource : List SourceFile :=
  [{ name := "a.s",
     lines := [⟨".extern buf 131072", "a.s", 1⟩, ⟨".data", "a.s", 2⟩, ⟨"x: .word 1", "a.s", 3⟩] }]

example : (programInOrder? {} Rv32im.registry spillingSource).isSome = true ∧
    ¬ (reservations {} Rv32im.registry spillingSource).Pairwise Reservation.Apart := by
  decide +kernel

end Rv32Assembler
