import Rv32Assembler.Proofs.Files
import Rv32Assembler.Proofs.InStep
/-!
# Files in step

What alike states of the first pass come to: alike sessions at the ends of their files, and alike
sessions after the files that follow, which are the same. So one file among others can be replaced by
another that is read in step with it (`Session.exists_of_readFiles`).
-/

namespace Rv32Assembler

structure Session.Alike (s s' : Session) : Prop where
  image : s'.image = s.image
  global : s'.global = s.global
  log : s.log.Alike s'.log
  cursors : s'.cursors = s.cursors

structure SourceUnit.Alike (u u' : SourceUnit) : Prop where
  name : u'.name = u.name
  labels : u'.labels = u.labels
  parsed : List.Forall₂ Statement.Alike u.parsed u'.parsed
  pending : List.Forall₂ Pending.Alike u.pending u'.pending

theorem SourceUnit.Alike.refl (u : SourceUnit) : u.Alike u where
  name := rfl
  labels := rfl
  parsed := List.forall₂_same.2 fun _ _ =>
    ⟨rfl, .refl _, List.forall₂_same.2 fun t _ => .refl t, rfl, rfl⟩
  pending := List.forall₂_same.2 fun _ _ => ⟨rfl, rfl, .refl _⟩

theorem SourceUnit.Alike.symm {u u' : SourceUnit} (h : u.Alike u') : u'.Alike u where
  name := h.name.symm
  labels := h.labels.symm
  parsed := h.parsed.flip.imp fun _ _ hs => hs.symm
  pending := h.pending.flip.imp fun _ _ hp => hp.symm

/-! ### Patches -/

namespace Session.Alike

variable {s s' : Session}

theorem refl (s : Session) : s.Alike s := ⟨rfl, rfl, .refl _, rfl⟩

theorem symm (h : s.Alike s') : s'.Alike s :=
  ⟨h.image.symm, h.global.symm, h.log.symm, h.cursors.symm⟩

theorem record (h : s.Alike s') {m m' : Message} (hm : m'.warning = m.warning) :
    (s.record m).Alike (s'.record m') :=
  { h with log := h.log.add hm }

theorem patch (h : s.Alike s') {item item' : Pending} (hitem : item.Alike item') (symbol : Symbol) :
    (s.patch item symbol).Alike (s'.patch item' symbol) := by
  unfold Session.patch Session.stored
  rw [h.image, hitem.address, hitem.width]
  split
  · exact { h with image := rfl, log := h.log.add rfl }
  · exact { h with image := rfl }

theorem patchKnown (h : s.Alike s') {known known' : Pending → Option Symbol}
    (hknown : ∀ {item item' : Pending}, item.Alike item' → known' item' = known item)
    {pending pending' : List Pending} (hpending : List.Forall₂ Pending.Alike pending pending') :
    (s.patchKnown known pending).Alike (s'.patchKnown known' pending') := by
  induction hpending generalizing s s' with
  | nil => exact h
  | @cons item item' _ _ hitem _ ih =>
    unfold Session.patchKnown
    rw [List.foldl_cons, List.foldl_cons]
    apply ih
    rw [hknown hitem]
    cases known item with
    | none => exact h
    | some symbol => exact h.patch hitem symbol

theorem patchAll (h : s.Alike s') (labels : SymbolTable) {pending pending' : List Pending}
    (hpending : List.Forall₂ Pending.Alike pending pending') :
    (s.patchAll labels pending).1.Alike (s'.patchAll labels pending').1 ∧
      List.Forall₂ Pending.Alike (s.patchAll labels pending).2 (s'.patchAll labels pending').2 := by
  have hknown {item item' : Pending} (hitem : item.Alike item') :
      labels.lookupOr s'.global item'.token.text = labels.lookupOr s.global item.token.text := by
    rw [h.global, hitem.token.text]
  rw [Session.patchAll_eq, Session.patchAll_eq]
  refine ⟨h.patchKnown hknown hpending, List.rel_filter ?_ hpending⟩
  intro item item' hitem
  simp only [hknown hitem]

theorem patchUnits (h : s.Alike s') {units units' : List SourceUnit}
    (hunits : List.Forall₂ SourceUnit.Alike units units') :
    (s.patchUnits units).Alike (s'.patchUnits units') := by
  have heach {s s' : Session} (h : s.Alike s') {missing missing' : List Pending}
      (hmissing : List.Forall₂ Pending.Alike missing missing') :
      (s.patchEach missing units).1.Alike (s'.patchEach missing' units').1 ∧
        List.Forall₂ Pending.Alike (s.patchEach missing units).2 (s'.patchEach missing' units').2 := by
    induction hunits generalizing s s' missing missing' with
    | nil => exact ⟨h, hmissing⟩
    | @cons u u' _ _ hu _ ih =>
      obtain ⟨hpatched, hleft⟩ := h.patchAll u.labels hu.pending
      rw [← hu.labels] at hpatched hleft
      have hstep := ih hpatched (List.rel_append hmissing hleft)
      rw [hu.labels] at hstep
      unfold Session.patchEach
      rw [List.foldl_cons, List.foldl_cons, hu.labels]
      exact hstep
  obtain ⟨hpatched, hmissing⟩ := heach h .nil
  show Session.Alike (List.foldl _ (s.patchEach [] units).1 (s.patchEach [] units).2)
    (List.foldl _ (s'.patchEach [] units').1 (s'.patchEach [] units').2)
  generalize s.patchEach [] units = q, s'.patchEach [] units' = q' at hpatched hmissing
  obtain ⟨s, missing⟩ := q
  obtain ⟨s', missing'⟩ := q'
  simp only at hpatched hmissing ⊢
  clear heach h hunits
  induction hmissing generalizing s s' with
  | nil => exact hpatched
  | cons _ _ ih => exact ih _ _ (hpatched.record rfl)

end Session.Alike

/-! ### Ends of files -/

namespace Reading.Alike

variable {P : MacroPool → MacroPool → Prop} {r r' : Reading}

theorem toSession (h : Alike P r r') : r.toSession.Alike r'.toSession :=
  ⟨h.image, h.global, h.log, h.cursors⟩

theorem closeDefinition (h : Alike P r r') (hdefining : r'.pool.isDefining = r.pool.isDefining)
    (name : Text) :
    Alike (fun _ _ => True) (r.closeDefinition name) (r'.closeDefinition name) := by
  unfold MacroPool.isDefining at hdefining
  unfold Reading.closeDefinition MacroPool.abandon
  cases hopen : r.pool.current with
  | none =>
    rw [hopen, Option.isSome_none, Option.isSome_eq_false_iff, Option.isNone_iff_eq_none] at hdefining
    rw [hdefining]
    exact h.set_pool trivial
  | some d =>
    rw [hopen, Option.isSome_some, Option.isSome_iff_exists] at hdefining
    obtain ⟨d', hd'⟩ := hdefining
    rw [hd']
    exact (h.set_pool trivial).record rfl

theorem exportLabel (h : Alike P r r') (done : List Text) {t t' : Token} (ht : t.Alike t') :
    Alike P (Reading.exportLabel (r, done) t).1 (Reading.exportLabel (r', done) t').1 ∧
      (Reading.exportLabel (r', done) t').2 = (Reading.exportLabel (r, done) t).2 := by
  unfold Reading.exportLabel
  simp only [ht.text, h.labels, h.global]
  split
  · exact ⟨h, rfl⟩
  · cases r.labels.lookup t.text with
    | none => exact ⟨h.report rfl, rfl⟩
    | some symbol =>
      simp only
      cases r.global.add symbol with
      | error e => exact ⟨h.report rfl, rfl⟩
      | ok global => exact ⟨{ h with labels := rfl, global := rfl }, rfl⟩

theorem exportLabels (h : Alike P r r') : Alike P r.exportLabels r'.exportLabels := by
  have hall {ts ts' : List Token} (hts : List.Forall₂ Token.Alike ts ts') {r r' : Reading}
      (h : Alike P r r') (done : List Text) :
      Alike P (ts.foldl Reading.exportLabel (r, done)).1
        (ts'.foldl Reading.exportLabel (r', done)).1 := by
    induction hts generalizing r r' done with
    | nil => exact h
    | cons ht _ ih =>
      rw [List.foldl_cons, List.foldl_cons]
      obtain ⟨hstep, hdone⟩ := h.exportLabel done ht
      generalize Reading.exportLabel (r, done) _ = q, Reading.exportLabel (r', done) _ = q'
        at hstep hdone
      obtain ⟨r, done⟩ := q
      obtain ⟨r', done'⟩ := q'
      obtain rfl : done' = done := hdone
      exact ih hstep done'
  exact hall h.exported h []

theorem finish (h : Alike P r r') (hdefining : r'.pool.isDefining = r.pool.isDefining) (name : Text) :
    (r.finish name).1.Alike (r'.finish name).1 ∧ (r.finish name).2.Alike (r'.finish name).2 := by
  have hclosed := (h.closeDefinition hdefining name).exportLabels
  unfold Reading.finish
  simp only
  generalize (r.closeDefinition name).exportLabels = r₁,
    (r'.closeDefinition name).exportLabels = r₁' at hclosed
  obtain ⟨hpatched, hleft⟩ := hclosed.toSession.patchAll r₁.labels hclosed.pending
  rw [hclosed.labels]
  exact ⟨hpatched, rfl, rfl, hclosed.parsed, hleft⟩

end Reading.Alike

/-! ### Files that are the same -/

/-- All lines stay where they are. -/
def Renumbering.same : Renumbering where
  place := id
  kept _ := True
  fresh _ := False
  counted := True
  place_lt _ _ := Iff.rfl
  not_fresh _ := id

theorem Renumbering.at_same (n i : Int) : same.At n i := by
  have hsteady (a b : Int) : same.Steady a b := by
    intro i _ _
    refine ⟨trivial, ?_⟩
    show i = a + (i - a)
    omega
  exact ⟨trivial, hsteady i n, fun a _ => hsteady a i⟩

theorem LineReading.plain_same (v : LineReading) : v.Plain .same :=
  ⟨fun _ _ => trivial, fun _ _ n => Renumbering.at_same n v.index⟩

theorem Scope.moved_same (s : Scope) : s.Moved .same s := by
  refine ⟨rfl, rfl, rfl, ?_⟩
  intro i _ l hl
  refine ⟨l, hl, .refl l, trivial, ?_⟩
  show l.source.line = l.source.line - 1 + 1
  omega

theorem Session.exists_of_readFile {session next : Session} {s : Scope} {name : Text} {u : SourceUnit}
    (h : session.readFile s name = .ok (next, u)) (hclean : next.log.hasErrors = false) :
    ∃ stop, Reading.readLines s (.start session name) = .ok stop ∧ stop.finish name = (next, u) ∧
      stop.log.hasErrors = false := by
  unfold readFile at h
  cases hstop : Reading.readLines s (.start session name) with
  | error fault =>
    rw [hstop] at h
    cases h
  | ok stop =>
    rw [hstop] at h
    have hfinish : stop.finish name = (next, u) := Except.ok.inj h
    refine ⟨stop, rfl, hfinish, ?_⟩
    have hnext : next = (stop.finish name).1 := by rw [hfinish]
    rw [hnext] at hclean
    rw [← (Reading.finishes_of_clean hclean).log]
    exact hclean

namespace Session.Alike

variable {session session' : Session}

theorem start (h : session.Alike session') (name : Text) {P : MacroPool → MacroPool → Prop}
    (hpool : P { file := name } { file := name }) :
    (Reading.start session name).Alike P (.start session' name) where
  image := h.image
  global := h.global
  log := h.log
  cursors := congrArg Cursors.startFile h.cursors
  labels := rfl
  pool := hpool
  exported := .nil
  pending := .nil
  parsed := .nil

theorem readFile (h : session.Alike session') (s : Scope) (name : Text) {next : Session}
    {u : SourceUnit} (hread : session.readFile s name = .ok (next, u))
    (hclean : next.log.hasErrors = false) :
    ∃ next' u', session'.readFile s name = .ok (next', u') ∧ next.Alike next' ∧ u.Alike u' := by
  obtain ⟨stop, hstop, hfinish, hstopClean⟩ := exists_of_readFile hread hclean
  have hstart : Reading.InStep .same ((0 : Nat) : Int) s s (.start session name)
      (.start session' name) :=
    ⟨h.start name (MacroPool.Moved.fresh name), s.fits_start session name, s.fits_start session' name⟩
  have hplace (j : Nat) (_ : j < s.lines.toList.length) :
      Renumbering.same.kept ((0 + j : Nat) : Int) ∧
        Renumbering.same.place ((0 + j : Nat) : Int) = ((0 + j : Nat) : Int) := ⟨trivial, rfl⟩
  obtain ⟨stop', n, hstop', hstops⟩ := s.moved_same.exists_readLines rfl (fun _ hp => hp)
    (fun _ hp => hp) hplace hstart (fun w _ => w.plain_same) hstop hstopClean
  obtain ⟨hnext, hunit⟩ := hstops.alike.finish hstops.alike.pool.isDefining name
  rw [hfinish] at hnext hunit
  refine ⟨(stop'.finish name).1, (stop'.finish name).2, ?_, hnext, hunit⟩
  show (Reading.readLines s (.start session' name)).map _ = _
  rw [Scope.readLines_eq, hstop']
  rfl

end Session.Alike

/-! ### Files one after the other -/

namespace Session

/-- The readings of files, each from the session that those before it leave. -/
def readings (session : Session) (config : Config) (isa : Registry) (unit : Nat) :
    List (Text × Array TokenLine) → List LineReading
  | [] => []
  | (name, lines) :: rest =>
    if session.log.exceeded then []
    else
      Scope.readings ⟨config, isa, unit, lines⟩ (.start session name) ++
        match session.readFile ⟨config, isa, unit, lines⟩ name with
        | .ok (session, _) => session.readings config isa (unit + 1) rest
        | .error _ => []

variable {config : Config} {isa : Registry}

theorem exists_of_readFiles_cons {session last : Session} {unit : Nat} {name : Text}
    {lines : Array TokenLine} {rest : List (Text × Array TokenLine)} {units : List SourceUnit}
    (h : session.readFiles config isa unit ((name, lines) :: rest) = .ok (last, units))
    (hclean : last.log.hasErrors = false) :
    session.log.hasErrors = false ∧ ∃ next u us,
      session.readFile ⟨config, isa, unit, lines⟩ name = .ok (next, u) ∧
      next.log.hasErrors = false ∧
      next.readFiles config isa (unit + 1) rest = .ok (last, us) ∧ units = u :: us ∧
      session.readings config isa unit ((name, lines) :: rest)
        = Scope.readings ⟨config, isa, unit, lines⟩ (.start session name) ++
          next.readings config isa (unit + 1) rest := by
  have hsession := (reads_of_readFiles h hclean).2
  have hroom : ¬session.log.exceeded = true := by
    rw [Log.exceeded_of_hasErrors_eq_false hsession]
    decide
  rw [readFiles, if_neg hroom] at h
  obtain ⟨⟨next, u⟩, hfile, h⟩ := exists_of_bind_eq_ok h
  obtain ⟨⟨last', us⟩, hrest, h⟩ := exists_of_bind_eq_ok h
  cases h
  refine ⟨hsession, next, u, us, hfile, (reads_of_readFiles hrest hclean).2, hrest, rfl, ?_⟩
  rw [readings, if_neg hroom, hfile]

theorem readFiles_cons {session next last : Session} {unit : Nat} {name : Text}
    {lines : Array TokenLine} {rest : List (Text × Array TokenLine)} {u : SourceUnit}
    {us : List SourceUnit} (hclean : session.log.hasErrors = false)
    (hfile : session.readFile ⟨config, isa, unit, lines⟩ name = .ok (next, u))
    (hrest : next.readFiles config isa (unit + 1) rest = .ok (last, us)) :
    session.readFiles config isa unit ((name, lines) :: rest) = .ok (last, u :: us) := by
  have hroom : ¬session.log.exceeded = true := by
    rw [Log.exceeded_of_hasErrors_eq_false hclean]
    decide
  rw [readFiles, if_neg hroom, hfile]
  simp only [bind, Except.bind, hrest]
  rfl

theorem le_unit_of_mem_readings {session : Session} {unit : Nat}
    {files : List (Text × Array TokenLine)} {v : LineReading}
    (hv : v ∈ session.readings config isa unit files) : unit ≤ v.scope.unit := by
  induction files generalizing session unit with
  | nil => cases hv
  | cons file files ih =>
    obtain ⟨name, lines⟩ := file
    rw [readings] at hv
    split at hv
    · cases hv
    · rcases List.mem_append.1 hv with hv | hv
      · rw [(Scope.proper_of_mem_readings hv).2]
      · split at hv
        · exact Nat.le_of_succ_le (ih hv)
        · cases hv

theorem Alike.readFiles {session session' last : Session} (h : session.Alike session') {unit : Nat}
    {files : List (Text × Array TokenLine)} {units : List SourceUnit}
    (hread : session.readFiles config isa unit files = .ok (last, units))
    (hclean : last.log.hasErrors = false) :
    ∃ last' units', session'.readFiles config isa unit files = .ok (last', units') ∧
      last.Alike last' ∧ List.Forall₂ SourceUnit.Alike units units' := by
  induction files generalizing session session' unit units with
  | nil =>
    cases hread
    exact ⟨session', [], rfl, h, .nil⟩
  | cons file files ih =>
    obtain ⟨name, lines⟩ := file
    obtain ⟨hsession, next, u, us, hfile, hnext, hrest, rfl, -⟩ := exists_of_readFiles_cons hread hclean
    obtain ⟨next', u', hfile', hnexts, hu⟩ := h.readFile _ name hfile hnext
    obtain ⟨last', us', hrest', hlast, hus⟩ := ih hnexts hrest
    have hsession' : session'.log.hasErrors = false := by rw [h.log.hasErrors, hsession]
    exact ⟨last', u' :: us', readFiles_cons hsession' hfile' hrest', hlast, .cons hu hus⟩

/-- The reading of one file among others, and what comes of another file in its place that leaves an
alike session. -/
theorem exists_of_readFiles {session last : Session} {unit : Nat}
    {before after : List (Text × Array TokenLine)} {name : Text} {lines : Array TokenLine}
    {units : List SourceUnit}
    (hread : session.readFiles config isa unit (before ++ (name, lines) :: after)
      = .ok (last, units)) (hclean : last.log.hasErrors = false) :
    ∃ middle next u,
      (∀ w, w ∈ Scope.readings ⟨config, isa, unit + before.length, lines⟩ (.start middle name) ↔
        w ∈ session.readings config isa unit (before ++ (name, lines) :: after) ∧
          w.scope.unit = unit + before.length) ∧
      middle.readFile ⟨config, isa, unit + before.length, lines⟩ name = .ok (next, u) ∧
      next.log.hasErrors = false ∧
      ∀ lines' next' u', middle.readFile ⟨config, isa, unit + before.length, lines'⟩ name
          = .ok (next', u') → next.Alike next' → u.Alike u' →
        ∃ last' units', session.readFiles config isa unit (before ++ (name, lines') :: after)
            = .ok (last', units') ∧ last.Alike last' ∧ List.Forall₂ SourceUnit.Alike units units' := by
  induction before generalizing session unit units with
  | nil =>
    obtain ⟨hsession, next, u, us, hfirst, hnext, hrest, rfl, hreadings⟩ :=
      exists_of_readFiles_cons hread hclean
    refine ⟨session, next, u, ?_, hfirst, hnext, ?_⟩
    · intro w
      show _ ↔ w ∈ session.readings config isa unit ((name, lines) :: after) ∧ w.scope.unit = unit
      rw [hreadings, List.mem_append]
      constructor
      · intro hw
        exact ⟨.inl hw, by rw [(Scope.proper_of_mem_readings hw).2]; rfl⟩
      · rintro ⟨hw | hw, hunit⟩
        · exact hw
        · -- The files after this one have later units.
          have hlater := le_unit_of_mem_readings hw
          omega
    · intro lines' next' u' hfirst' hnexts hu
      obtain ⟨last', us', hrest', hlast, hus⟩ := hnexts.readFiles hrest hclean
      exact ⟨last', u' :: us', readFiles_cons hsession hfirst' hrest', hlast, .cons hu hus⟩
  | cons first before ih =>
    obtain ⟨own, ownLines⟩ := first
    rw [List.cons_append] at hread
    obtain ⟨hsession, next, u, us, hfirst, hnext, hrest, rfl, hreadings⟩ :=
      exists_of_readFiles_cons hread hclean
    have hunit : unit + ((own, ownLines) :: before).length = unit + 1 + before.length := by
      rw [List.length_cons]
      omega
    obtain ⟨middle, next', u', hown, hfile, hnext', hreplace⟩ := ih hrest
    rw [hunit]
    refine ⟨middle, next', u', ?_, hfile, hnext', ?_⟩
    · intro w
      rw [hown, List.cons_append, hreadings, List.mem_append]
      refine and_congr_left fun hplace => (or_iff_right fun hw => ?_).symm
      rw [(Scope.proper_of_mem_readings hw).2] at hplace
      simp only at hplace
      omega
    · intro lines' next'' u'' hfile' hnexts hu
      obtain ⟨last', us', hrest', hlast, hus⟩ := hreplace lines' next'' u'' hfile' hnexts hu
      exact ⟨last', u :: us', readFiles_cons hsession hfirst hrest', hlast, .cons (.refl u) hus⟩

end Session

end Rv32Assembler
