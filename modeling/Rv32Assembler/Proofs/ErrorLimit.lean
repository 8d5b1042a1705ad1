import Rv32Assembler.Isa.Rv32im
import Rv32Assembler.Proofs.Run
import Rv32Assembler.Proofs.Tokenizing
import Rv32Assembler.Proofs.Truncation
/-!
# The error limit

The limit of errors only truncates what a run reports. Whether a run succeeds and what it makes does
not depend on it; and the messages of a run that stays within its limit are those of a run with any
other limit, up to the error that exceeds the latter (`assemble_of_limit`).
-/

namespace Rv32Assembler

open Logged

variable {k : Nat}

theorem exists_of_map_eq_ok {ε α β : Type} {x : Except ε α} {f : α → β} {b : β}
    (h : x.map f = .ok b) : ∃ a, x = .ok a ∧ f a = b := by
  cases x with
  | error e => cases h
  | ok a => exact ⟨a, rfl, Except.ok.inj h⟩

/-! ### The end of a file -/

namespace Session

theorem blind_record (m : Message) : Blind k fun s : Session => s.record m where
  cut_eq s hk := congrArg (fun l => { s with log := l }) (Log.cut_add hk m).symm
  exists_log _ := ⟨[m], rfl⟩

theorem blind_patch (item : Pending) (symbol : Symbol) :
    Blind k fun s : Session => s.patch item symbol where
  cut_eq s hk := by
    unfold patch
    change stored _ _ _ (s.image.store item.address symbol.address.toNat item.width) = _
    generalize s.image.store item.address symbol.address.toNat item.width = outcome
    obtain ⟨image, _ | e⟩ := outcome
    · rfl
    · exact (blind_record _).cut_eq { s with image := image } hk
  exists_log s := Reading.stored_log s item.token [] _

theorem blind_patchKnown (known : Pending → Option Symbol) (pending : List Pending) :
    Blind k fun s : Session => s.patchKnown known pending := by
  apply Blind.foldl
  intro item
  cases known item with
  | none => exact ⟨fun _ _ => rfl, fun _ => ⟨[], rfl⟩⟩
  | some symbol => exact blind_patch item symbol

theorem blind_patchAll (labels : SymbolTable) (pending : List Pending) :
    Blind k fun s : Session => s.patchAll labels pending where
  cut_eq s hk := by
    rw [patchAll_eq, patchAll_eq]
    exact congrArg (·, _) ((blind_patchKnown _ pending).cut_eq s hk)
  exists_log s := (blind_patchKnown (k := k) _ pending).exists_log s

theorem blind_patchEach (units : List SourceUnit) :
    Blind k fun p : Session × List Pending => p.1.patchEach p.2 units := by
  apply Blind.foldl
  intro u
  refine ⟨fun p hk => ?_, fun p => (blind_patchAll (k := k) u.labels u.pending).exists_log p.1⟩
  exact congrArg (fun q : Session × List Pending => (q.1, p.2 ++ q.2))
    ((blind_patchAll u.labels u.pending).cut_eq p.1 hk)

theorem blind_patchUnits (units : List SourceUnit) :
    Blind k fun s : Session => s.patchUnits units := by
  have hstart : Blind k fun s : Session => (s, ([] : List Pending)) :=
    ⟨fun _ _ => rfl, fun _ => ⟨[], rfl⟩⟩
  have hrecord (missing : List Pending) : Blind k fun s : Session => missing.foldl (fun s item =>
      s.record ((Problem.undefinedSymbol item.token.text).about item.token [])) s :=
    Blind.foldl (fun item => blind_record _) missing
  exact (Blind.uncurry hrecord).comp ((blind_patchEach units).comp hstart)

end Session

namespace Reading

theorem blind_report (note : Text) (t : Token) (p : Problem) :
    Blind k fun r : Reading => r.report note t p :=
  ⟨fun _ hk => report_cut hk note t p, fun _ => ⟨[_], rfl⟩⟩

theorem blind_exportLabel (t : Token) :
    Blind k fun state : Reading × List Text => exportLabel state t where
  cut_eq state hk := by
    obtain ⟨r, done⟩ := state
    have hreport (p : Problem) := ((blind_report [] t p).pair done).cut_eq r hk
    have hlookup : (cut k r).labels.lookup t.text = r.labels.lookup t.text := rfl
    change exportLabel (cut k r, done) t = _
    unfold exportLabel
    dsimp only
    rw [hlookup, global_cut]
    split
    · rfl
    · cases r.labels.lookup t.text with
      | none => exact hreport _
      | some symbol =>
        dsimp only
        cases r.global.add symbol with
        | error e => exact hreport _
        | ok global => rfl
  exists_log state := by
    unfold exportLabel
    dsimp only
    split
    · exact ⟨[], rfl⟩
    · split
      · exact ⟨[_], rfl⟩
      · split
        · exact ⟨[_], rfl⟩
        · exact ⟨[], rfl⟩

theorem blind_exportLabels : Blind k fun r : Reading => r.exportLabels where
  cut_eq r hk :=
    congrArg Prod.fst ((Blind.foldl (fun t => blind_exportLabel t) r.exported).cut_eq (r, []) hk)
  exists_log r := (Blind.foldl (k := k) (fun t => blind_exportLabel t) r.exported).exists_log (r, [])

theorem blind_closeDefinition (name : Text) :
    Blind k fun r : Reading => r.closeDefinition name where
  cut_eq r hk := by
    unfold closeDefinition
    rw [pool_cut]
    generalize r.pool.abandon = abandoned
    obtain ⟨definition, pool⟩ := abandoned
    cases definition with
    | none => rfl
    | some m => exact congrArg ({ r with pool := pool } : Reading).withLog (Log.cut_add hk _).symm
  exists_log r := by
    unfold closeDefinition
    dsimp only
    split
    · exact ⟨[_], rfl⟩
    · exact ⟨[], rfl⟩

theorem blind_finish (name : Text) : Blind k fun r : Reading => r.finish name := by
  have hpatch : Blind k fun r : Reading => ((r.toSession.patchAll r.labels r.pending).1,
      (⟨name, r.labels, r.parsed, (r.toSession.patchAll r.labels r.pending).2⟩ : SourceUnit)) :=
    ⟨fun r hk => congrArg (fun q : Session × List Pending => (q.1, SourceUnit.mk name r.labels
        r.parsed q.2)) ((Session.blind_patchAll r.labels r.pending).cut_eq r.toSession hk),
      fun r => (Session.blind_patchAll (k := k) r.labels r.pending).exists_log r.toSession⟩
  exact hpatch.comp (blind_exportLabels.comp (blind_closeDefinition name))

end Reading

/-! ### Files -/

theorem Scope.exists_log_of_readNext {s : Scope} {r r' : Reading} {p : TokenLine × Nat}
    (h : s.readNext r p = .ok r') : ∃ ms, r'.log = r.log.addAll ms := by
  unfold Scope.readNext at h
  split at h
  · cases h
    exact ⟨[], rfl⟩
  · exact LineReading.exists_log_of_result (v := ⟨s, [], p.2, p.1, r⟩) h

theorem Scope.readNext_of_exceeded (s : Scope) {r : Reading} (p : TokenLine × Nat)
    (h : r.log.exceeded = true) : s.readNext r p = .ok r := by
  rw [Scope.readNext, if_pos h]

theorem follows_readLines (s : Scope) (limit : Int) {r : Reading} (hk : k ≤ r.log.limit) :
    Follows k (Reading.readLines s r) (Reading.readLines (s.withLimit limit) (cut k r)) := by
  rw [Scope.readLines_eq, Scope.readLines_eq]
  apply Follows.foldlM
  · exact fun r p r' h => Scope.exists_log_of_readNext h
  · exact fun r p h => Scope.readNext_of_exceeded _ p h
  · intro r p _ hle hroom
    have hroom' : r.log.exceeded = false := Log.exceeded_of_cut hle hroom
    have hroom'' : (cut k r).log.exceeded = false := hroom
    rw [Scope.readNext, Scope.readNext, hroom', hroom'']
    exact LineReading.follows_result ⟨s, [], p.2, p.1, r⟩ hle limit
  · exact trails_cut hk

theorem follows_readFile (s : Scope) (limit : Int) (name : Text) {session : Session}
    (hk : k ≤ session.log.limit) :
    Follows k (session.readFile s name) ((cut k session).readFile (s.withLimit limit) name) :=
  (follows_readLines s limit (r := .start session name) hk).map (Reading.blind_finish name)

namespace Session

theorem exists_log_of_readFile {session : Session} {s : Scope} {name : Text}
    {p : Session × SourceUnit} (h : session.readFile s name = .ok p) :
    ∃ ms, p.1.log = session.log.addAll ms := by
  obtain ⟨r, hread, rfl⟩ := exists_of_map_eq_ok h
  obtain ⟨ms, hms⟩ := s.exists_performAll_log (.start session name)
    (Reading.fileActions s (.start session name))
  rw [← Reading.readLines_eq s hread] at hms
  obtain ⟨more, hmore⟩ := (Reading.blind_finish (k := 0) name).exists_log r
  refine ⟨ms ++ more, hmore.trans ?_⟩
  rw [← Log.addAll_addAll]
  exact congrArg (·.addAll more) hms

theorem readFiles_of_exceeded {session : Session} (h : session.log.exceeded = true) (config : Config)
    (isa : Registry) (unit : Nat) (files : List (Text × Array TokenLine)) :
    session.readFiles config isa unit files = .ok (session, []) := by
  cases files with
  | nil => rfl
  | cons f files => rw [readFiles, if_pos h]

theorem readFiles_cons_of_room {session : Session} (h : session.log.exceeded = false) (config : Config)
    (isa : Registry) (unit : Nat) (f : Text × Array TokenLine)
    (files : List (Text × Array TokenLine)) :
    session.readFiles config isa unit (f :: files)
      = session.readFile ⟨config, isa, unit, f.2⟩ f.1 >>= fun p =>
          (p.1.readFiles config isa (unit + 1) files).map fun q => (q.1, p.2 :: q.2) := by
  rw [readFiles, h]
  cases session.readFile ⟨config, isa, unit, f.2⟩ f.1 with
  | error fault => rfl
  | ok p =>
    change (p.1.readFiles config isa (unit + 1) files >>= _) = Except.map _ _
    cases p.1.readFiles config isa (unit + 1) files <;> rfl

theorem exists_log_of_readFiles {session : Session} {config : Config} {isa : Registry} {unit : Nat}
    {files : List (Text × Array TokenLine)} {p : Session × List SourceUnit}
    (h : session.readFiles config isa unit files = .ok p) :
    ∃ ms, p.1.log = session.log.addAll ms := by
  induction files generalizing session unit p with
  | nil =>
    cases h
    exact ⟨[], rfl⟩
  | cons f files ih =>
    cases hroom : session.log.exceeded with
    | true =>
      rw [readFiles_of_exceeded hroom] at h
      cases h
      exact ⟨[], rfl⟩
    | false =>
      rw [readFiles_cons_of_room hroom] at h
      cases hfile : session.readFile ⟨config, isa, unit, f.2⟩ f.1 with
      | error fault =>
        rw [hfile] at h
        cases h
      | ok q =>
        rw [hfile] at h
        obtain ⟨rest, hrest, rfl⟩ := exists_of_map_eq_ok h
        obtain ⟨ms, hms⟩ := exists_log_of_readFile hfile
        obtain ⟨more, hmore⟩ := ih hrest
        exact ⟨ms ++ more, by rw [hmore, hms, Log.addAll_addAll]⟩

end Session

theorem Logged.Trails.fst {β α : Type} [Logged β] {p p' : β × α} (h : Trails k p p') :
    Trails k p.1 p'.1 := ⟨h.le, h.log_eq, fun hroom => congrArg Prod.fst (h.eq_cut hroom)⟩

theorem follows_readFiles (config : Config) (isa : Registry) (limit : Int) (unit : Nat)
    (files : List (Text × Array TokenLine)) {session session' : Session}
    (h : Trails k session session') :
    Follows k (session.readFiles config isa unit files)
      (session'.readFiles { config with errorLimit := limit } isa unit files) := by
  induction files generalizing session session' unit with
  | nil => exact .ok (h.map (f := fun s => (s, [])) ⟨fun _ _ => rfl, fun _ => ⟨[], rfl⟩⟩)
  | cons f files ih =>
    apply Follows.step h
    · exact fun p hp => Session.exists_log_of_readFiles hp
    · exact fun hfull => ⟨_, Session.readFiles_of_exceeded hfull _ isa unit _, rfl⟩
    · rintro hroom rfl
      rw [Session.readFiles_cons_of_room (Log.exceeded_of_cut h.le hroom),
        Session.readFiles_cons_of_room hroom]
      apply Follows.bind
      · exact follows_readFile ⟨config, isa, unit, f.2⟩ limit f.1 h.le
      · intro p p' htrails
        -- A run that is full after this file reads none of the others.
        apply Follows.step htrails
        · intro q hq
          obtain ⟨rest, hrest, rfl⟩ := exists_of_map_eq_ok hq
          obtain ⟨ms, hms⟩ := Session.exists_log_of_readFiles hrest
          exact ⟨ms, hms⟩
        · intro hfull
          rw [Session.readFiles_of_exceeded hfull]
          exact ⟨_, rfl, rfl⟩
        · rintro - rfl
          have hrest := ih (unit + 1) htrails.fst
          exact hrest.map (f := fun q => (q.1, p.2 :: q.2)) ⟨fun _ _ => rfl, fun _ => ⟨[], rfl⟩⟩
      · intro p' hfull q' hq'
        rw [Session.readFiles_of_exceeded hfull] at hq'
        cases hq'
        exact hfull

/-! ### Tokens -/

theorem exists_tokenizeLines (v : Vocabulary) (es : Equivalences) (lines : List SourceLine) :
    ∃ tokens ms, ∀ log : Log, v.tokenizeLines es log lines = (tokens, log.addAll ms) := by
  induction lines generalizing es with
  | nil => exact ⟨[], [], fun _ => rfl⟩
  | cons line lines ih =>
    simp only [Vocabulary.tokenizeLines]
    generalize v.tokenizeUnder es line = tokenized
    obtain ⟨l, problems⟩ := tokenized
    cases l.definition es with
    | ok defined =>
      obtain ⟨tokens, ms, hrest⟩ := ih (es ++ defined.toList)
      refine ⟨l :: tokens, lexicalMessages [] problems ++ ms, fun log => ?_⟩
      simp only [hrest, Log.addAll_addAll]
    | error mistake =>
      obtain ⟨t, error⟩ := mistake
      obtain ⟨tokens, ms, hrest⟩ := ih es
      refine ⟨l :: tokens, lexicalMessages [] problems ++ .ofToken t error.message false [] :: ms,
        fun log => ?_⟩
      simp only [hrest]
      rw [← Log.addAll_addAll]
      rfl

theorem exists_tokenizeFiles_eq (v : Vocabulary) (files : List SourceFile) :
    ∃ tokenized ms, ∀ log : Log, tokenizeFiles v log files = (log.addAll ms, tokenized) := by
  induction files with
  | nil => exact ⟨[], [], fun _ => rfl⟩
  | cons f files ih =>
    obtain ⟨tokens, ms, hlines⟩ := exists_tokenizeLines v [] f.lines
    obtain ⟨tokenized, more, hfiles⟩ := ih
    refine ⟨(f.name, tokens.toArray) :: tokenized, f.messages ++ (ms ++ more), fun log => ?_⟩
    simp only [tokenizeFiles, Vocabulary.tokenizeFile, hlines, hfiles, Log.addAll_addAll]
    rw [List.append_assoc]

/-! ### Passes -/

/-- The number of errors that a run holds before it stops. -/
def Config.heldErrors (c : Config) : Nat := (Log.ofLimit c.errorLimit).limit

def Config.withLimit (c : Config) (limit : Int) : Config := { c with errorLimit := limit }

theorem firstPass_eq {isa : Registry} {files : List SourceFile} {ms : List Message}
    {tokenized : List (Text × Array TokenLine)}
    (h : ∀ log, tokenizeFiles (isa.vocabulary true) log files = (log.addAll ms, tokenized))
    (c : Config) :
    firstPass c isa files
      = ({ Session.ofConfig c with log := (Session.ofConfig c).log.addAll ms }.readFiles c isa 0
          tokenized).map fun p : Session × List SourceUnit => (p.1.patchUnits p.2, p.2) := by
  unfold firstPass
  simp only [h]
  cases Session.readFiles _ c isa 0 tokenized <;> rfl

theorem follows_firstPass (config : Config) (isa : Registry) (files : List SourceFile) (limit : Int)
    (hk : (config.withLimit limit).heldErrors ≤ config.heldErrors) :
    Follows (config.withLimit limit).heldErrors (firstPass config isa files)
      (firstPass (config.withLimit limit) isa files) := by
  obtain ⟨tokenized, ms, htokens⟩ := exists_tokenizeFiles_eq (isa.vocabulary true) files
  have hlog : (Log.ofLimit limit).addAll ms
      = ((Log.ofLimit config.errorLimit).addAll ms).cut (config.withLimit limit).heldErrors := by
    rw [Log.cut_addAll hk]
    rfl
  have hstart : Trails (config.withLimit limit).heldErrors
      { Session.ofConfig config with log := (Log.ofLimit config.errorLimit).addAll ms }
      { Session.ofConfig (config.withLimit limit) with log := (Log.ofLimit limit).addAll ms } := by
    rw [hlog]
    apply trails_cut
    exact hk.trans (Log.limit_addAll _ _).ge
  rw [firstPass_eq htokens, firstPass_eq htokens]
  exact (follows_readFiles config isa limit 0 tokenized hstart).map
    (Blind.uncurry fun units => (Session.blind_patchUnits units).pair units)

namespace SourceUnit

variable (u : SourceUnit) (isa : Registry) (global : SymbolTable)

theorem resolveStep_of_exceeded {p : Log × List MachineStatement} (h : p.1.exceeded = true)
    (s : Statement) : u.resolveStep isa global p s = .ok p := by
  rw [resolveStep, if_pos h]

theorem exists_log_of_resolveStep {p q : Log × List MachineStatement} {s : Statement}
    (h : u.resolveStep isa global p s = .ok q) : ∃ ms, q.1 = p.1.addAll ms := by
  obtain ⟨log, machine⟩ := p
  simp only [resolveStep] at h
  split at h
  · cases h
    exact ⟨[], rfl⟩
  · split at h
    · cases h
      exact ⟨[], rfl⟩
    · cases h
    · cases h
      exact ⟨[_], rfl⟩

theorem exists_log_of_foldlM {p q : Log × List MachineStatement} {statements : List Statement}
    (h : statements.foldlM (u.resolveStep isa global) p = .ok q) : ∃ ms, q.1 = p.1.addAll ms := by
  induction statements generalizing p with
  | nil =>
    cases h
    exact ⟨[], rfl⟩
  | cons s statements ih =>
    rw [List.foldlM_cons] at h
    cases hs : u.resolveStep isa global p s with
    | error fault =>
      rw [hs] at h
      cases h
    | ok middle =>
      rw [hs] at h
      obtain ⟨ms, hms⟩ := exists_log_of_resolveStep u isa global hs
      obtain ⟨more, hmore⟩ := ih h
      exact ⟨ms ++ more, by rw [hmore, hms, Log.addAll_addAll]⟩

theorem resolve_of_exceeded {log : Log} (h : log.exceeded = true) :
    u.resolve isa global log = .ok (log, []) := by
  rw [resolve_eq]
  induction u.parsed with
  | nil => rfl
  | cons s statements ih =>
    rw [List.foldlM_cons, resolveStep_of_exceeded u isa global h]
    exact ih

theorem follows_resolve {log : Log} (hk : k ≤ log.limit) :
    Follows k (u.resolve isa global log) (u.resolve isa global (log.cut k)) := by
  rw [resolve_eq, resolve_eq]
  apply Follows.foldlM
  · exact fun p s q h => exists_log_of_resolveStep u isa global h
  · exact fun p s h => resolveStep_of_exceeded u isa global h s
  · intro p s _ hle hroom
    have hroom' : p.1.exceeded = false := Log.exceeded_of_cut hle hroom
    have hroom'' : (cut k p).1.exceeded = false := hroom
    rw [resolveStep, resolveStep, hroom', hroom'']
    cases s.resolve isa ⟨u.labels, global⟩ with
    | ok statements => exact .ok ((trails_cut hle).map (f := fun p => (p.1, p.2 ++ statements))
        ⟨fun _ _ => rfl, fun _ => ⟨[], rfl⟩⟩)
    | error refusal =>
      cases refusal with
      | fault f => exact .error f f
      | problem t problem =>
        refine .ok ((trails_cut hle).map (f := fun p => (p.1.add (problem.about t s.note), p.2))
          ⟨fun p hk => ?_, fun _ => ⟨[_], rfl⟩⟩)
        exact congrArg (·, p.2) (Log.cut_add hk _).symm
  · exact trails_cut (b := (log, [])) hk

end SourceUnit

theorem resolveUnitStep_eq (isa : Registry) (global : SymbolTable) (p : Log × List MachineStatement)
    (u : SourceUnit) :
    resolveUnitStep isa global p u
      = (u.resolve isa global p.1).map fun q => (q.1, p.2 ++ q.2) := by
  obtain ⟨log, machine⟩ := p
  change (u.resolve isa global log >>= _) = _
  cases u.resolve isa global log <;> rfl

theorem follows_resolveUnits (isa : Registry) (global : SymbolTable) (units : List SourceUnit)
    {log : Log} (hk : k ≤ log.limit) :
    Follows k (resolveUnits isa global log units) (resolveUnits isa global (log.cut k) units) := by
  rw [resolveUnits_eq, resolveUnits_eq]
  apply Follows.foldlM
  · intro p u q h
    rw [resolveUnitStep_eq] at h
    obtain ⟨r, hr, rfl⟩ := exists_of_map_eq_ok h
    obtain ⟨ms, hms⟩ := u.exists_log_of_foldlM isa global hr
    exact ⟨ms, hms⟩
  · intro p u h
    have hfull : p.1.exceeded = true := h
    rw [resolveUnitStep_eq, u.resolve_of_exceeded isa global hfull]
    exact congrArg (fun ms => Except.ok (p.1, ms)) (List.append_nil p.2)
  · intro p u _ hle _
    rw [resolveUnitStep_eq, resolveUnitStep_eq]
    exact (u.follows_resolve isa global hle).map (f := fun q => (q.1, p.2 ++ q.2))
      ⟨fun _ _ => rfl, fun _ => ⟨[], rfl⟩⟩
  · exact trails_cut (b := (log, [])) hk

theorem MachineStatement.blind_place (m : MachineStatement) :
    Blind k fun s : Session => m.place s where
  cut_eq s hk := by
    unfold place
    change Session.stored _ _ _ (s.image.storeStatement m.address m.code m) = _
    generalize s.image.storeStatement m.address m.code m = outcome
    obtain ⟨image, _ | e⟩ := outcome
    · rfl
    · exact (Session.blind_record _).cut_eq { s with image := image } hk
  exists_log s := Reading.stored_log s m.operator m.note _

theorem Session.blind_generate (machine : List MachineStatement) :
    Blind k fun s : Session => s.generate machine := by
  have hclashes (ms : List Message) : Blind k fun s : Session => { s with log := s.log.addAll ms } :=
    ⟨fun s hk => congrArg (fun l => { s with log := l }) (Log.cut_addAll hk ms).symm,
      fun _ => ⟨ms, rfl⟩⟩
  have hplace : Blind k fun s : Session => machine.foldl (fun s m => m.place s) s :=
    Blind.foldl (fun m => m.blind_place) machine
  exact ((hclashes _).comp hplace).pair _

/-- The log of a run that came to an end. -/
def outcomeLog : Except Log Program → Log
  | .error l => l
  | .ok p => p.log

instance : Logged (Except Log Program) where
  log := outcomeLog
  withLog
    | .error _, l => .error l
    | .ok p, l => .ok { p with log := l }
  log_withLog outcome _ := by cases outcome <;> rfl

/-- What a run comes to in the end. -/
def Session.outcome (s : Session) (config : Config) (units : List SourceUnit)
    (statements : List MachineStatement) : Except Log Program :=
  if s.log.hasErrors || (config.warningsAreErrors && s.log.hasWarnings) then .error s.log
  else .ok (s.program config units statements)

theorem Session.blind_outcome (config : Config) (units : List SourceUnit)
    (statements : List MachineStatement) :
    Blind k fun s : Session => s.outcome config units statements where
  cut_eq s _ := by
    have herrors : (cut k s).log.hasErrors = s.log.hasErrors := Log.hasErrors_cut k s.log
    unfold outcome
    rw [herrors]
    cases hclean : s.log.hasErrors with
    | true => rfl
    | false =>
      have hnone : s.log.errorCount = 0 := by simpa [Log.hasErrors] using hclean
      have hcut : (cut k s).log = ⟨k, s.log.messages⟩ :=
        Log.cut_of_le (l := s.log) (by omega)
      have hwarnings : (cut k s).log.hasWarnings = s.log.hasWarnings := by
        rw [hcut]
        rfl
      rw [hwarnings]
      split <;> rfl
  exists_log s := by
    unfold outcome
    split <;> exact ⟨[], rfl⟩

theorem secondPass_eq (config : Config) (isa : Registry) (session : Session)
    (units : List SourceUnit) :
    secondPass config isa session units
      = (resolveUnits isa session.global session.log units).map fun p =>
          ({ session with log := p.1 }.generate p.2).1.outcome config units
            ({ session with log := p.1 }.generate p.2).2 := by
  unfold secondPass
  cases resolveUnits isa session.global session.log units with
  | error fault => rfl
  | ok p =>
    simp only [bind, Except.bind, pure, Except.pure, Except.map, Session.outcome]
    split <;> rfl

theorem follows_secondPass (config : Config) (isa : Registry) (session : Session)
    (units : List SourceUnit) (limit : Int) (hk : k ≤ session.log.limit) :
    Follows k (secondPass config isa session units)
      (secondPass (config.withLimit limit) isa (cut k session) units) := by
  rw [secondPass_eq, secondPass_eq]
  have hlog : Blind k fun l : Log => { session with log := l } := ⟨fun _ _ => rfl, fun _ => ⟨[], rfl⟩⟩
  have hend := Blind.uncurry (k := k) (Session.blind_outcome config units)
  have hgenerate := Blind.uncurry (k := k) fun machine => (Session.blind_generate machine).comp hlog
  exact (follows_resolveUnits isa session.global units hk).map (hend.comp hgenerate)

/-- Of two runs that differ in the limit, the one with the smaller limit does what the other does until
its log is full. -/
theorem follows_assemble (config : Config) (isa : Registry) (files : List SourceFile) (limit : Int)
    (hk : (config.withLimit limit).heldErrors ≤ config.heldErrors) :
    Follows (config.withLimit limit).heldErrors (assemble config isa files)
      (assemble (config.withLimit limit) isa files) := by
  have herror {log log' : Log} (hle : (config.withLimit limit).heldErrors ≤ log.limit)
      (heq : log' = log.cut (config.withLimit limit).heldErrors) :
      Trails (config.withLimit limit).heldErrors (.error log : Except Log Program) (.error log') :=
    ⟨hle, heq, fun _ => congrArg _ heq⟩
  unfold assemble
  apply (follows_firstPass config isa files limit hk).bind
  · intro p p' htrails
    have hlog : p'.1.log = p.1.log.cut _ := htrails.log_eq
    have herrors : p'.1.log.hasErrors = p.1.log.hasErrors := by rw [hlog, Log.hasErrors_cut]
    simp only [herrors]
    split
    · exact .ok (herror htrails.le hlog)
    next hclean =>
      rw [Bool.not_eq_true, ← herrors] at hclean
      have hsame : p' = cut _ p := htrails.eq_cut (Log.exceeded_of_hasErrors_eq_false hclean)
      subst hsame
      exact follows_secondPass config isa p.1 p.2 limit htrails.le
  · intro p' hfull outcome houtcome
    have hfull' : p'.1.log.exceeded = true := hfull
    simp only [Log.hasErrors_of_exceeded hfull', if_true] at houtcome
    cases houtcome
    exact hfull'

/-- A log has the limit of its run. -/
theorem limit_of_assemble {config : Config} {isa : Registry} {files : List SourceFile}
    {outcome : Except Log Program} (h : assemble config isa files = .ok outcome) :
    (outcomeLog outcome).limit = config.heldErrors := by
  obtain ⟨outcome', houtcome', htrails⟩ :=
    (follows_assemble config isa files config.errorLimit le_rfl).forth outcome h
  obtain rfl : outcome = outcome' := Except.ok.inj (h.symm.trans houtcome')
  have hlog : outcomeLog outcome = (outcomeLog outcome).cut config.heldErrors := htrails.log_eq
  rw [hlog, Log.limit_cut]

/-- A run within its limit tells what a run with another limit comes to. -/
theorem exists_assemble_withLimit {config : Config} {isa : Registry} {files : List SourceFile}
    {outcome : Except Log Program} (h : assemble config isa files = .ok outcome)
    (hroom : (outcomeLog outcome).exceeded = false) (limit : Int) :
    ∃ outcome', assemble (config.withLimit limit) isa files = .ok outcome' ∧
      outcomeLog outcome' = (outcomeLog outcome).cut (config.withLimit limit).heldErrors ∧
      ((outcomeLog outcome').exceeded = false →
        outcome' = cut (config.withLimit limit).heldErrors outcome) := by
  rcases le_total (config.withLimit limit).heldErrors config.heldErrors with hle | hle
  · obtain ⟨outcome', houtcome', htrails⟩ := (follows_assemble config isa files limit hle).forth _ h
    exact ⟨outcome', houtcome', htrails.log_eq, htrails.eq_cut⟩
  · -- The run with the greater limit has recorded as many errors as the one that is given.
    obtain ⟨outcome', houtcome', htrails⟩ :=
      (follows_assemble (config.withLimit limit) isa files config.errorLimit hle).back outcome h hroom
    have hlimit := limit_of_assemble houtcome'
    obtain rfl := htrails.eq_cut hroom
    have hlog : outcomeLog (cut config.heldErrors outcome')
        = (outcomeLog outcome').cut config.heldErrors := htrails.log_eq
    have hcount : (outcomeLog outcome').errorCount ≤ config.heldErrors := by
      change (outcomeLog (cut config.heldErrors outcome')).exceeded = false at hroom
      rw [hlog, Log.exceeded_cut, decide_eq_false_iff_not] at hroom
      omega
    have hsame : (outcomeLog (cut config.heldErrors outcome')).cut
        (config.withLimit limit).heldErrors = outcomeLog outcome' := by
      have hcount' : Log.errorCount ⟨config.heldErrors, (outcomeLog outcome').messages⟩
          ≤ (config.withLimit limit).heldErrors := hcount.trans hle
      rw [hlog, Log.cut_of_le hcount, Log.cut_of_le hcount', ← hlimit]
    refine ⟨outcome', houtcome', hsame.symm, fun _ => ?_⟩
    change outcome' = withLog (cut config.heldErrors outcome')
      ((outcomeLog (cut config.heldErrors outcome')).cut (config.withLimit limit).heldErrors)
    rw [hsame]
    cases outcome' <;> rfl

def Program.withLimit (p : Program) (limit : Nat) : Program :=
  { p with log := { p.log with limit := limit } }

theorem exists_program_withLimit {config : Config} {isa : Registry} {files : List SourceFile}
    {program : Program} (h : assemble config isa files = .ok (.ok program)) (limit : Int) :
    assemble (config.withLimit limit) isa files
      = .ok (.ok (program.withLimit (config.withLimit limit).heldErrors)) := by
  have hclean : program.log.hasErrors = false := by
    obtain ⟨session, units, log, machine, -, -, -, hgenerated, rfl⟩ := exists_of_assemble h
    exact hgenerated
  have hnone : program.log.errorCount = 0 := by simpa [Log.hasErrors] using hclean
  obtain ⟨outcome', houtcome', hlog, hsame⟩ :=
    exists_assemble_withLimit h (Log.exceeded_of_hasErrors_eq_false hclean) limit
  have hcut : program.log.cut (config.withLimit limit).heldErrors
      = ⟨(config.withLimit limit).heldErrors, program.log.messages⟩ := Log.cut_of_le (by omega)
  rw [houtcome', hsame]
  · exact congrArg (fun l => Except.ok (Except.ok { program with log := l })) hcut
  · apply Log.exceeded_of_hasErrors_eq_false
    rw [hlog, Log.hasErrors_cut]
    exact hclean

/-- The limit decides neither whether a run succeeds nor what it makes, and of a run that stays within
its limit the messages tell those of a run with any other limit. -/
theorem assemble_of_limit (config : Config) (isa : Registry) (files : List SourceFile) (limit : Int) :
    ((∃ program, assemble config isa files = .ok (.ok program)) ↔
        ∃ program, assemble (config.withLimit limit) isa files = .ok (.ok program)) ∧
      (∀ program program', assemble config isa files = .ok (.ok program) →
        assemble (config.withLimit limit) isa files = .ok (.ok program') →
        program' = program.withLimit (config.withLimit limit).heldErrors) ∧
      ∀ outcome, assemble config isa files = .ok outcome → (outcomeLog outcome).exceeded = false →
        ∃ outcome', assemble (config.withLimit limit) isa files = .ok outcome' ∧
          outcomeLog outcome' = (outcomeLog outcome).cut (config.withLimit limit).heldErrors := by
  refine ⟨⟨?_, ?_⟩, ?_, ?_⟩
  · rintro ⟨program, h⟩
    exact ⟨_, exists_program_withLimit h limit⟩
  · rintro ⟨program, h⟩
    exact ⟨_, exists_program_withLimit h config.errorLimit⟩
  · intro program program' h h'
    exact Except.ok.inj (Except.ok.inj (h'.symm.trans (exists_program_withLimit h limit)))
  · intro outcome h hroom
    obtain ⟨outcome', houtcome', hlog, -⟩ := exists_assemble_withLimit h hroom limit
    exact ⟨outcome', houtcome', hlog⟩

/-- Three mistakes, and a number that does not fit between the first two. -/
def faultyLines : List Text := ["foo", ".data", ".byte 300", ".text", "bar", "baz"]

def failure? : Except Fault (Except Log Program) → Option Log
  | .ok (.error log) => some log
  | _ => none

theorem eq_of_failure? {result : Except Fault (Except Log Program)} {log : Log}
    (h : failure? result = some log) : result = .ok (.error log) := by
  unfold failure? at h
  split at h
  · rw [Option.some.inj h]
  · cases h

theorem assemble_of_limit_faulty :
    ∃ log, assemble {} Rv32im.registry [.ofLines "a.s" faultyLines] = .ok (.error log) ∧
      log.exceeded = false ∧ log.messages.map Message.warning = [false, true, false, false] ∧
      ∃ outcome, assemble (Config.withLimit {} 1) Rv32im.registry [.ofLines "a.s" faultyLines]
          = .ok outcome ∧
        (outcomeLog outcome).messages = log.messages.take 2 ++ [Log.notice ⟨1, []⟩] := by
  have hreport : (failure? (assemble {} Rv32im.registry [.ofLines "a.s" faultyLines])).map
      (fun log => (log.exceeded, log.messages.map Message.warning))
        = some (false, [false, true, false, false]) := by
    decide +kernel
  obtain ⟨log, hlog, hflags⟩ := Option.map_eq_some_iff.1 hreport
  obtain ⟨hroom, hwarnings⟩ := Prod.mk.inj hflags
  have hfails := eq_of_failure? hlog
  obtain ⟨outcome, houtcome, hcut⟩ :=
    (assemble_of_limit {} Rv32im.registry [.ofLines "a.s" faultyLines] 1).2.2 _ hfails hroom
  refine ⟨log, hfails, hroom, hwarnings, outcome, houtcome, ?_⟩
  obtain ⟨limit, messages⟩ := log
  -- The second error is the third message.
  obtain ⟨first, rest, rfl, hfirst, hrest⟩ := List.map_eq_cons_iff.1 hwarnings
  obtain ⟨second, rest, rfl, hsecond, hrest⟩ := List.map_eq_cons_iff.1 hrest
  obtain ⟨third, rest, rfl, hthird, hrest⟩ := List.map_eq_cons_iff.1 hrest
  have hheld : (Config.withLimit {} 1).heldErrors = 1 := rfl
  rw [hcut, hheld, Log.cut_of_lt (l := outcomeLog (.error _))]
  · simp [outcomeLog, beforeError, hfirst, hsecond, hthird]
  · simp [outcomeLog, Log.errorCount, hfirst, hsecond, hthird]

end Rv32Assembler
