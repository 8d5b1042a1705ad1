import Rv32Assembler.Proofs.Renumbering
import Rv32Assembler.Proofs.Resolution
/-!
# Readings in step

A line is read in each of two files, the second of which has the lines of the first at other places.
If the first file is read without an error, the two readings stay in step through all the expansions
that they lead to (`LineReading.InStep.exists_result`), and so do the readings of lines that follow
each other (`Scope.Moved.exists_readLines`). Where the guard against endless expansion refuses no call
in the first file, it refuses none in the second: the call stack there has the same lines under their
new numbers, and lines that the first file does not have.
-/

namespace Rv32Assembler

/-! ### States without errors -/

namespace LineReading

theorem clean_of_result {v : LineReading} {r : Reading} (hr : v.result = .ok r)
    (h : r.log.hasErrors = false) : v.before.log.hasErrors = false := by
  rw [Reading.readLine_eq v.scope hr] at h
  exact Scope.clean_of_performAll h

theorem exists_bodyLine?_of_clean {v : LineReading} {c : MacroCall} {r r₁ : Reading} {i : Int}
    (hread : v.readBodyLine c r i = .ok r₁) (h : r₁.log.hasErrors = false) :
    ∃ w, v.bodyLine? c r i = some w := by
  unfold readBodyLine Reading.expandLine at hread
  unfold bodyLine?
  split at hread
  · rename_i hfull
    cases hread
    rw [Log.exceeded_of_hasErrors_eq_false h] at hfull
    cases hfull
  · rename_i hroom
    rw [if_neg hroom]
    split at hread
    · cases hread
    · rename_i body hbody
      rw [hbody]
      split at hread
      · split at hread
        · cases hread
        · cases hread
          cases (Log.hasErrors_add_eq_false_iff.1 h).2
      · rename_i text htext
        rw [htext]
        exact ⟨_, rfl⟩

theorem clean_of_readBodyLine {v : LineReading} {c : MacroCall} {r r₁ : Reading} {i : Int}
    (hread : v.readBodyLine c r i = .ok r₁) (h : r₁.log.hasErrors = false) :
    r.log.hasErrors = false := by
  obtain ⟨w, hw⟩ := exists_bodyLine?_of_clean hread h
  obtain ⟨-, -, -, -, ⟨ms, hbefore⟩, -⟩ := of_bodyLine? hw
  rw [readBodyLine_of_some hw] at hread
  have hclean := clean_of_result hread h
  rw [hbefore] at hclean
  exact (Log.hasErrors_addAll_eq_false_iff.1 hclean).1

theorem not_mem_of_clean {v : LineReading} {c : MacroCall} (hc : v.call? = some c) {r : Reading}
    (hr : v.result = .ok r) (h : r.log.hasErrors = false) : v.line.source.line ∉ v.stack.lines := by
  intro hloop
  rw [result_of_some hc, if_pos hloop] at hr
  cases hr
  cases (Log.hasErrors_add_eq_false_iff.1 h).2

end LineReading

/-! ### Lines one after the other -/

theorem LineReading.clean_of_foldlM {α : Type} {read : Reading → α → Except Fault Reading}
    (hclean : ∀ {x r r₁}, read r x = .ok r₁ → r₁.log.hasErrors = false → r.log.hasErrors = false)
    {xs : List α} {r last : Reading} (hread : xs.foldlM read r = .ok last)
    (hlast : last.log.hasErrors = false) : r.log.hasErrors = false := by
  induction xs generalizing r with
  | nil =>
    cases hread
    exact hlast
  | cons x xs ih =>
    rw [List.foldlM_cons] at hread
    obtain ⟨r₁, hfirst, hrest⟩ := exists_of_bind_eq_ok hread
    exact hclean hfirst (ih hrest)

/-- What single members of two lists keep, the lists keep, as long as the first leaves no error. -/
theorem LineReading.exists_foldlM {α β : Type} {S : α → β → Prop} {R : Reading → Reading → Prop}
    {Q : LineReading → Prop} {readings : Reading → α → List LineReading}
    {read : Reading → α → Except Fault Reading} {read' : Reading → β → Except Fault Reading}
    (hclean : ∀ {x r r₁}, read r x = .ok r₁ → r₁.log.hasErrors = false → r.log.hasErrors = false)
    (hstep : ∀ {x x' r r' r₁}, S x x' → R r r' → (∀ w ∈ readings r x, Q w) → read r x = .ok r₁ →
      r₁.log.hasErrors = false → ∃ r₁', read' r' x' = .ok r₁' ∧ R r₁ r₁')
    {xs : List α} {xs' : List β} (hxs : List.Forall₂ S xs xs') {r r' last : Reading} (hr : R r r')
    (hQ : ∀ w ∈ inTurn readings read r xs, Q w) (hread : xs.foldlM read r = .ok last)
    (hlast : last.log.hasErrors = false) :
    ∃ last', xs'.foldlM read' r' = .ok last' ∧ R last last' := by
  induction hxs generalizing r r' with
  | nil =>
    cases hread
    exact ⟨r', rfl, hr⟩
  | @cons x x' xs xs' hx _ ih =>
    rw [List.foldlM_cons] at hread
    obtain ⟨r₁, hfirst, hrest⟩ := exists_of_bind_eq_ok hread
    rw [inTurn, hfirst] at hQ
    obtain ⟨r₁', hfirst', hr₁⟩ := hstep hx hr (fun w hw => hQ w (List.mem_append_left _ hw)) hfirst
      (clean_of_foldlM hclean hrest hlast)
    obtain ⟨last', hrest', hR⟩ := ih hr₁ (fun w hw => hQ w (List.mem_append_right _ hw)) hrest
    refine ⟨last', ?_, hR⟩
    rw [List.foldlM_cons, hfirst']
    exact hrest'

/-! ### Readings in step -/

variable {ρ : Renumbering} {n : Int}

/-- The second file has the lines that are kept, at their new places and under their new numbers. -/
structure Scope.Moved (ρ : Renumbering) (s s' : Scope) : Prop where
  config : s'.config = s.config
  isa : s'.isa = s.isa
  unit : s'.unit = s.unit
  lines : ∀ i, ρ.kept i → ∀ l, Macro.lineAt? s.lines i = some l →
    ∃ l', Macro.lineAt? s'.lines (ρ.place i) = some l' ∧ l.Alike l' ∧
      ρ.kept (l.source.line - 1) ∧ l'.source.line = ρ.number l.source.line

/-- Alike states between the lines of the two files. -/
structure Reading.InStep (ρ : Renumbering) (n : Int) (s s' : Scope) (r r' : Reading) : Prop where
  alike : r.Alike (MacroPool.Moved ρ n) r'
  fits : s.Fits r.pool
  fits' : s'.Fits r'.pool

namespace LineReading

theorem self_mem_readings (v : LineReading) : v ∈ v.readings := by
  rw [readings]
  exact List.mem_cons_self ..

/-- A reading that readings in another file can keep in step with. -/
structure Plain (ρ : Renumbering) (v : LineReading) : Prop where
  labels : Reading.Alike.Allows ρ v.before v.line.labels
  /-- An expansion delimits a definition only at places that stay together with all others. -/
  index : v.callers ≠ [] → v.line.delimits = true → ∀ n, ρ.At n v.index

/-- Alike lines are read in alike states. A line that the second file has alone is read there as a
line of the file. -/
structure InStep (ρ : Renumbering) (n : Int) (v v' : LineReading) : Prop where
  proper : v.Proper
  proper' : v'.Proper
  scope : v.scope.Moved ρ v'.scope
  line : v.line.Alike v'.line
  before : v.before.Alike (MacroPool.Moved ρ n) v'.before
  stack : ∀ k' ∈ v'.stack.lines,
    (∃ k ∈ v.stack.lines, ρ.kept (k - 1) ∧ k' = ρ.number k) ∨ ρ.fresh (k' - 1)
  number : ρ.kept (v.line.source.line - 1) ∧ v'.line.source.line = ρ.number v.line.source.line ∨
    ρ.fresh (v'.line.source.line - 1) ∧ v'.stack.lines = []
  index : v.line.delimits = true → v'.index = ρ.place v.index ∧ ρ.At n v.index

namespace InStep

variable {v v' : LineReading} {c c' : MacroCall}

theorem call? (h : v.InStep ρ n v') (hlabels : Reading.Alike.Allows ρ v.before v.line.labels) :
    Option.Rel (MacroCall.Alike ρ n) v.call? v'.call? :=
  h.before.callIn? h.line hlabels

theorem plain (h : v.InStep ρ n v') (hlabels : Reading.Alike.Allows ρ v.before v.line.labels) :
    v.plain.Alike (MacroPool.Moved ρ n) v'.plain :=
  h.before.readPlainLine h.scope.config h.scope.isa h.scope.unit h.line hlabels h.index

/-- A call that is not refused in the first file is not refused in the second. -/
theorem not_mem (h : v.InStep ρ n v') (hnew : v.line.source.line ∉ v.stack.lines) :
    v'.line.source.line ∉ v'.stack.lines := by
  intro hloop
  rcases h.number with ⟨hkept, hnumber⟩ | ⟨-, hempty⟩
  · rcases h.stack _ hloop with ⟨k, hk, hkept', hsame⟩ | hfresh
    · rw [hnumber] at hsame
      rw [Renumbering.number_injective hkept hkept' hsame] at hnew
      exact hnew hk
    · rw [hnumber] at hfresh
      apply ρ.not_fresh hkept
      simpa [Renumbering.number] using hfresh
  · rw [hempty] at hloop
    cases hloop

theorem bodyLine? (h : v.InStep ρ n v') (hcall : v.call? = some c) (hcalls : c.Alike ρ n c')
    (hnew : v.line.source.line ∉ v.stack.lines) {r r' : Reading}
    (hr : Reading.InStep ρ n v.scope v'.scope r r') {i : Int} (hi : i ∈ Reading.bodyIndices c.callee)
    {w : LineReading} (hw : v.bodyLine? c r i = some w)
    (hindex : w.line.delimits = true → ρ.At n i) :
    ∃ w', v'.bodyLine? c' r' (ρ.place i) = some w' ∧ w.InStep ρ n w' := by
  have hnew' := h.not_mem hnew
  have hkept := hcalls.callee.keptBody i hi
  obtain ⟨body, hbody⟩ := h.proper.lineAt? hcall hi
  obtain ⟨body', hbody', hline, hkeptLine, hnumber⟩ := h.scope.lines i hkept body hbody
  have hcounter : (c'.counter : Int) = c.counter ∨ c.callee.labels = #[] := by
    by_cases hcounted : ρ.counted
    · left
      rw [MacroCall.counter, MacroCall.counter, hcalls.before.pool.counter hcounted]
    · right
      exact (hcalls.before.pool.silent hcounted).1 _ (of_call? hcall).2.2.1
  have htext := hcalls.callee.substitute hcalls.tokens hcounter hi hbody hbody' hline
  have hvocabulary : v'.scope.vocabulary = v.scope.vocabulary := by
    rw [Scope.vocabulary, Scope.vocabulary, h.scope.isa]
  have hproper := h.proper.bodyLine? hnew hr.fits hw
  obtain ⟨w', hw', hmade⟩ : ∃ w', v'.bodyLine? c' r' (ρ.place i) = some w' ∧
      (w.line.Alike w'.line ∧ w.before.Alike (MacroPool.Moved ρ n) w'.before) := by
    unfold LineReading.bodyLine? at hw ⊢
    rw [hr.alike.log.exceeded, hbody', htext, hvocabulary]
    split at hw
    · cases hw
    · rename_i hroom
      rw [if_neg hroom]
      rw [hbody] at hw
      cases hsubstituted : c.callee.substitute v.scope.lines i c.tokens c.counter with
      | error e =>
        rw [hsubstituted] at hw
        cases hw
      | ok text =>
        rw [hsubstituted] at hw
        cases hw
        refine ⟨_, rfl, v.scope.vocabulary.tokenize_alike rfl, ?_⟩
        refine { hr.alike with log := hr.alike.log.addAll ?_ }
        apply v.scope.vocabulary.lexicalMessages_alike
        rfl
  have hproper' := h.proper'.bodyLine? hnew' hr.fits' hw'
  obtain ⟨hscope, hcallers, hplace, -, -, made, hmade₁, -, hsource⟩ := of_bodyLine? hw
  obtain ⟨hscope', hcallers', hplace', -, -, made', hmade₁', -, hsource'⟩ := of_bodyLine? hw'
  obtain rfl : made = body := Option.some.inj (hmade₁.symm.trans hbody)
  obtain rfl : made' = body' := Option.some.inj (hmade₁'.symm.trans hbody')
  refine ⟨w', hw', hproper, hproper', ?_, hmade.1, hmade.2, ?_, ?_, ?_⟩
  · rw [hscope, hscope']
    exact h.scope
  · rw [LineReading.stack, LineReading.stack, hcallers, hcallers']
    intro k' hk'
    rcases List.mem_cons.1 hk' with rfl | hk'
    · rcases h.number with ⟨hkeptSite, hsite⟩ | ⟨hfresh, -⟩
      · exact .inl ⟨_, List.mem_cons_self .., hkeptSite, hsite⟩
      · exact .inr hfresh
    · rcases h.stack k' hk' with ⟨k, hk, hrest⟩ | hfresh
      · exact .inl ⟨k, List.mem_cons_of_mem _ hk, hrest⟩
      · exact .inr hfresh
  · left
    rw [hsource, hsource']
    exact ⟨hkeptLine, hnumber⟩
  · rw [hplace, hplace']
    intro hdelimits
    exact ⟨rfl, hindex hdelimits⟩

theorem exists_result {v v' : LineReading} (h : v.InStep ρ n v')
    (hplain : ∀ w ∈ v.readings, w.Plain ρ) {r : Reading} (hr : v.result = .ok r)
    (hclean : r.log.hasErrors = false) :
    ∃ r', v'.result = .ok r' ∧ r.Alike (MacroPool.Moved ρ n) r' := by
  have hlabels := (hplain v v.self_mem_readings).labels
  have hcalls := h.call? hlabels
  cases hcall : v.call? with
  | none =>
    rw [hcall] at hcalls
    have hcall' : v'.call? = none := by
      generalize v'.call? = q at hcalls ⊢
      cases hcalls
      rfl
    cases (result_of_none hcall).symm.trans hr
    exact ⟨v'.plain, result_of_none hcall', h.plain hlabels⟩
  | some c =>
    rw [hcall] at hcalls
    obtain ⟨c', hcall', hcalls⟩ : ∃ c', v'.call? = some c' ∧ c.Alike ρ n c' := by
      generalize v'.call? = q at hcalls ⊢
      cases hcalls with
      | some hcalls => exact ⟨_, rfl, hcalls⟩
    have hnew := not_mem_of_clean hcall hr hclean
    have hnew' := h.not_mem hnew
    have hroom : v.scope.room (.ofCallers (v.inner c)) < v.scope.room v.stack := h.proper.room hnew
    have hroom' : v'.scope.room (.ofCallers (v'.inner c')) < v'.scope.room v'.stack :=
      h.proper'.room hnew'
    rw [result_of_some hcall, if_neg hnew, if_pos hroom] at hr
    rw [result_of_some hcall', if_neg hnew', if_pos hroom']
    rw [h.proper.readings_of_expanded hcall hnew] at hplain
    -- The bodies have the same lines, and each of them is a smaller reading.
    have hbody : ∀ {i i' : Int} {r r' r₁ : Reading},
        i ∈ Reading.bodyIndices c.callee ∧ i' = ρ.place i →
        Reading.InStep ρ n v.scope v'.scope r r' →
        (∀ w ∈ v.bodyReadings c r i, w.Plain ρ) → v.readBodyLine c r i = .ok r₁ →
        r₁.log.hasErrors = false → ∃ r₁', v'.readBodyLine c' r' i' = .ok r₁' ∧
          Reading.InStep ρ n v.scope v'.scope r₁ r₁' := by
      rintro i _ r r' r₁ ⟨hi, rfl⟩ hr hplain hread hclean
      obtain ⟨w, hw⟩ := exists_bodyLine?_of_clean hread hclean
      have hfits₁ := h.proper.fits_readBodyLine hcall hnew hi hr.fits hread
      rw [bodyReadings, hw] at hplain
      rw [readBodyLine_of_some hw] at hread
      have hindex : w.line.delimits = true → ρ.At n i := by
        obtain ⟨-, hcallers, hplace, -⟩ := of_bodyLine? hw
        intro hdelimits
        rw [← hplace]
        apply (hplain w w.self_mem_readings).index _ hdelimits
        rw [hcallers]
        exact List.cons_ne_nil _ _
      obtain ⟨w', hw', hinStep⟩ := h.bodyLine? hcall hcalls hnew hr hi hw hindex
      have hsmaller := room_of_bodyLine? hw hroom
      obtain ⟨r₁', hread', halike⟩ := hinStep.exists_result hplain hread hclean
      have hi' : ρ.place i ∈ Reading.bodyIndices c'.callee := by
        rw [hcalls.callee.body]
        exact List.mem_map_of_mem hi
      rw [← readBodyLine_of_some hw'] at hread'
      exact ⟨r₁', hread', halike, hfits₁,
        h.proper'.fits_readBodyLine hcall' hnew' hi' hr.fits' hread'⟩
    have hindices : List.Forall₂ (fun i i' => i ∈ Reading.bodyIndices c.callee ∧ i' = ρ.place i)
        (Reading.bodyIndices c.callee) (Reading.bodyIndices c'.callee) := by
      rw [hcalls.callee.body, List.forall₂_map_right_iff]
      exact List.forall₂_same.2 fun i hi => ⟨hi, rfl⟩
    have hentered : c.entered.Alike (MacroPool.Moved ρ n) c'.entered :=
      hcalls.before.set_pool hcalls.before.pool.nextCounter
    have hstart : Reading.InStep ρ n v.scope v'.scope c.entered c'.entered :=
      ⟨hentered, h.proper.fits_entered hcall, h.proper'.fits_entered hcall'⟩
    obtain ⟨r', hr', hlast⟩ := exists_foldlM clean_of_readBodyLine hbody hindices hstart
      (fun w hw => hplain w (List.mem_append_right _ hw)) hr hclean
    exact ⟨r', hr', hlast.alike⟩
termination_by v.scope.room v.stack

end InStep

end LineReading

/-! ### Lines of files -/

namespace Scope

theorem clean_of_readNext {s : Scope} {p : TokenLine × Nat} {r r₁ : Reading}
    (hread : s.readNext r p = .ok r₁) (h : r₁.log.hasErrors = false) : r.log.hasErrors = false := by
  unfold readNext at hread
  split at hread
  · cases hread
    exact h
  · exact LineReading.clean_of_result (v := ⟨s, [], p.2, p.1, r⟩) hread h

theorem readNext_of_clean {s : Scope} {r : Reading} (h : r.log.hasErrors = false)
    (p : TokenLine × Nat) :
    s.readNext r p = LineReading.result ⟨s, [], p.2, p.1, r⟩ ∧
      s.nextReadings r p = LineReading.readings ⟨s, [], p.2, p.1, r⟩ := by
  have hroom : ¬r.log.exceeded = true := by
    rw [Log.exceeded_of_hasErrors_eq_false h]
    decide
  exact ⟨if_neg hroom, if_neg hroom⟩

namespace Moved

variable {s s' : Scope}

/-- A line of the file that is kept is read in step. -/
theorem exists_readNext (h : s.Moved ρ s') {p p' : TokenLine × Nat} (hp : p ∈ s.lines.toList.zipIdx)
    (hp' : p' ∈ s'.lines.toList.zipIdx) (hkept : ρ.kept p.2) (hplace : ρ.place p.2 = p'.2)
    {r r' r₁ : Reading} (hr : Reading.InStep ρ p.2 s s' r r')
    (hplain : ∀ w ∈ s.nextReadings r p, w.Plain ρ) (hread : s.readNext r p = .ok r₁)
    (hclean : r₁.log.hasErrors = false) :
    ∃ r₁', s'.readNext r' p' = .ok r₁' ∧ Reading.InStep ρ p.2 s s' r₁ r₁' := by
  have hbefore := clean_of_readNext hread hclean
  have hbefore' : r'.log.hasErrors = false := by rw [hr.alike.log.hasErrors, hbefore]
  have hproper := LineReading.proper_of_mem_zipIdx hr.fits hp
  have hproper' := LineReading.proper_of_mem_zipIdx hr.fits' hp'
  obtain ⟨l', hl', hline, hkept', hnumber⟩ :=
    h.lines p.2 hkept p.1 (Macro.lineAt?_of_mem_zipIdx hp)
  rw [hplace, Macro.lineAt?_of_mem_zipIdx hp'] at hl'
  obtain rfl := Option.some.inj hl'
  have hinStep : LineReading.InStep ρ p.2 ⟨s, [], p.2, p.1, r⟩ ⟨s', [], p'.2, p'.1, r'⟩ := by
    refine ⟨hproper, hproper', h, hline, hr.alike, ?_, .inl ⟨hkept', hnumber⟩, ?_⟩
    · intro k hk
      cases hk
    · intro _
      exact ⟨hplace.symm, Renumbering.at_self hkept⟩
  rw [(readNext_of_clean hbefore p).1] at hread
  rw [(readNext_of_clean hbefore p).2] at hplain
  rw [(readNext_of_clean hbefore' p').1]
  obtain ⟨r₁', hread', halike⟩ := hinStep.exists_result hplain hread hclean
  obtain ⟨q, hq, hfits⟩ := hproper.exists_result
  obtain ⟨q', hq', hfits'⟩ := hproper'.exists_result
  cases hread.symm.trans hq
  cases hread'.symm.trans hq'
  exact ⟨r₁', hread', halike, hfits, hfits'⟩

/-- Lines of the file that stay together are read in step. -/
theorem exists_readLines (h : s.Moved ρ s') {ls ls' : List TokenLine} {m m' : Nat}
    (hlength : ls'.length = ls.length) (hls : ∀ p ∈ ls.zipIdx m, p ∈ s.lines.toList.zipIdx)
    (hls' : ∀ p ∈ ls'.zipIdx m', p ∈ s'.lines.toList.zipIdx)
    (hplace : ∀ j : Nat, j < ls.length →
      ρ.kept ((m + j : Nat) : Int) ∧ ρ.place ((m + j : Nat) : Int) = ((m' + j : Nat) : Int))
    {r r' last : Reading} (hr : Reading.InStep ρ m s s' r r')
    (hplain : ∀ w ∈ LineReading.inTurn s.nextReadings s.readNext r (ls.zipIdx m), w.Plain ρ)
    (hread : (ls.zipIdx m).foldlM s.readNext r = .ok last) (hlast : last.log.hasErrors = false) :
    ∃ last' n, (ls'.zipIdx m').foldlM s'.readNext r' = .ok last' ∧
      Reading.InStep ρ n s s' last last' := by
  induction ls generalizing ls' m m' r r' with
  | nil =>
    obtain rfl := List.length_eq_zero_iff.1 hlength
    cases hread
    exact ⟨r', m, rfl, hr⟩
  | cons l ls ih =>
    cases ls' with
    | nil => cases hlength
    | cons l' ls' =>
      rw [List.zipIdx_cons] at hls hls' hplain hread ⊢
      rw [List.foldlM_cons] at hread ⊢
      obtain ⟨r₁, hfirst, hrest⟩ := exists_of_bind_eq_ok hread
      rw [LineReading.inTurn, hfirst] at hplain
      have hclean : r₁.log.hasErrors = false :=
        LineReading.clean_of_foldlM clean_of_readNext hrest hlast
      obtain ⟨hkept, hmoved⟩ := hplace 0 (Nat.succ_pos _)
      obtain ⟨r₁', hfirst', hr₁⟩ := h.exists_readNext (hls _ (List.mem_cons_self ..))
        (hls' _ (List.mem_cons_self ..)) hkept hmoved hr
        (fun w hw => hplain w (List.mem_append_left _ hw)) hfirst hclean
      rw [hfirst']
      have hplain' : ∀ w ∈ LineReading.inTurn s.nextReadings s.readNext r₁ (ls.zipIdx (m + 1)),
          w.Plain ρ := fun w hw => hplain w (List.mem_append_right _ hw)
      have hplaces (j : Nat) (hj : j < ls.length) := hplace (j + 1) (Nat.succ_lt_succ hj)
      simp only [Nat.add_right_comm _ _ 1, ← Nat.add_assoc] at hplaces
      cases ls with
      | nil =>
        obtain rfl := List.length_eq_zero_iff.1 (Nat.succ.inj hlength)
        cases hrest
        exact ⟨r₁', m, rfl, hr₁⟩
      | cons next ls =>
        obtain ⟨hkept₁, hmoved₁⟩ := hplaces 0 (Nat.succ_pos _)
        have hsteady : ρ.Steady m ((m + 1 : Nat) : Int) := by
          intro i hlow hhigh
          obtain rfl | rfl : i = (m : Int) ∨ i = ((m + 1 : Nat) : Int) := by omega
          · exact ⟨hkept, by omega⟩
          · refine ⟨hkept₁, ?_⟩
            simp only [Nat.add_zero] at hmoved hmoved₁
            omega
        have hr₁ : Reading.InStep ρ ((m + 1 : Nat) : Int) s s' r₁ r₁' :=
          ⟨{ hr₁.alike with pool := hr₁.alike.pool.step hsteady }, hr₁.fits, hr₁.fits'⟩
        exact ih (Nat.succ.inj hlength) (fun p hp => hls p (List.mem_cons_of_mem _ hp))
          (fun p hp => hls' p (List.mem_cons_of_mem _ hp)) hplaces hr₁ hplain' hrest

end Moved

end Scope

end Rv32Assembler
