import Rv32Assembler.Proofs.AlikeLines
import Rv32Assembler.Proofs.InertLines
import Rv32Assembler.Proofs.Resolution
/-!
# Thinned files

A file is thinned by leaving out inert lines. The lines that stay come to other places and numbers, and
the bodies of macros get shorter. Nothing else changes: what is read in the one file is read in the
other, down through all expansions, and the states stay alike whether or not there are errors
(`LineReading.Thinned.exists_results`). The guard against endless expansion refuses the same calls,
since the call stack has the same lines under their new numbers.
-/

namespace Rv32Assembler

/-! ### Places -/

/-- Which lines stay when others are left out, and the places that they come to. -/
structure Selection where
  keeps : Int → Bool
  place : Int → Int
  place_succ : ∀ i, place (i + 1) = if keeps i then place i + 1 else place i

namespace Selection

variable {θ : Selection} {i j : Int}

theorem place_le (h : i ≤ j) : θ.place i ≤ θ.place j := by
  obtain ⟨n, rfl⟩ := Int.le.dest h
  clear h
  induction n with
  | zero => simp
  | succ n ih =>
    have hsucc := θ.place_succ (i + n)
    rw [Int.natCast_succ, ← Int.add_assoc, hsucc]
    split <;> omega

theorem place_lt (hi : θ.keeps i = true) : θ.place i < θ.place j ↔ i < j := by
  constructor
  · intro hless
    by_contra hnot
    have hle := θ.place_le (Int.not_lt.1 hnot)
    omega
  · intro hless
    have hsucc := θ.place_succ i
    rw [if_pos hi] at hsucc
    have hle := θ.place_le (Int.add_one_le_of_lt hless)
    omega

theorem map_place_filter (θ : Selection) (a : Int) (n : Nat) :
    (((List.range n).map fun k : Nat => a + k).filter θ.keeps).map θ.place
      = (List.range (θ.place (a + n) - θ.place a).toNat).map fun k : Nat => θ.place a + k := by
  induction n with
  | zero => simp
  | succ n ih =>
    have hsucc := θ.place_succ (a + n)
    have hle : θ.place a ≤ θ.place (a + n) := θ.place_le (by omega)
    rw [List.range_succ, List.map_append, List.filter_append, List.map_append, ih, Int.natCast_succ,
      ← Int.add_assoc, hsucc]
    by_cases hkept : θ.keeps (a + n) = true
    · have hcount : (θ.place (a + n) + 1 - θ.place a).toNat
          = (θ.place (a + n) - θ.place a).toNat + 1 := by omega
      have hlast : θ.place a + ((θ.place (a + n) - θ.place a).toNat : Int) = θ.place (a + n) := by
        omega
      simp only [hkept, if_true, hcount, List.range_succ, List.map_append, List.map_cons,
        List.map_nil, List.filter_cons_of_pos, List.filter_nil, hlast]
    · simp [hkept]

theorem bodyIndices_eq {m m' : Macro} (hkept : θ.keeps m.first = true)
    (hfirst : m'.first = θ.place m.first) (hlast : m'.last = θ.place m.last) :
    Reading.bodyIndices m' = ((Reading.bodyIndices m).filter θ.keeps).map θ.place := by
  have hsucc := θ.place_succ m.first
  rw [if_pos hkept] at hsucc
  unfold Reading.bodyIndices
  rw [θ.map_place_filter, hsucc, hfirst, hlast]
  by_cases hinside : m.first < m.last
  · have hend : m.first + 1 + ((m.last - m.first - 1).toNat : Int) = m.last := by omega
    rw [hend, Int.sub_sub]
  · -- A definition that ends before it starts has no body.
    have hle := θ.place_le (Int.not_lt.1 hinside)
    have hnone : (m.last - m.first - 1).toNat = 0 := by omega
    have hnone' : (θ.place m.last - θ.place m.first - 1).toNat = 0 := by omega
    rw [hnone, hnone', Int.natCast_zero, Int.add_zero, hsucc, Int.sub_self]
    rfl

end Selection

/-- How the places and the numbers of lines change when some lines are left out. -/
structure Thinning extends Selection where
  /-- The numbers of a line before and after. -/
  twins : Int → Int → Prop
  eq_iff : ∀ {n n' m m' : Int}, twins n n' → twins m m' → (n' = m' ↔ n = m)

/-! ### Macros -/

variable {θ : Thinning}

/-- The definitions have the same names and parameters and start at lines that correspond. -/
structure Macro.Started (θ : Thinning) (m m' : Macro) : Prop where
  name : m'.name = m.name
  parameters : m'.parameters = m.parameters
  kept : θ.keeps m.first = true
  first : m'.first = θ.place m.first

/-- The macros are the same, the second without inert lines of the first. -/
structure Macro.Thinned (θ : Thinning) (m m' : Macro) : Prop extends m.Started θ m' where
  labels : m'.labels = m.labels
  last : m'.last = θ.place m.last

theorem Macro.Thinned.bodies {m m' : Macro} (h : m.Thinned θ m') :
    List.Forall₂ (fun i i' => i ∈ Reading.bodyIndices m ∧ θ.keeps i = true ∧ i' = θ.place i ∧
        i' ∈ Reading.bodyIndices m')
      ((Reading.bodyIndices m).filter θ.keeps) (Reading.bodyIndices m') := by
  have hbodies := Selection.bodyIndices_eq h.kept h.first h.last
  have hmember (i : Int) (hi : i ∈ (Reading.bodyIndices m).filter θ.keeps) :
      θ.place i ∈ Reading.bodyIndices m' := by
    rw [hbodies]
    exact List.mem_map_of_mem hi
  nth_rewrite 2 [hbodies]
  rw [List.forall₂_map_right_iff]
  refine List.forall₂_same.2 fun i hi => ?_
  obtain ⟨hinside, hkept⟩ := List.mem_filter.1 hi
  exact ⟨hinside, hkept, rfl, hmember i hi⟩

structure MacroPool.Thinned (θ : Thinning) (p p' : MacroPool) : Prop where
  macros : List.Forall₂ (Macro.Thinned θ) p.macros p'.macros
  current : Option.Rel (fun d d' => d.1.Started θ d'.1 ∧ d'.2 = d.2) p.current p'.current
  counter : p'.counter = p.counter

namespace MacroPool.Thinned

variable {p p' : MacroPool}

theorem isDefining (h : p.Thinned θ p') : p'.isDefining = p.isDefining :=
  isDefining_alike h.current

theorem nextCounter (h : p.Thinned θ p') : p.nextCounter.2.Thinned θ p'.nextCounter.2 :=
  { h with counter := congrArg (· + 1) h.counter }

theorem addLabel (h : p.Thinned θ p') (name : Text) :
    (p.addLabel name).Thinned θ (p'.addLabel name) := by
  have hcurrent := h.current
  unfold MacroPool.addLabel
  generalize hd : p.current = d, hd' : p'.current = d' at hcurrent
  cases hcurrent with
  | none => exact h
  | @some d d' hstarted =>
    obtain ⟨m, labels⟩ := d
    obtain ⟨m', labels'⟩ := d'
    obtain rfl : labels' = labels := hstarted.2
    simp only
    split
    · exact h
    · exact { h with current := .some ⟨hstarted.1, rfl⟩ }

theorem begin (h : p.Thinned θ p') {i : Int} (hi : θ.keeps i = true) {ts ts' : List Token}
    (hts : List.Forall₂ Token.Alike ts ts') :
    Except.Alike (MacroPool.Thinned θ) (p.begin ts i) (p'.begin ts' (θ.place i)) := by
  have hbegin := begin_alike h.isDefining i (θ.place i) hts
  generalize p.begin ts i = q, p'.begin ts' (θ.place i) = q' at hbegin ⊢
  cases hbegin with
  | error => exact .error _ _
  | ok hstarts =>
    obtain ⟨m, m', rfl, rfl, hname, hparameters, rfl, hfirst⟩ := hstarts
    exact .ok { h with current := .some ⟨⟨hname, hparameters, hi, hfirst⟩, rfl⟩ }

theorem commit (h : p.Thinned θ p') (i line line' : Int) {ts ts' : List Token}
    (hts : List.Forall₂ Token.Alike ts ts') :
    Except.Alike (MacroPool.Thinned θ) (p.commit i line ts) (p'.commit (θ.place i) line' ts') := by
  have hcommit := commit_alike h.current i (θ.place i) line line' hts
  generalize p.commit i line ts = q, p'.commit (θ.place i) line' ts' = q' at hcommit ⊢
  cases hcommit with
  | error => exact .error _ _
  | ok hends =>
    obtain ⟨d, d', ⟨hstarted, hlabels⟩, -, rfl, rfl⟩ := hends
    have hclosed : (closed d i line).Thinned θ (closed d' (θ.place i) line') :=
      { hstarted with labels := by simp only [closed, hlabels], last := rfl }
    exact .ok { h with macros := List.rel_append h.macros (.cons hclosed .nil), current := .none }

/-- Thinned macros are what reading asks for, where definitions start and end at lines that stay. -/
theorem tracks (θ : Thinning) :
    Tracks (MacroPool.Thinned θ) (Macro.Thinned θ) True
      (fun i i' => θ.keeps i = true ∧ i' = θ.place i) where
  isDefining h := h.isDefining
  addLabel h _ name := h.addLabel name
  matching h _ _ hcall := by
    refine matching_alike (fun hm => hm.name) (fun hm => hm.parameters) ?_ h.macros hcall
    intro b b' m m' hb hm
    rw [hb.first, hm.first]
    exact θ.place_lt hb.kept
  begin h _ _ := by
    rintro ⟨hi, rfl⟩ ts ts' hts
    exact h.begin hi hts
  commit h i _ := by
    rintro ⟨-, rfl⟩ line line' ts ts' hts
    exact h.commit i line line' hts

end MacroPool.Thinned

/-! ### Lines -/

namespace Thinning

/-- The lines correspond, at their places. -/
structure Pairs (θ : Thinning) (p p' : TokenLine × Nat) : Prop where
  place : θ.place p.2 = p'.2
  line : p.1.Alike p'.1
  number : θ.twins p.1.source.line p'.1.source.line

/-- The second file has the lines of the first that stay, and the others are inert. -/
structure Relates (θ : Thinning) (lines lines' : Array TokenLine) : Prop where
  kept : List.Forall₂ θ.Pairs (lines.toList.zipIdx.filter fun p => θ.keeps p.2) lines'.toList.zipIdx
  inert : ∀ p ∈ lines.toList.zipIdx, θ.keeps p.2 = false → p.1.IsInert

end Thinning

namespace Thinning.Relates

variable {lines lines' : Array TokenLine} {i : Int} {l : TokenLine}

theorem exists_lineAt? (h : θ.Relates lines lines') (hi : θ.keeps i = true)
    (hl : Macro.lineAt? lines i = some l) :
    ∃ l', Macro.lineAt? lines' (θ.place i) = some l' ∧ l.Alike l' ∧
      θ.twins l.source.line l'.source.line := by
  obtain ⟨hmem, hcast⟩ := Macro.mem_zipIdx_of_lineAt? hl
  obtain ⟨p', hp', hpair⟩ := exists_of_forall₂ h.kept (List.mem_filter.2 ⟨hmem, by rw [hcast, hi]⟩)
  have hplace := hpair.place
  rw [hcast] at hplace
  refine ⟨p'.1, ?_, hpair.line, hpair.number⟩
  rw [hplace]
  exact Macro.lineAt?_of_mem_zipIdx hp'

theorem isInert (h : θ.Relates lines lines') (hi : θ.keeps i = false)
    (hl : Macro.lineAt? lines i = some l) : l.IsInert := by
  obtain ⟨hmem, hcast⟩ := Macro.mem_zipIdx_of_lineAt? hl
  exact h.inert _ hmem (by rw [hcast, hi])

end Thinning.Relates

/-! ### Readings -/

/-- The second file is the first without inert lines. -/
structure Scope.Thinned (θ : Thinning) (s s' : Scope) : Prop where
  config : s'.config = s.config
  isa : s'.isa = s.isa
  unit : s'.unit = s.unit
  lines : θ.Relates s.lines s'.lines

/-- Alike states between the lines of the two files. -/
structure Reading.Thinned (θ : Thinning) (s s' : Scope) (r r' : Reading) : Prop where
  alike : r.Alike (MacroPool.Thinned θ) r'
  fits : s.Fits r.pool
  fits' : s'.Fits r'.pool

/-- Both computations have a result, and the results are related. -/
def BothOk (R : Reading → Reading → Prop) (x x' : Except Fault Reading) : Prop :=
  ∃ r r', x = .ok r ∧ x' = .ok r' ∧ R r r'

/-- What does nothing can be left out; what is kept by each of the others in turn is kept by all. -/
theorem BothOk.foldlM {α β : Type} {keep : α → Bool} {S : α → β → Prop}
    {R : Reading → Reading → Prop} {read : Reading → α → Except Fault Reading}
    {read' : Reading → β → Except Fault Reading} {xs : List α} {xs' : List β}
    (hidle : ∀ x ∈ xs, keep x = false → ∀ r, read r x = .ok r)
    (hstep : ∀ x x', S x x' → ∀ r r', R r r' → BothOk R (read r x) (read' r' x'))
    (hxs : List.Forall₂ S (xs.filter keep) xs') {r r' : Reading} (hr : R r r') :
    BothOk R (xs.foldlM read r) (xs'.foldlM read' r') := by
  have hfilter (r : Reading) : xs.foldlM read r = (xs.filter keep).foldlM read r := by
    clear hstep hxs hr
    induction xs generalizing r with
    | nil => rfl
    | cons x xs ih =>
      have hrest := ih fun y hy => hidle y (List.mem_cons_of_mem _ hy)
      rw [List.foldlM_cons, List.filter_cons]
      split
      · rw [List.foldlM_cons]
        simp only [hrest]
      · rename_i hdropped
        rw [hidle x (List.mem_cons_self ..) (by simpa using hdropped)]
        exact hrest r
  rw [hfilter]
  clear hidle hfilter
  generalize xs.filter keep = ys at hxs
  induction hxs generalizing r r' with
  | nil => exact ⟨r, r', rfl, rfl, hr⟩
  | cons hx _ ih =>
    obtain ⟨r₁, r₁', hread, hread', hr₁⟩ := hstep _ _ hx _ _ hr
    rw [List.foldlM_cons, List.foldlM_cons, hread, hread']
    exact ih hr₁

namespace LineReading

/-- Alike lines that correspond are read in alike states, in corresponding calls. -/
structure Thinned (θ : Thinning) (v v' : LineReading) : Prop where
  proper : v.Proper
  proper' : v'.Proper
  scope : v.scope.Thinned θ v'.scope
  line : v.line.Alike v'.line
  before : v.before.Alike (MacroPool.Thinned θ) v'.before
  stack : List.Forall₂ θ.twins v.stack.lines v'.stack.lines
  number : θ.twins v.line.source.line v'.line.source.line
  kept : θ.keeps v.index = true
  index : v'.index = θ.place v.index

namespace Thinned

variable {v v' : LineReading} {c c' : MacroCall}

theorem call? (h : v.Thinned θ v') :
    Option.Rel (MacroCall.Tracks (MacroPool.Thinned θ) (Macro.Thinned θ)) v.call? v'.call? :=
  (MacroPool.Thinned.tracks θ).callIn? h.before h.line fun _ _ => trivial

theorem plain (h : v.Thinned θ v') : v.plain.Alike (MacroPool.Thinned θ) v'.plain :=
  (MacroPool.Thinned.tracks θ).readPlainLine h.before h.scope.config h.scope.isa h.scope.unit h.line
    (fun _ _ => trivial) fun _ => ⟨h.kept, h.index⟩

theorem mem_iff (h : v.Thinned θ v') :
    v'.line.source.line ∈ v'.stack.lines ↔ v.line.source.line ∈ v.stack.lines := by
  have hstack := h.stack
  generalize v.stack.lines = ns, v'.stack.lines = ns' at hstack
  induction hstack with
  | nil => simp
  | cons hn _ ih =>
    rw [List.mem_cons, List.mem_cons]
    exact or_congr (θ.eq_iff h.number hn) ih

/-- What the calls make of a line of the body that stays is read in both files, or is refused in both
with no more than a message. -/
theorem bodyLine? (h : v.Thinned θ v') (hcall : v.call? = some c)
    (hcalls : MacroCall.Tracks (MacroPool.Thinned θ) (Macro.Thinned θ) c c')
    (hnew : v.line.source.line ∉ v.stack.lines) {r r' : Reading}
    (hr : Reading.Thinned θ v.scope v'.scope r r') {i : Int} (hi : i ∈ Reading.bodyIndices c.callee)
    (hkept : θ.keeps i = true) (hi' : θ.place i ∈ Reading.bodyIndices c'.callee) :
    (∃ w w', v.bodyLine? c r i = some w ∧ v'.bodyLine? c' r' (θ.place i) = some w' ∧
        w.Thinned θ w') ∨
      BothOk (fun r r' => r.Alike (MacroPool.Thinned θ) r') (v.readBodyLine c r i)
        (v'.readBodyLine c' r' (θ.place i)) := by
  obtain ⟨body, hbody⟩ := h.proper.lineAt? hcall hi
  obtain ⟨body', hbody', hline, hnumber⟩ := h.scope.lines.exists_lineAt? hkept hbody
  have hcounter : (c'.counter : Int) = c.counter := by
    rw [MacroCall.counter, MacroCall.counter, hcalls.before.pool.counter]
  have htext : c'.callee.substitute v'.scope.lines (θ.place i) c'.tokens c'.counter
      = c.callee.substitute v.scope.lines i c.tokens c.counter :=
    Macro.substitute_alike hcalls.callee.parameters hcalls.callee.labels hcalls.tokens (.inl hcounter)
      hi hi' hbody hbody' hline
  have hvocabulary : v'.scope.vocabulary = v.scope.vocabulary := by
    rw [Scope.vocabulary, Scope.vocabulary, h.scope.isa]
  by_cases hfull : r.log.exceeded = true
  · right
    have hfull' : r'.log.exceeded = true := by rw [hr.alike.log.exceeded, hfull]
    exact ⟨r, r', if_pos hfull, if_pos hfull', hr.alike⟩
  · have hroom' : ¬r'.log.exceeded = true := by rwa [hr.alike.log.exceeded]
    cases hmade : c.callee.substitute v.scope.lines i c.tokens c.counter with
    | error e =>
      right
      have hmistake := Macro.isFault_of_substitute (of_call? hcall).2.2.2 hbody hmade
      rw [hmade] at htext
      unfold readBodyLine Reading.expandLine
      rw [if_neg hfull, if_neg hroom', hbody, hbody', hmade, htext]
      simp only [hmistake]
      exact ⟨_, _, rfl, rfl, hr.alike.record rfl⟩
    | ok text =>
      left
      rw [hmade] at htext
      obtain ⟨w, hw, w', hw', hlines, hbefore⟩ : ∃ w, v.bodyLine? c r i = some w ∧
          ∃ w', v'.bodyLine? c' r' (θ.place i) = some w' ∧
            w.line.Alike w'.line ∧ w.before.Alike (MacroPool.Thinned θ) w'.before := by
        unfold LineReading.bodyLine?
        rw [if_neg hfull, if_neg hroom', hbody, hbody', hmade, htext, hvocabulary]
        refine ⟨_, rfl, _, rfl, v.scope.vocabulary.tokenize_alike rfl, ?_⟩
        refine { hr.alike with log := hr.alike.log.addAll ?_ }
        apply v.scope.vocabulary.lexicalMessages_alike
        rfl
      have hnew' : v'.line.source.line ∉ v'.stack.lines := by rwa [h.mem_iff]
      obtain ⟨hscope, hcallers, hplace, -, -, made, hmade₁, -, hsource⟩ := of_bodyLine? hw
      obtain ⟨hscope', hcallers', hplace', -, -, made', hmade₁', -, hsource'⟩ := of_bodyLine? hw'
      obtain rfl : made = body := Option.some.inj (hmade₁.symm.trans hbody)
      obtain rfl : made' = body' := Option.some.inj (hmade₁'.symm.trans hbody')
      refine ⟨w, w', hw, hw', h.proper.bodyLine? hnew hr.fits hw,
        h.proper'.bodyLine? hnew' hr.fits' hw', ?_, hlines, hbefore, ?_, ?_, ?_, ?_⟩
      · rw [hscope, hscope']
        exact h.scope
      · rw [LineReading.stack, LineReading.stack, hcallers, hcallers']
        exact .cons h.number h.stack
      · rw [hsource, hsource']
        exact hnumber
      · rw [hplace]
        exact hkept
      · rw [hplace, hplace']

/-- What a line of the body that stays comes to, given what the readings that it leads to come to. -/
theorem readBodyLine (h : v.Thinned θ v') (hcall : v.call? = some c) (hcall' : v'.call? = some c')
    (hcalls : MacroCall.Tracks (MacroPool.Thinned θ) (Macro.Thinned θ) c c')
    (hnew : v.line.source.line ∉ v.stack.lines) {r r' : Reading}
    (hr : Reading.Thinned θ v.scope v'.scope r r') {i : Int} (hi : i ∈ Reading.bodyIndices c.callee)
    (hkept : θ.keeps i = true) (hi' : θ.place i ∈ Reading.bodyIndices c'.callee)
    (hresults : ∀ w w', v.bodyLine? c r i = some w → w.Thinned θ w' →
      BothOk (fun r r' => r.Alike (MacroPool.Thinned θ) r') w.result w'.result) :
    BothOk (Reading.Thinned θ v.scope v'.scope) (v.readBodyLine c r i)
      (v'.readBodyLine c' r' (θ.place i)) := by
  have hnew' : v'.line.source.line ∉ v'.stack.lines := by rwa [h.mem_iff]
  have hread : BothOk (fun r r' => r.Alike (MacroPool.Thinned θ) r') (v.readBodyLine c r i)
      (v'.readBodyLine c' r' (θ.place i)) := by
    rcases h.bodyLine? hcall hcalls hnew hr hi hkept hi' with ⟨w, w', hw, hw', hthinned⟩ | hsame
    · rw [readBodyLine_of_some hw, readBodyLine_of_some hw']
      exact hresults w w' hw hthinned
    · exact hsame
  obtain ⟨r₁, r₁', hread, hread', halike⟩ := hread
  exact ⟨r₁, r₁', hread, hread', halike,
    h.proper.fits_readBodyLine hcall hnew hi hr.fits hread,
    h.proper'.fits_readBodyLine hcall' hnew' hi' hr.fits' hread'⟩

/-- Readings of corresponding lines come to alike states. -/
theorem exists_results {v v' : LineReading} (h : v.Thinned θ v') :
    BothOk (fun r r' => r.Alike (MacroPool.Thinned θ) r') v.result v'.result := by
  have hcalls := h.call?
  generalize hcall : v.call? = called, hcall' : v'.call? = called' at hcalls
  cases hcalls with
  | none => exact ⟨v.plain, v'.plain, result_of_none hcall, result_of_none hcall', h.plain⟩
  | @some c c' hcalls =>
    rw [result_of_some hcall, result_of_some hcall']
    by_cases hloop : v.line.source.line ∈ v.stack.lines
    · rw [if_pos hloop, if_pos (h.mem_iff.2 hloop)]
      exact ⟨_, _, rfl, rfl, hcalls.before.report rfl⟩
    · have hloop' : v'.line.source.line ∉ v'.stack.lines := by rwa [h.mem_iff]
      have hroom : v.scope.room (.ofCallers (v.inner c)) < v.scope.room v.stack :=
        h.proper.room hloop
      have hroom' : v'.scope.room (.ofCallers (v'.inner c')) < v'.scope.room v'.stack :=
        h.proper'.room hloop'
      rw [if_neg hloop, if_neg hloop', if_pos hroom, if_pos hroom']
      have hentered : c.entered.Alike (MacroPool.Thinned θ) c'.entered :=
        hcalls.before.set_pool hcalls.before.pool.nextCounter
      have hstart : Reading.Thinned θ v.scope v'.scope c.entered c'.entered :=
        ⟨hentered, h.proper.fits_entered hcall, h.proper'.fits_entered hcall'⟩
      have hbody : BothOk (Reading.Thinned θ v.scope v'.scope) (v.readBody c) (v'.readBody c') := by
        refine BothOk.foldlM ?_ ?_ hcalls.callee.bodies hstart
        · intro i hi hdropped
          obtain ⟨body, hline⟩ := h.proper.lineAt? hcall hi
          exact v.readBodyLine_of_inert hi hline (h.scope.lines.isInert hdropped hline)
        · rintro i _ ⟨hi, hkept, rfl, hi'⟩ r r' hr
          refine h.readBodyLine hcall hcall' hcalls hloop hr hi hkept hi' ?_
          intro w w' hw hthinned
          -- The line of the call is on the stack now, which leaves less room for further calls.
          have hsmaller := room_of_bodyLine? hw hroom
          exact hthinned.exists_results
      obtain ⟨r, r', hr, hr', hlast⟩ := hbody
      exact ⟨r, r', hr, hr', hlast.alike⟩
termination_by v.scope.room v.stack

end Thinned

end LineReading

/-! ### Files -/

namespace Scope.Thinned

variable {s s' : Scope}

theorem exists_readNext (h : s.Thinned θ s') {p p' : TokenLine × Nat}
    (hp : p ∈ s.lines.toList.zipIdx) (hp' : p' ∈ s'.lines.toList.zipIdx)
    (hkept : θ.keeps p.2 = true) (hpair : θ.Pairs p p') {r r' : Reading}
    (hr : Reading.Thinned θ s s' r r') :
    BothOk (Reading.Thinned θ s s') (s.readNext r p) (s'.readNext r' p') := by
  unfold readNext
  rw [hr.alike.log.exceeded]
  split
  · exact ⟨r, r', rfl, rfl, hr⟩
  · have hproper := LineReading.proper_of_mem_zipIdx hr.fits hp
    have hproper' := LineReading.proper_of_mem_zipIdx hr.fits' hp'
    have hthinned : LineReading.Thinned θ ⟨s, [], p.2, p.1, r⟩ ⟨s', [], p'.2, p'.1, r'⟩ :=
      ⟨hproper, hproper', h, hpair.line, hr.alike, .nil, hpair.number, hkept, hpair.place.symm⟩
    obtain ⟨r₁, r₁', hread, hread', halike⟩ := hthinned.exists_results
    obtain ⟨q, hq, hfits⟩ := hproper.exists_result
    obtain ⟨q', hq', hfits'⟩ := hproper'.exists_result
    cases hread.symm.trans hq
    cases hread'.symm.trans hq'
    exact ⟨r₁, r₁', hread, hread', halike, hfits, hfits'⟩

/-- The lines of the two files come to alike states. -/
theorem exists_readLines (h : s.Thinned θ s') {r r' : Reading}
    (hr : Reading.Thinned θ s s' r r') :
    BothOk (Reading.Thinned θ s s') (Reading.readLines s r) (Reading.readLines s' r') := by
  rw [readLines_eq, readLines_eq]
  have hpairs : List.Forall₂
      (fun p p' => (p ∈ s.lines.toList.zipIdx ∧ θ.keeps p.2 = true) ∧
        p' ∈ s'.lines.toList.zipIdx ∧ θ.Pairs p p')
      (s.lines.toList.zipIdx.filter fun p => θ.keeps p.2) s'.lines.toList.zipIdx := by
    rw [List.forall₂_and_left]
    refine ⟨fun p hp => List.mem_filter.1 hp, ?_⟩
    exact ((List.forall₂_and_left _ _).2 ⟨fun p' hp' => hp', h.lines.kept.flip⟩).flip
  refine BothOk.foldlM ?_ ?_ hpairs hr
  · intro p hp hdropped
    exact s.readNext_of_inert (h.lines.inert p hp hdropped)
  · rintro p p' ⟨⟨hp, hkept⟩, hp', hpair⟩ r r' hr
    exact h.exists_readNext hp hp' hkept hpair hr

end Scope.Thinned

end Rv32Assembler
