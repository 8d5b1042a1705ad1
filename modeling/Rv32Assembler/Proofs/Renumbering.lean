import Rv32Assembler.Proofs.AlikeLines
/-!
# Files with renumbered lines

Two files have the same lines at other places and with other numbers, and a line of the one is read in
step with a line of the other. The macros then have the same bodies at other places, calls find the
same macros, and an expansion makes the same text. So the readings stay in step down through all
expansions (`LineReading.InStep.exists_result`), provided that the first file is read without an error;
for the guard against endless expansion, which looks at numbers, may refuse a call in one file alone.

The expansions of the two files need not have the same numbers. They must where a macro has labels.
-/

namespace Rv32Assembler

/-! ### Places -/

/-- How the places of lines change from one file to another. The number of a line is one more than its
place. -/
structure Renumbering where
  place : Int → Int
  /-- The places of the lines that both files have. -/
  kept : Int → Prop
  /-- The places of the lines that the second file has alone. -/
  fresh : Int → Prop
  /-- The expansions have the same numbers in both files. -/
  counted : Prop
  place_lt : ∀ {i j : Int}, kept i → kept j → (place i < place j ↔ i < j)
  not_fresh : ∀ {i : Int}, kept i → ¬fresh (place i)

namespace Renumbering

variable {ρ : Renumbering}

def number (ρ : Renumbering) (n : Int) : Int := ρ.place (n - 1) + 1

theorem number_injective {n m : Int} (hn : ρ.kept (n - 1)) (hm : ρ.kept (m - 1))
    (h : ρ.number n = ρ.number m) : n = m := by
  have hless := ρ.place_lt hn hm
  have hmore := ρ.place_lt hm hn
  unfold number at h
  omega

/-- The lines from one place to another are kept and stay together. -/
def Steady (ρ : Renumbering) (a b : Int) : Prop :=
  ∀ i, a ≤ i → i ≤ b → ρ.kept i ∧ ρ.place i = ρ.place a + (i - a)

theorem Steady.trans {a b c : Int} (hab : ρ.Steady a b) (hbc : ρ.Steady b c) : ρ.Steady a c := by
  intro i hlow hhigh
  by_cases hi : i ≤ b
  · exact hab i hlow hi
  · obtain ⟨hkept, hplace⟩ := hbc i (by omega) hhigh
    refine ⟨hkept, ?_⟩
    by_cases hle : a ≤ b
    · have hmiddle := (hab b hle (by omega)).2
      omega
    · have hstart := (hbc a (by omega) (by omega)).2
      omega

/-- A place stays together with all that stays together with `n`. -/
structure At (ρ : Renumbering) (n i : Int) : Prop where
  kept : ρ.kept i
  after : ρ.Steady i n
  before : ∀ a, ρ.Steady a n → ρ.Steady a i

theorem at_self {n : Int} (h : ρ.kept n) : ρ.At n n := by
  refine ⟨h, ?_, fun a ha => ha⟩
  intro i hlow hhigh
  obtain rfl : i = n := by omega
  exact ⟨h, by omega⟩

theorem bodyIndices_eq (m m' : Macro) (hfirst : m'.first = ρ.place m.first)
    (hlast : m'.last = ρ.place m.last) (hkept : ρ.kept m.first) (hkept' : ρ.kept m.last)
    (h : ρ.Steady m.first m.last) :
    Reading.bodyIndices m' = (Reading.bodyIndices m).map ρ.place ∧
      ∀ i ∈ Reading.bodyIndices m, ρ.kept i := by
  have hinside {i : Int} (hi : i ∈ Reading.bodyIndices m) :=
    h i (Int.le_of_lt (Reading.mem_bodyIndices hi).1) (Int.le_of_lt (Reading.mem_bodyIndices hi).2)
  refine ⟨?_, fun i hi => (hinside hi).1⟩
  have hcount : (m'.last - m'.first - 1).toNat = (m.last - m.first - 1).toNat := by
    rw [hfirst, hlast]
    by_cases hle : m.first ≤ m.last
    · have hmoved := (h m.last hle (by omega)).2
      omega
    · have hless := (ρ.place_lt hkept' hkept).2 (by omega)
      omega
  unfold Reading.bodyIndices
  rw [hcount, List.map_map]
  apply List.map_congr_left
  intro j hj
  have hj' : m.first + 1 + (j : Int) ∈ Reading.bodyIndices m := List.mem_map.2 ⟨j, hj, rfl⟩
  have hmoved := (hinside hj').2
  simp only [Function.comp_apply]
  omega

end Renumbering

/-! ### Macros -/

variable {ρ : Renumbering} {n : Int}

/-- The macros are the same, at other places. -/
structure Macro.Moved (ρ : Renumbering) (m m' : Macro) : Prop where
  name : m'.name = m.name
  parameters : m'.parameters = m.parameters
  labels : m'.labels = m.labels
  kept : ρ.kept m.first
  first : m'.first = ρ.place m.first
  body : Reading.bodyIndices m' = (Reading.bodyIndices m).map ρ.place
  keptBody : ∀ i ∈ Reading.bodyIndices m, ρ.kept i

/-- The definitions under way are the same, and from their start to the line at `n` all stays
together. -/
structure MacroPool.Opened (ρ : Renumbering) (n : Int) (d d' : Macro × List Text) : Prop where
  name : d'.1.name = d.1.name
  parameters : d'.1.parameters = d.1.parameters
  labels : d'.2 = d.2
  kept : ρ.kept d.1.first
  first : d'.1.first = ρ.place d.1.first
  steady : ρ.Steady d.1.first n

structure MacroPool.Moved (ρ : Renumbering) (n : Int) (p p' : MacroPool) : Prop where
  macros : List.Forall₂ (Macro.Moved ρ) p.macros p'.macros
  current : Option.Rel (MacroPool.Opened ρ n) p.current p'.current
  counter : ρ.counted → p'.counter = p.counter
  silent : ¬ρ.counted → (∀ m ∈ p.macros, m.labels = #[]) ∧ ∀ d, p.current = some d → d.2 = []

namespace MacroPool.Moved

theorem fresh (name : Text) : MacroPool.Moved ρ n { file := name } { file := name } :=
  ⟨.nil, .none, fun _ => rfl, fun _ => ⟨nofun, nofun⟩⟩

variable {p p' : MacroPool}

theorem isDefining (h : p.Moved ρ n p') : p'.isDefining = p.isDefining :=
  isDefining_alike h.current

theorem step (h : p.Moved ρ n p') {k : Int} (hk : ρ.Steady n k) : p.Moved ρ k p' := by
  refine { h with current := ?_ }
  have hcurrent := h.current
  generalize p.current = d, p'.current = d' at hcurrent ⊢
  cases hcurrent with
  | none => exact .none
  | some hd => exact .some { hd with steady := hd.steady.trans hk }

theorem restart (h : p.Moved ρ n p') (hnone : p.current = none) (k : Int) : p.Moved ρ k p' := by
  refine { h with current := ?_ }
  have hcurrent := h.current
  rw [hnone] at hcurrent ⊢
  generalize p'.current = d' at hcurrent ⊢
  cases hcurrent
  exact .none

theorem nextCounter (h : p.Moved ρ n p') : p.nextCounter.2.Moved ρ n p'.nextCounter.2 :=
  { h with counter := fun hcounted => congrArg (· + 1) (h.counter hcounted) }

theorem addLabel (h : p.Moved ρ n p') (hcounted : p.isDefining = true → ρ.counted) (name : Text) :
    (p.addLabel name).Moved ρ n (p'.addLabel name) := by
  have hcurrent := h.current
  unfold MacroPool.isDefining at hcounted
  unfold MacroPool.addLabel
  generalize hd : p.current = d, hd' : p'.current = d' at hcurrent hcounted
  cases hcurrent with
  | none => exact h
  | @some d d' hopened =>
    obtain ⟨m, labels⟩ := d
    obtain ⟨m', labels'⟩ := d'
    obtain rfl : labels' = labels := hopened.labels
    simp only
    split
    · exact h
    · refine ⟨h.macros, .some { hopened with labels := rfl }, h.counter, ?_⟩
      intro hnot
      exact absurd (hcounted rfl) hnot

theorem matching (h : p.Moved ρ n p') {call call' : List Token}
    (hcall : List.Forall₂ Token.Alike call call') :
    Option.Rel (Macro.Moved ρ) (p.matching call) (p'.matching call') := by
  refine matching_alike Macro.Moved.name Macro.Moved.parameters ?_ h.macros hcall
  intro b b' m m' hb hm
  rw [hb.first, hm.first]
  exact ρ.place_lt hb.kept hm.kept

theorem begin (h : p.Moved ρ n p') {i : Int} (hi : ρ.At n i) {ts ts' : List Token}
    (hts : List.Forall₂ Token.Alike ts ts') :
    Except.Alike (MacroPool.Moved ρ n) (p.begin ts i) (p'.begin ts' (ρ.place i)) := by
  have hbegin := begin_alike h.isDefining i (ρ.place i) hts
  generalize p.begin ts i = q, p'.begin ts' (ρ.place i) = q' at hbegin ⊢
  cases hbegin with
  | error => exact .error _ _
  | ok hstarts =>
    obtain ⟨m, m', rfl, rfl, hname, hparameters, rfl, hfirst⟩ := hstarts
    refine .ok ⟨h.macros, .some ⟨hname, hparameters, rfl, hi.kept, hfirst, hi.after⟩, h.counter, ?_⟩
    intro hcounted
    refine ⟨(h.silent hcounted).1, ?_⟩
    intro d hd
    cases hd
    rfl

theorem commit (h : p.Moved ρ n p') {i : Int} (hi : ρ.At n i) (line line' : Int)
    {ts ts' : List Token} (hts : List.Forall₂ Token.Alike ts ts') :
    Except.Alike (MacroPool.Moved ρ n) (p.commit i line ts) (p'.commit (ρ.place i) line' ts') := by
  have hcommit := commit_alike h.current i (ρ.place i) line line' hts
  generalize p.commit i line ts = q, p'.commit (ρ.place i) line' ts' = q' at hcommit ⊢
  cases hcommit with
  | error => exact .error _ _
  | ok hends =>
    obtain ⟨d, d', hopened, hd, rfl, rfl⟩ := hends
    have hlabels : (closed d' (ρ.place i) line').labels = (closed d i line).labels := by
      simp only [closed, hopened.labels]
    refine .ok ⟨List.rel_append h.macros (.cons ?_ .nil), .none, h.counter, ?_⟩
    · obtain ⟨hbody, hkept⟩ := Renumbering.bodyIndices_eq (closed d i line)
        (closed d' (ρ.place i) line') hopened.first rfl hopened.kept hi.kept
        (hi.before _ hopened.steady)
      exact ⟨hopened.name, hopened.parameters, hlabels, hopened.kept, hopened.first, hbody, hkept⟩
    · intro hcounted
      obtain ⟨hmacros, hnone⟩ := h.silent hcounted
      refine ⟨?_, fun d hd => by cases hd⟩
      intro m hm
      rcases List.mem_append.1 hm with hm | hm
      · exact hmacros m hm
      · obtain rfl := List.mem_singleton.1 hm
        simp [closed, hnone d hd]

/-- Moved macros are what reading asks for, where definitions start and end at places that stay
together. -/
theorem tracks (ρ : Renumbering) (n : Int) :
    Tracks (MacroPool.Moved ρ n) (Macro.Moved ρ) ρ.counted
      (fun i i' => i' = ρ.place i ∧ ρ.At n i) where
  isDefining h := h.isDefining
  addLabel h hcounted name := h.addLabel hcounted name
  matching h _ _ hcall := h.matching hcall
  begin h _ _ := by
    rintro ⟨rfl, hi⟩ ts ts' hts
    exact h.begin hi hts
  commit h _ _ := by
    rintro ⟨rfl, hi⟩ line line' ts ts' hts
    exact h.commit hi line line' hts

end MacroPool.Moved

theorem Macro.Moved.substitute {m m' : Macro} (h : m.Moved ρ m') {call call' : List Token}
    (hcall : List.Forall₂ Token.Alike call call') {counter counter' : Int}
    (hcounter : counter' = counter ∨ m.labels = #[]) {lines lines' : Array TokenLine} {i : Int}
    (hi : i ∈ Reading.bodyIndices m) {l l' : TokenLine} (hl : lineAt? lines i = some l)
    (hl' : lineAt? lines' (ρ.place i) = some l') (hline : l.Alike l') :
    m'.substitute lines' (ρ.place i) call' counter' = m.substitute lines i call counter := by
  have hi' : ρ.place i ∈ Reading.bodyIndices m' := by
    rw [h.body]
    exact List.mem_map_of_mem hi
  exact substitute_alike h.parameters h.labels hcall hcounter hi hi' hl hl' hline

/-! ### Lines in step -/

/-- The calls are the same. -/
structure MacroCall.Alike (ρ : Renumbering) (n : Int) (c c' : MacroCall) : Prop where
  before : c.before.Alike (MacroPool.Moved ρ n) c'.before
  callee : c.callee.Moved ρ c'.callee
  tokens : List.Forall₂ Token.Alike c.tokens c'.tokens

namespace Reading.Alike

variable {r r' : Reading} {note note' : Text} {l l' : TokenLine} {i i' : Int}

/-- A line in a definition has no labels, unless the expansions have the same numbers. -/
def Allows (ρ : Renumbering) (r : Reading) (labels : List Text) : Prop :=
  r.pool.isDefining = true → labels ≠ [] → ρ.counted

theorem callIn? (h : Alike (MacroPool.Moved ρ n) r r') (hline : l.Alike l')
    (hlabels : Allows ρ r l.labels) :
    Option.Rel (MacroCall.Alike ρ n) (r.callIn? note l) (r'.callIn? note' l') := by
  have hcalls : Option.Rel (MacroCall.Tracks (MacroPool.Moved ρ n) (Macro.Moved ρ))
      (r.callIn? note l) (r'.callIn? note' l') :=
    (MacroPool.Moved.tracks ρ n).callIn? h hline hlabels
  generalize r.callIn? note l = c, r'.callIn? note' l' = c' at hcalls ⊢
  cases hcalls with
  | none => exact .none
  | some hcall => exact .some ⟨hcall.before, hcall.callee, hcall.tokens⟩

theorem readPlainLine (h : Alike (MacroPool.Moved ρ n) r r') {s s' : Scope}
    (hconfig : s'.config = s.config) (hisa : s'.isa = s.isa) (hunit : s'.unit = s.unit)
    (hline : l.Alike l') (hlabels : Allows ρ r l.labels)
    (hi : l.delimits = true → i' = ρ.place i ∧ ρ.At n i) :
    Alike (MacroPool.Moved ρ n) (r.readPlainLine s note i l) (r'.readPlainLine s' note' i' l') :=
  (MacroPool.Moved.tracks ρ n).readPlainLine h hconfig hisa hunit hline hlabels hi

end Reading.Alike

end Rv32Assembler
