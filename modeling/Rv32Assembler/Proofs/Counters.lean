import Rv32Assembler.Proofs.Readings
/-!
# Numbers of expansions

The expansions of a file have the numbers 1, 2, 3, … in the order in which they start, nested or not
(`Steps.counts`). Only an expansion takes a number: a call that is refused, a definition
and a message leave the counter as it was.
-/

namespace Rv32Assembler

namespace Reading

theorem counter_defineLabels (r : Reading) (note : Text) (tokens : List Token) :
    (r.defineLabels note tokens).1.pool.counter = r.pool.counter := by
  induction tokens using afterLabels.induct generalizing r with
  | case1 label colon rest hlabel ih =>
    rw [r.defineLabels_of_label note rest hlabel]
    refine (ih _).trans ?_
    unfold defineLabel
    split
    · cases hcurrent : r.pool.current with
      | none => rw [MacroPool.addLabel_of_none hcurrent]
      | some d =>
        obtain ⟨more, hadd, -⟩ := MacroPool.exists_addLabel hcurrent label.text
        rw [hadd]
    · split <;> rfl
  | case2 label colon rest hother => rw [r.defineLabels_of_other note rest hother]
  | case3 tokens hshort => rw [r.defineLabels_of_short note hshort]

theorem counter_of_begin {p p' : MacroPool} {operands : List Token} {index : Int}
    (h : p.begin operands index = .ok p') : p'.counter = p.counter := by
  obtain ⟨-, -, name, rest, -, rfl⟩ := MacroPool.begin_eq_ok_iff.1 h
  rfl

theorem counter_of_commit {p p' : MacroPool} {index line : Int} {trailing : List Token}
    (h : p.commit index line trailing = .ok p') : p'.counter = p.counter := by
  obtain ⟨-, d, -, rfl⟩ := MacroPool.commit_eq_ok_iff.1 h
  rfl

theorem counter_execute (r : Reading) (note : Text) (index : Int) (t : Token) (ts : List Token) :
    (r.execute note index t ts).pool.counter = r.pool.counter := by
  rcases r.execute_cases note index t ts with heq | hbegin | hcommit
  · rw [heq]
  · exact counter_of_begin hbegin
  · exact counter_of_commit hcommit

end Reading

namespace LineReading

theorem counter_plain (v : LineReading) : v.plain.pool.counter = v.before.pool.counter := by
  have hlabels := v.before.counter_defineLabels v.note v.line.withoutComment.tokens
  unfold plain Reading.readPlainLine
  simp only
  split
  · rfl
  · generalize v.before.defineLabels v.note v.line.withoutComment.tokens = labelled at hlabels ⊢
    obtain ⟨r, tokens⟩ := labelled
    cases tokens with
    | nil => exact hlabels
    | cons first rest =>
      simp only
      split
      · exact (r.counter_execute v.note v.index first rest).trans hlabels
      · split
        · exact hlabels
        · rw [Reading.pool_readPlain]
          exact hlabels

theorem counter_before {v : LineReading} {c : MacroCall} (h : v.call? = some c) :
    c.before.pool.counter = v.before.pool.counter := by
  rw [(of_call? h).1]
  exact v.before.counter_defineLabels _ _

def expansion? (v : LineReading) : Option MacroCall :=
  if v.line.source.line ∈ v.stack.lines then none else v.call?

theorem expansion?_eq_some_iff {v : LineReading} {c : MacroCall} :
    v.expansion? = some c ↔ v.call? = some c ∧ v.line.source.line ∉ v.stack.lines := by
  unfold expansion?
  split
  · simp_all
  · simp_all

def counters (vs : List LineReading) : List Nat :=
  vs.filterMap fun v => v.expansion?.map MacroCall.counter

theorem counters_of_none {v : LineReading} (h : v.expansion? = none) : counters [v] = [] := by
  simp [counters, h]

theorem counters_of_some {v : LineReading} {c : MacroCall} (h : v.expansion? = some c) :
    counters [v] = [c.counter] := by
  simp [counters, h]

theorem counters_append (vs ws : List LineReading) :
    counters (vs ++ ws) = counters vs ++ counters ws := List.filterMap_append

end LineReading

/-- The numbers from one counter up to another, the first left out. -/
structure Counts (low : Nat) (numbers : List Nat) (high : Nat) : Prop where
  le : low ≤ high
  numbers : numbers = List.range' (low + 1) (high - low)

namespace Counts

theorem nil (n : Nat) : Counts n [] n := ⟨Nat.le_refl n, by simp⟩

theorem one (n : Nat) : Counts n [n + 1] (n + 1) := ⟨Nat.le_succ n, by simp⟩

theorem append {low mid high : Nat} {ns ms : List Nat} (hn : Counts low ns mid)
    (hm : Counts mid ms high) : Counts low (ns ++ ms) high := by
  have hlow := hn.le
  have hhigh := hm.le
  refine ⟨hlow.trans hhigh, ?_⟩
  have hstart : mid + 1 = low + 1 + (mid - low) := by omega
  have hcount : high - low = (mid - low) + (high - mid) := by omega
  rw [hn.numbers, hm.numbers, hstart, hcount, List.range'_append_1]

theorem pairwise {low high : Nat} {ns : List Nat} (h : Counts low ns high) :
    ns.Pairwise (· < ·) := by
  rw [h.numbers]
  exact List.pairwise_lt_range'

end Counts

theorem Steps.counts {s : Scope} {r r' : Reading} {vs : List LineReading} (h : Steps s r vs r') :
    Counts r.pool.counter (LineReading.counters vs) r'.pool.counter := by
  induction h with
  | nil r => exact .nil _
  | append _ _ ih₁ ih₂ =>
    rw [LineReading.counters_append]
    exact ih₁.append ih₂
  | message r ms => exact .nil _
  | @plain v _ _ hc =>
    have hnone : v.expansion? = none := by simp [LineReading.expansion?, hc]
    rw [LineReading.counters_of_none hnone, v.counter_plain]
    exact .nil _
  | @refused v c _ _ hc hloop =>
    have hnone : v.expansion? = none := by simp [LineReading.expansion?, hloop]
    rw [LineReading.counters_of_none hnone, ← LineReading.counter_before hc]
    exact .nil _
  | @enter v c _ _ hc hnew =>
    have hsome := LineReading.expansion?_eq_some_iff.2 ⟨hc, hnew⟩
    rw [LineReading.counters_of_some hsome, ← LineReading.counter_before hc]
    exact .one _

end Rv32Assembler
