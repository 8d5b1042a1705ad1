import Mathlib.Data.List.Nodup
import Rv32Assembler.Macro.Pool
/-!
# Steps of a macro pool

A definition begins outside any other, with a name and parameters, and it ends with nothing behind the
end. What that makes of a pool is all that happens to it there (`MacroPool.begin_eq_ok_iff`,
`MacroPool.commit_eq_ok_iff`); anything else is refused. In between labels are noted, each once
(`MacroPool.exists_addLabel`).
-/

namespace Rv32Assembler.MacroPool

variable {p p' : MacroPool} {index line : Int}

theorem isDefining_eq_false_iff : p.isDefining = false ↔ p.current = none := by
  rw [isDefining, Option.isSome_eq_false_iff, Option.isNone_iff_eq_none]

/-- The operands are a name and parameters. -/
def isHead : List Token → Bool
  | [] => false
  | name :: rest => name.kind.isLabel && (bareParameters rest).all fun t => t.kind == .macroParameter

def headed (file : Text) (name : Token) (rest : List Token) (index : Int) : Macro :=
  { name := name.text, parameters := (bareParameters rest).map Token.text, first := index,
    firstLine := name.line, file := file }

def closed (d : Macro × List Text) (index line : Int) : Macro :=
  { d.1 with
    labels := (d.2.mergeSort fun a b => !b.before a).toArray, last := index, lastLine := line }

/-- A definition begins, or the pool stays as it is. -/
theorem start_cases (p : MacroPool) (operands : List Token) (index : Int) :
    (p.current = none ∧ isHead operands = true ∧ ∃ name rest, operands = name :: rest ∧
      p.start operands index
        = ({ p with current := some (headed p.file name rest index, []) }, none)) ∨
    ((p.current = none → isHead operands = false) ∧ ∃ e, p.start operands index = (p, some e)) := by
  rw [← isDefining_eq_false_iff]
  unfold start
  cases operands with
  | nil => cases p.isDefining <;> exact .inr ⟨fun _ => rfl, _, rfl⟩
  | cons name rest =>
    have hparameters : ((bareParameters rest).all fun t => t.kind == .macroParameter)
        = ((bareParameters rest).find? fun t => t.kind != .macroParameter).isNone := by
      rw [Bool.eq_iff_iff, List.all_eq_true, Option.isNone_iff_eq_none, List.find?_eq_none]
      simp
    rw [isHead, hparameters]
    simp only
    cases p.isDefining with
    | true => exact .inr ⟨fun h => (by cases h), _, rfl⟩
    | false =>
      rw [if_neg Bool.false_ne_true]
      cases name.kind.isLabel with
      | false => exact .inr ⟨fun _ => rfl, _, rfl⟩
      | true =>
        rw [Bool.not_true, if_neg Bool.false_ne_true]
        cases (bareParameters rest).find? fun t => t.kind != .macroParameter with
        | some t => exact .inr ⟨fun _ => rfl, _, rfl⟩
        | none => exact .inl ⟨rfl, rfl, name, rest, rfl, rfl⟩

theorem begin_eq_ok_iff {operands : List Token} :
    p.begin operands index = .ok p' ↔
      p.current = none ∧ isHead operands = true ∧ ∃ name rest, operands = name :: rest ∧
        p' = { p with current := some (headed p.file name rest index, []) } := by
  rw [begin, settled_eq_ok_iff]
  rcases p.start_cases operands index with
    ⟨hnone, hhead, name, rest, rfl, hstart⟩ | ⟨hrefused, e, hstart⟩
  · rw [hstart]
    constructor
    · rintro ⟨⟩
      exact ⟨hnone, hhead, name, rest, rfl, rfl⟩
    · rintro ⟨-, -, _, _, ⟨⟩, rfl⟩
      rfl
  · rw [hstart]
    constructor
    · rintro ⟨⟩
    · rintro ⟨hnone, hhead, -⟩
      rw [hrefused hnone] at hhead
      cases hhead

theorem commit_eq_ok_iff {trailing : List Token} :
    p.commit index line trailing = .ok p' ↔
      trailing = [] ∧ ∃ d, p.current = some d ∧
        p' = { p with macros := p.macros ++ [closed d index line], current := none } := by
  rw [commit, settled_eq_ok_iff]
  unfold finish
  cases hcurrent : p.current with
  | none => simp
  | some d => cases trailing <;> simp [closed, eq_comm]

theorem start_eq (p : MacroPool) (operands : List Token) (index : Int) :
    p.start operands index
      = match p.begin operands index with
        | .ok p' => (p', none)
        | .error e => (p, some e) := by
  rw [begin]
  rcases p.start_cases operands index with ⟨-, -, name, rest, -, hstart⟩ | ⟨-, e, hstart⟩ <;>
  · rw [hstart]
    rfl

theorem finish_eq (p : MacroPool) (index line : Int) (trailing : List Token) :
    p.finish index line trailing
      = match p.commit index line trailing with
        | .ok p' => (p', none)
        | .error e => (p, some e) := by
  unfold commit finish
  cases p.current with
  | none => rfl
  | some d => cases trailing <;> rfl

theorem addLabel_of_none (h : p.current = none) (name : Text) : p.addLabel name = p := by
  rw [addLabel, h]

theorem exists_addLabel {m : Macro} {labels : List Text} (h : p.current = some (m, labels)) (name : Text) :
    ∃ more, p.addLabel name = { p with current := some (m, more) } ∧
      (labels.Nodup → more.Nodup) ∧ ∀ x, x ∈ more ↔ x ∈ labels ∨ x = name := by
  unfold addLabel
  rw [h]
  simp only
  split
  · rename_i hmem
    refine ⟨labels, by rw [← h], id, fun x => ⟨.inl, ?_⟩⟩
    rintro (hx | rfl)
    · exact hx
    · simpa using hmem
  · rename_i hnew
    refine ⟨labels ++ [name], rfl, fun hnodup => ?_, fun x => ?_⟩
    · rw [← List.concat_eq_append]
      exact hnodup.concat (by simpa using hnew)
    · rw [List.mem_append, List.mem_singleton]

end Rv32Assembler.MacroPool
