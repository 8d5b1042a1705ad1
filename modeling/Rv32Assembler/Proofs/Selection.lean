import Rv32Assembler.Proofs.Expansion
/-!
# The selected form

A form is selected for the operands of a statement, and the operands are then checked against it. Both
come down to one relation, `Instruction.Fits`: as many operands as the form has places, each of a kind
that fits its place. So the check passes if the operands fit any form of the mnemonic, the form it
passes for is the first of them, and an objection to the selected form means that there is none
(`check_select`). In RV32IM that first form is a basic one if the operands fit a basic one.
-/

namespace Rv32Assembler

namespace Instruction

/-- There is an operand for each place of the form, of a kind that fits the place. -/
def Fits (i : Instruction) (operands : List Token) : Prop :=
  List.Forall₂ (fun required (t : Token) => (required.fit t.kind).isOk = true) i.format operands

variable {i : Instruction} {operands : List Token}

theorem accepts_iff_fits : i.accepts operands = true ↔ i.Fits operands := by
  rw [accepts, Fits, List.forall₂_iff_zip, Bool.and_eq_true, beq_iff_eq, List.all_eq_true,
    Prod.forall]

theorem check_eq_none_iff_fits {operator : Token} :
    i.check operator operands = none ↔ i.Fits operands :=
  ⟨forall₂_of_check, fun h => check_of_forall₂ h operator⟩

end Instruction

namespace Registry

open Instruction (select)

variable {isa : Registry} {mnemonic : Text} {operands : List Token} {i : Instruction}

theorem mem_lookup_iff : i ∈ isa.lookup mnemonic ↔ i ∈ isa.forms ∧ i.name = mnemonic.lower := by
  rw [lookup, List.mem_filter, beq_iff_eq]

theorem find?_lookup (isa : Registry) (mnemonic : Text) (operands : List Token) :
    (isa.lookup mnemonic).find? (fun i => i.accepts operands)
      = isa.forms.find? fun i => i.name == mnemonic.lower && i.accepts operands := by
  simp only [lookup, List.find?_filter, Bool.decide_and, Bool.decide_eq_true]

/-- The form comes before all others of the mnemonic that fit. -/
def IsFirstFit (isa : Registry) (mnemonic : Text) (operands : List Token) (i : Instruction) : Prop :=
  i.name = mnemonic.lower ∧ i.Fits operands ∧ ∃ before after, isa.forms = before ++ i :: after ∧
    ∀ j ∈ before, j.name = mnemonic.lower → ¬ j.Fits operands

theorem exists_select_of_fits {j : Instruction} (hj : j ∈ isa.lookup mnemonic)
    (hfits : j.Fits operands) :
    ∃ i, select (isa.lookup mnemonic) operands = some i ∧ isa.IsFirstFit mnemonic operands i := by
  obtain ⟨hform, hname⟩ := mem_lookup_iff.1 hj
  cases hfind : isa.forms.find? fun i => i.name == mnemonic.lower && i.accepts operands with
  | none =>
    have hnot := List.find?_eq_none.1 hfind j hform
    simp [hname, Instruction.accepts_iff_fits.2 hfits] at hnot
  | some i =>
    obtain ⟨hi, before, after, hsplit, hbefore⟩ := List.find?_eq_some_iff_append.1 hfind
    rw [Bool.and_eq_true, beq_iff_eq] at hi
    refine ⟨i, ?_, hi.1, Instruction.accepts_iff_fits.1 hi.2, before, after, hsplit, ?_⟩
    · rw [select, find?_lookup, hfind]
      rfl
    · intro k hk hkname hkfits
      have hpassed := hbefore k hk
      simp [hkname, Instruction.accepts_iff_fits.2 hkfits] at hpassed

/-- A selected form that fits is the first that does. -/
theorem isFirstFit_of_select (hselect : select (isa.lookup mnemonic) operands = some i)
    (hfits : i.Fits operands) : isa.IsFirstFit mnemonic operands i := by
  obtain ⟨first, hfirst, h⟩ := exists_select_of_fits (Instruction.mem_of_select hselect) hfits
  obtain rfl : i = first := Option.some.inj (hselect.symm.trans hfirst)
  exact h

end Registry

namespace Rv32im

/-- No pseudo form comes before a basic one. -/
theorem pairwise_forms :
    registry.forms.Pairwise fun i j => j.isExtended = false → i.isExtended = false := by
  have hbasic : ∀ i ∈ basic, i.isExtended = false := by decide
  have hextended : ∀ i ∈ extended, i.isExtended = true := by decide
  refine List.pairwise_append.2 ⟨?_, ?_, ?_⟩
  · exact List.pairwise_of_forall_mem_list fun i hi _ _ _ => hbasic i hi
  · refine List.pairwise_of_forall_mem_list fun _ _ j hj hj' => ?_
    rw [hextended j hj] at hj'
    cases hj'
  · exact fun i hi _ _ _ => hbasic i hi

theorem isExtended_of_isFirstFit {mnemonic : Text} {operands : List Token} {i j : Instruction}
    (h : registry.IsFirstFit mnemonic operands i) (hj : j ∈ registry.lookup mnemonic)
    (hfits : j.Fits operands) (hbasic : j.isExtended = false) : i.isExtended = false := by
  obtain ⟨-, -, before, after, hsplit, hbefore⟩ := h
  obtain ⟨hform, hname⟩ := Registry.mem_lookup_iff.1 hj
  have hpairwise := pairwise_forms
  rw [hsplit] at hform hpairwise
  rcases List.mem_append.1 hform with hform | hform
  · exact absurd hfits (hbefore j hform hname)
  · rcases List.mem_cons.1 hform with rfl | hform
    · exact hbasic
    · exact (List.pairwise_cons.1 (List.pairwise_append.1 hpairwise).2.1).1 j hform hbasic

end Rv32im

open Instruction (select) in
/-- The check of the selected form passes exactly where it passes for some form of the mnemonic. The
form that it passes for is the first of those in the instruction set, and where it fails, it fails for
all. In RV32IM a basic form for which it passes is never passed over for a pseudo form. -/
theorem check_select (isa : Registry) (mnemonic : Text) (operator : Token) (operands : List Token) :
    ((∃ i, select (isa.lookup mnemonic) operands = some i ∧ i.check operator operands = none) ↔
        ∃ i ∈ isa.lookup mnemonic, i.check operator operands = none) ∧
      (∀ i, select (isa.lookup mnemonic) operands = some i → i.check operator operands = none →
        ∃ before after, isa.forms = before ++ i :: after ∧ i.name = mnemonic.lower ∧
          ∀ j ∈ before, j.name = mnemonic.lower → j.check operator operands ≠ none) ∧
      (∀ i, select (isa.lookup mnemonic) operands = some i → i.check operator operands ≠ none →
        ∀ j ∈ isa.lookup mnemonic, j.check operator operands ≠ none) ∧
      ∀ j ∈ Rv32im.registry.lookup mnemonic, j.isExtended = false →
        j.check operator operands = none →
        ∃ i, select (Rv32im.registry.lookup mnemonic) operands = some i ∧ i.isExtended = false ∧
          i.check operator operands = none := by
  simp only [ne_eq, Instruction.check_eq_none_iff_fits]
  refine ⟨⟨?_, ?_⟩, ?_, ?_, ?_⟩
  · rintro ⟨i, hselect, hfits⟩
    exact ⟨i, Instruction.mem_of_select hselect, hfits⟩
  · rintro ⟨j, hj, hfits⟩
    obtain ⟨i, hselect, -, hi, -⟩ := Registry.exists_select_of_fits hj hfits
    exact ⟨i, hselect, hi⟩
  · intro i hselect hfits
    obtain ⟨hname, -, before, after, hsplit, hbefore⟩ :=
      Registry.isFirstFit_of_select hselect hfits
    exact ⟨before, after, hsplit, hname, hbefore⟩
  · intro i hselect hnot j hj hfits
    obtain ⟨first, hfirst, -, hi, -⟩ := Registry.exists_select_of_fits hj hfits
    obtain rfl : i = first := Option.some.inj (hselect.symm.trans hfirst)
    exact hnot hi
  · intro j hj hbasic hfits
    obtain ⟨i, hselect, hfirst⟩ := Registry.exists_select_of_fits hj hfits
    exact ⟨i, hselect, Rv32im.isExtended_of_isFirstFit hfirst hj hfits hbasic, hfirst.2.1⟩

open Instruction (select) in
/-- A load from a label, for which the basic form is passed over; and a load from a register without
parentheses, to which the check objects for the basic form and which fits none. -/
theorem check_select_loads :
    let operator : Token := ⟨.operator, "LW", "a.s", 1, 1, 0, 0, 0⟩
    let target : Token := ⟨.registerName, "t0", "a.s", 1, 4, 3, 5, 0⟩
    let label : Token := ⟨.identifier, "msg", "a.s", 1, 8, 7, 0, 0⟩
    (∃ i, select (Rv32im.registry.lookup "LW") [target, label] = some i ∧
        i.check operator [target, label] = none ∧ i.sample = "lw t1,label") ∧
      ∀ j ∈ Rv32im.registry.lookup "LW", j.check operator [target, target] ≠ none := by
  intro operator target label
  obtain ⟨⟨-, hfound⟩, -⟩ := check_select Rv32im.registry "LW" operator [target, label]
  obtain ⟨-, -, hnone, -⟩ := check_select Rv32im.registry "LW" operator [target, target]
  constructor
  · obtain ⟨i, hselect, hcheck⟩ := hfound (by decide +kernel)
    have hsample : (select (Rv32im.registry.lookup "LW") [target, label]).map Instruction.sample
        = some "lw t1,label" := by decide +kernel
    rw [hselect] at hsample
    exact ⟨i, hselect, hcheck, Option.some.inj hsample⟩
  · have hrefused : (select (Rv32im.registry.lookup "LW") [target, target]).map
        (fun i => (i.check operator [target, target]).isSome) = some true := by decide +kernel
    obtain ⟨i, hselect, hi⟩ := Option.map_eq_some_iff.1 hrefused
    exact hnone i hselect (Option.isSome_iff_ne_none.1 hi)

end Rv32Assembler
