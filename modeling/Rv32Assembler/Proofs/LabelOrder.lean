import Rv32Assembler.Proofs.PoolSteps
/-!
# Labels in order

The labels of a macro are kept in the order of their bytes and searched by halving. The search finds
exactly the labels that are there (`Macro.hasLabel_iff`).
-/

namespace Rv32Assembler

namespace Text

theorem before_irrefl (s : Text) : s.before s = false := by
  induction s with
  | nil => rfl
  | cons a s ih => simp [before, ih]

theorem before_trans {s t u : Text} (hst : s.before t = true) (htu : t.before u = true) :
    s.before u = true := by
  induction s generalizing t u with
  | nil =>
    rcases u with _ | ⟨c, u⟩
    · cases t <;> cases htu
    · rfl
  | cons a s ih =>
    rcases t with _ | ⟨b, t⟩
    · cases hst
    · rcases u with _ | ⟨c, u⟩
      · cases htu
      · simp only [before, Bool.or_eq_true, decide_eq_true_eq, Bool.and_eq_true, beq_iff_eq] at hst htu ⊢
        rcases hst with hab | ⟨rfl, hst⟩
        · rcases htu with hbc | ⟨rfl, -⟩
          · exact .inl (UInt8.lt_trans hab hbc)
          · exact .inl hab
        · rcases htu with hac | ⟨rfl, htu⟩
          · exact .inl hac
          · exact .inr ⟨rfl, ih hst htu⟩

theorem before_asymm {s t : Text} (h : s.before t = true) : t.before s = false := by
  rw [← Bool.not_eq_true]
  intro hback
  have hself := before_trans h hback
  rw [before_irrefl] at hself
  cases hself

theorem eq_of_not_before {s t : Text} (hst : s.before t = false) (hts : t.before s = false) :
    s = t := by
  induction s generalizing t with
  | nil =>
    cases t with
    | nil => rfl
    | cons b t => cases hst
  | cons a s ih =>
    rcases t with _ | ⟨b, t⟩
    · cases hts
    · simp only [before, Bool.or_eq_false_iff, decide_eq_false_iff_not, Bool.and_eq_false_imp,
        beq_iff_eq] at hst hts
      obtain rfl : a = b := UInt8.le_antisymm (UInt8.not_lt.1 hts.1) (UInt8.not_lt.1 hst.1)
      rw [ih (hst.2 rfl) (hts.2 rfl)]

/-- What does not come before something that does not come before a third does not come before it. -/
theorem not_before_trans {s t u : Text} (hts : t.before s = false) (hut : u.before t = false) :
    u.before s = false := by
  cases hus : u.before s with
  | false => rfl
  | true =>
    cases hst : s.before t with
    | true => rw [before_trans hus hst] at hut; cases hut
    | false =>
      obtain rfl := eq_of_not_before hst hts
      rw [hus] at hut
      cases hut

end Text

namespace Macro

/-- The labels are in the order of their bytes. -/
def Ordered (m : Macro) : Prop := m.labels.toList.Pairwise fun a b => b.before a = false

theorem pairwise_sorted (labels : List Text) :
    (labels.mergeSort fun a b => !b.before a).Pairwise fun a b => b.before a = false := by
  have hsorted : (labels.mergeSort fun a b => !b.before a).Pairwise fun a b => (!b.before a) = true :=
    List.pairwise_mergeSort
    (fun a b c hab hbc => by
      simp only [Bool.not_eq_true'] at hab hbc ⊢
      exact Text.not_before_trans hab hbc)
    (fun a b => by
      cases hab : b.before a with
      | false => rfl
      | true => rw [Text.before_asymm hab]; rfl)
    labels
  refine hsorted.imp ?_
  intro a b hab
  simpa using hab

/-- The search ends at the place that the labels before a name reach up to. -/
theorem searchLabel_spec {labels : Array Text} {name : Text}
    (hordered : labels.toList.Pairwise fun a b => b.before a = false) {low high : Nat}
    (hle : low ≤ high) (hsize : high ≤ labels.size)
    (hlow : ∀ i (hi : i < labels.size), i < low → labels[i].before name = true)
    (hhigh : ∀ i (hi : i < labels.size), high ≤ i → labels[i].before name = false) :
    ∀ i (hi : i < labels.size),
      labels[i].before name = true ↔ i < searchLabel labels name low high := by
  fun_induction searchLabel labels name low high with
  | case1 low high hlt middle hbefore ih =>
    have hmiddle : middle < labels.size := by omega
    rw [Array.getElem?_eq_getElem hmiddle, Option.getD_some] at hbefore
    refine ih (by omega) hsize ?_ hhigh
    intro i hi hlt'
    rcases Nat.lt_or_eq_of_le (Nat.le_of_lt_succ hlt') with hlt' | rfl
    · have hle' : labels[middle].before labels[i] = false :=
        List.pairwise_iff_getElem.1 hordered i middle hi hmiddle hlt'
      cases hi' : labels[i].before name with
      | true => rfl
      | false =>
        rw [Text.not_before_trans (s := name) (t := labels[i]) hi' hle'] at hbefore
        cases hbefore
    · exact hbefore
  | case2 low high hlt middle hbefore ih =>
    have hmiddle : middle < labels.size := by omega
    rw [Array.getElem?_eq_getElem hmiddle, Option.getD_some, Bool.not_eq_true] at hbefore
    refine ih (by omega) (by omega) hlow ?_
    intro i hi hle'
    rcases Nat.lt_or_eq_of_le hle' with hlt' | rfl
    · have hle' : labels[i].before labels[middle] = false :=
        List.pairwise_iff_getElem.1 hordered middle i hmiddle hi hlt'
      exact Text.not_before_trans hbefore hle'
    · exact hbefore
  | case3 low high hnot =>
    intro i hi
    constructor
    · intro hbefore
      apply Nat.lt_of_not_le
      intro hge
      rw [hhigh i hi (by omega)] at hbefore
      cases hbefore
    · exact hlow i hi

theorem hasLabel_iff {m : Macro} (h : m.Ordered) {name : Text} :
    m.hasLabel name = true ↔ name ∈ m.labels := by
  have hplace : ∀ i (hi : i < m.labels.size), m.labels[i].before name = true ↔
      i < searchLabel m.labels name 0 m.labels.size :=
    searchLabel_spec h (Nat.zero_le _) (Nat.le_refl _)
      (fun _ _ hlt => absurd hlt (Nat.not_lt_zero _)) (fun _ hi hge => absurd hi (Nat.not_lt.2 hge))
  rw [hasLabel, beq_iff_eq]
  generalize searchLabel m.labels name 0 m.labels.size = place at hplace ⊢
  constructor
  · exact Array.mem_of_getElem?
  · intro hmem
    obtain ⟨i, hi, rfl⟩ := Array.getElem_of_mem hmem
    have hle : place ≤ i := by
      apply Nat.le_of_not_lt
      intro hlt
      have hbefore := (hplace i hi).2 hlt
      rw [Text.before_irrefl] at hbefore
      cases hbefore
    have hsize : place < m.labels.size := by omega
    have hnot : m.labels[place].before m.labels[i] = false := by
      rw [Bool.eq_false_iff]
      exact fun hbefore => Nat.lt_irrefl _ ((hplace place hsize).1 hbefore)
    rw [Array.getElem?_eq_getElem hsize, Option.some_inj]
    rcases Nat.lt_or_eq_of_le hle with hlt | rfl
    · exact Text.eq_of_not_before hnot (List.pairwise_iff_getElem.1 h place i hsize hi hlt)
    · rfl

end Macro

theorem MacroPool.ordered_of_commit {p p' : MacroPool} {index line : Int} {trailing : List Token}
    (h : p.commit index line trailing = .ok p') (hp : ∀ m ∈ p.macros, m.Ordered) :
    ∀ m ∈ p'.macros, m.Ordered := by
  obtain ⟨-, d, -, rfl⟩ := commit_eq_ok_iff.1 h
  intro m hm
  rcases List.mem_append.1 hm with hm | hm
  · exact hp m hm
  · obtain rfl := List.mem_singleton.1 hm
    exact Macro.pairwise_sorted _

end Rv32Assembler
