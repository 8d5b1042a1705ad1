import Rv32Assembler.Proofs.Readings
/-!
# Definitions of macros

What a line does to the macros: its labels go to the macro under definition, and the directives that
delimit definitions start or end one. Nothing else changes them, so readings that delimit nothing
leave the macros as they are (`Steps.macros`).
-/

namespace Rv32Assembler

/-! ### What a line defines -/

def TokenLine.isWrong (l : TokenLine) : Bool :=
  l.withoutComment.tokens.any fun t => t.kind == .error

def TokenLine.labels (l : TokenLine) : List Text :=
  if l.isWrong then [] else leadingLabels l.withoutComment.tokens

def TokenLine.directive? (l : TokenLine) : Option Directive :=
  if l.isWrong then none
  else
    match afterLabels l.withoutComment.tokens with
    | t :: _ => if t.kind == .directive then Directive.ofName? t.text else none
    | [] => none

def TokenLine.delimits (l : TokenLine) : Bool :=
  l.directive? == some .beginMacro || l.directive? == some .endMacro

namespace Reading

theorem snd_defineLabels (r : Reading) (note : Text) (tokens : List Token) :
    (r.defineLabels note tokens).2 = afterLabels tokens := by
  fun_induction afterLabels tokens generalizing r with
  | case1 label colon rest h ih => rw [defineLabels_of_label r note rest h, ih]
  | case2 label colon rest h => rw [defineLabels_of_other r note rest h]
  | case3 tokens h => rw [defineLabels_of_short r note h]

theorem pool_defineLabels {r : Reading} (h : r.pool.current = none) (note : Text)
    (tokens : List Token) : (r.defineLabels note tokens).1.pool = r.pool := by
  induction tokens using afterLabels.induct generalizing r with
  | case1 label colon rest hlabel ih =>
    have hsame : (r.defineLabel note label).pool = r.pool := by
      unfold defineLabel MacroPool.isDefining
      rw [h]
      split
      · contradiction
      · split <;> rfl
    rw [defineLabels_of_label r note rest hlabel, ih (by rw [hsame, h]), hsame]
  | case2 label colon rest hother => rw [defineLabels_of_other r note rest hother]
  | case3 tokens hshort => rw [defineLabels_of_short r note hshort]

theorem mem_defineLabels {r : Reading} {m : Macro} {labels : List Text}
    (h : r.pool.current = some (m, labels)) (note : Text) (tokens : List Token) :
    ∃ more, (r.defineLabels note tokens).1.pool = { r.pool with current := some (m, more) } ∧
      ∀ x, x ∈ labels ∨ x ∈ leadingLabels tokens → x ∈ more := by
  induction tokens using afterLabels.induct generalizing r labels with
  | case1 label colon rest hlabel ih =>
    rw [defineLabels_of_label r note rest hlabel]
    obtain ⟨some', hadd, -, hsome⟩ := MacroPool.exists_addLabel h label.text
    have hfirst : (r.defineLabel note label).pool = { r.pool with current := some (m, some') } := by
      unfold defineLabel MacroPool.isDefining
      rw [if_pos (by rw [h]; rfl), hadd]
    obtain ⟨more, hmore, hall⟩ := ih (by rw [hfirst])
    refine ⟨more, by rw [hmore, hfirst], ?_⟩
    rintro x (hx | hx)
    · exact hall x (.inl ((hsome x).2 (.inl hx)))
    · rw [leadingLabels, if_pos hlabel] at hx
      rcases List.mem_cons.1 hx with hx | hx
      · exact hall x (.inl ((hsome x).2 (.inr hx)))
      · exact hall x (.inr hx)
  | case2 label colon rest hnot =>
    rw [defineLabels_of_other r note rest hnot]
    refine ⟨labels, by rw [← h], ?_⟩
    rintro x (hx | hx)
    · exact hx
    · rw [leadingLabels, if_neg hnot] at hx
      cases hx
  | case3 tokens hshort =>
    rw [defineLabels_of_short r note hshort]
    refine ⟨labels, by rw [← h], ?_⟩
    rintro x (hx | hx)
    · exact hx
    · unfold leadingLabels at hx
      split at hx
      · rename_i label colon rest
        exact absurd rfl (hshort label colon rest)
      · cases hx

theorem macros_defineLabels (r : Reading) (note : Text) (tokens : List Token) :
    (r.defineLabels note tokens).1.pool.macros = r.pool.macros := by
  cases h : r.pool.current with
  | none => rw [pool_defineLabels h]
  | some defining =>
    obtain ⟨more, hmore, -⟩ := mem_defineLabels h note tokens
    rw [hmore]

theorem isDefining_defineLabels (r : Reading) (note : Text) (tokens : List Token) :
    (r.defineLabels note tokens).1.pool.isDefining = r.pool.isDefining := by
  unfold MacroPool.isDefining
  cases h : r.pool.current with
  | none => rw [pool_defineLabels h, h]
  | some defining =>
    obtain ⟨more, hmore, -⟩ := mem_defineLabels h note tokens
    rw [hmore]
    rfl

end Reading

/-! ### Readings that delimit nothing -/

namespace LineReading

theorem plain_eq (v : LineReading) :
    v.plain =
      if v.line.isWrong then v.before
      else
        let r := (v.before.defineLabels v.note v.line.withoutComment.tokens).1
        match afterLabels v.line.withoutComment.tokens with
        | [] => r
        | first :: rest =>
          if first.kind == .directive then r.execute v.note v.index first rest
          else if r.pool.isDefining then r
          else r.readPlain v.scope v.note v.line first rest := by
  unfold plain Reading.readPlainLine TokenLine.isWrong
  simp only
  rewrite [← v.before.snd_defineLabels v.note]
  obtain ⟨r, tokens⟩ := v.before.defineLabels v.note v.line.withoutComment.tokens
  cases tokens <;> rfl

theorem not_delimits_of_call? {v : LineReading} {c : MacroCall} (h : v.call? = some c) :
    v.line.delimits = false := by
  unfold call? Reading.callIn? at h
  simp only at h
  have hnone : v.line.directive? = none := by
    unfold TokenLine.directive?
    split
    · rfl
    · split at h
      · cases h
      · rw [← v.before.snd_defineLabels v.note]
        generalize v.before.defineLabels v.note v.line.withoutComment.tokens = labelled at h ⊢
        obtain ⟨r, tokens⟩ := labelled
        cases tokens with
        | nil => rfl
        | cons first rest =>
          simp only at h ⊢
          split at h
          · cases h
          · rename_i hplain
            simp only [Bool.or_eq_true, not_or] at hplain
            rw [if_neg hplain.1]
  rw [TokenLine.delimits, hnone]
  rfl

/-- Outside a definition a line that delimits nothing leaves the macros alone. -/
theorem pool_plain {v : LineReading} (h : v.before.pool.current = none)
    (hline : v.line.delimits = false) : v.plain.pool = v.before.pool := by
  have hpool := Reading.pool_defineLabels h v.note v.line.withoutComment.tokens
  unfold TokenLine.delimits TokenLine.directive? at hline
  rw [plain_eq]
  split
  · rfl
  · rename_i hwrong
    rw [if_neg hwrong] at hline
    cases hafter : afterLabels v.line.withoutComment.tokens with
    | nil => exact hpool
    | cons first rest =>
      simp only [hafter] at hline ⊢
      generalize (v.before.defineLabels v.note v.line.withoutComment.tokens).1 = r at hpool ⊢
      split
      · rename_i hdirective
        rw [if_pos hdirective, Bool.or_eq_false_iff] at hline
        have hnot : ¬r.pool.isDefining = true := by
          rw [MacroPool.isDefining, hpool, h]
          decide
        unfold Reading.execute
        cases hname : Directive.ofName? first.text with
        | none => exact hpool
        | some d =>
          simp only
          rw [if_neg hnot, r.pool_executePlain v.note v.index _ _ first rest]
          · exact hpool
          · rintro rfl
            simp [hname] at hline
          · rintro rfl
            simp [hname] at hline
      · split
        · exact hpool
        · rw [Reading.pool_readPlain]
          exact hpool

theorem current_of_call? {v : LineReading} {c : MacroCall} (h : v.call? = some c) :
    v.before.pool.current = none := by
  obtain ⟨hbefore, hdefining, -⟩ := of_call? h
  rw [hbefore, Reading.isDefining_defineLabels] at hdefining
  exact MacroPool.isDefining_eq_false_iff.1 hdefining

theorem pool_before {v : LineReading} {c : MacroCall} (h : v.call? = some c) :
    c.before.pool = v.before.pool := by
  rw [(of_call? h).1, Reading.pool_defineLabels (current_of_call? h)]

end LineReading

/-- Readings that delimit nothing leave the macros as they are, and all see the same ones. -/
theorem Steps.macros {s : Scope} {r r' : Reading} {vs : List LineReading} (h : Steps s r vs r')
    (hvs : ∀ v ∈ vs, v.line.delimits = false) (hr : r.pool.current = none) :
    r'.pool.current = none ∧ r'.pool.macros = r.pool.macros ∧
      ∀ v ∈ vs, v.before.pool.current = none ∧ v.before.pool.macros = r.pool.macros := by
  induction h with
  | nil r => exact ⟨hr, rfl, by intro v hv; cases hv⟩
  | message r ms => exact ⟨hr, rfl, by intro v hv; cases hv⟩
  | append _ _ ih₁ ih₂ =>
    obtain ⟨hr₁, hmacros₁, hall₁⟩ := ih₁ (fun v hv => hvs v (List.mem_append_left _ hv)) hr
    obtain ⟨hr₂, hmacros₂, hall₂⟩ := ih₂ (fun v hv => hvs v (List.mem_append_right _ hv)) hr₁
    refine ⟨hr₂, hmacros₂.trans hmacros₁, ?_⟩
    intro v hv
    rcases List.mem_append.1 hv with hv | hv
    · exact hall₁ v hv
    · exact ⟨(hall₂ v hv).1, (hall₂ v hv).2.trans hmacros₁⟩
  | @plain v _ _ _ =>
    have hpool := LineReading.pool_plain hr (hvs v (List.mem_singleton.2 rfl))
    exact ⟨by rw [hpool, hr], by rw [hpool], by simp [hr]⟩
  | @refused v c _ _ hc _ =>
    have hpool := LineReading.pool_before hc
    exact ⟨by rw [← hr, ← hpool]; rfl, by rw [← hpool]; rfl, by simp [hr]⟩
  | @enter v c _ _ hc _ =>
    have hpool := LineReading.pool_before hc
    exact ⟨by rw [← hr, ← hpool]; rfl, by rw [← hpool]; rfl, by simp [hr]⟩

/-! ### Lines of a file and lines of a body -/

namespace LineReading

theorem exists_append_of_mem_inTurn {α : Type} {readings : Reading → α → List LineReading}
    {read : Reading → α → Except Fault Reading} {xs : List α} {r : Reading} {w : LineReading}
    (hw : w ∈ inTurn readings read r xs) :
    ∃ ys x zs r₁, xs = ys ++ x :: zs ∧ ys.foldlM read r = .ok r₁ ∧ w ∈ readings r₁ x := by
  induction xs generalizing r with
  | nil => cases hw
  | cons x xs ih =>
    rcases List.mem_append.1 hw with hw | hw
    · exact ⟨[], x, xs, r, rfl, rfl, hw⟩
    · split at hw
      · rename_i r₁ hfirst
        obtain ⟨ys, y, zs, r₂, rfl, hread, hw⟩ := ih hw
        refine ⟨x :: ys, y, zs, r₂, rfl, ?_, hw⟩
        rw [List.foldlM_cons, hfirst]
        exact hread
      · cases hw

/-- What a reading leads to are lines of bodies. -/
theorem exists_bodyLine?_of_mem_readings {v w : LineReading} (hw : w ∈ v.readings) :
    w = v ∨ ∃ u c r i, bodyLine? u c r i = some w := by
  rw [readings] at hw
  rcases List.mem_cons.1 hw with rfl | hw
  · exact .inl rfl
  · right
    split at hw
    · cases hw
    · rename_i c _
      split at hw
      · rename_i hroom
        obtain ⟨-, i, -, r, -, -, hw⟩ := exists_append_of_mem_inTurn hw
        split at hw
        · cases hw
        · rename_i u hu
          have hsmaller := room_of_bodyLine? hu hroom
          rcases exists_bodyLine?_of_mem_readings hw with rfl | hbody
          · exact ⟨v, c, r, i, hu⟩
          · exact hbody
      · cases hw
termination_by v.scope.room v.stack

theorem callers_of_mem_readings {v w : LineReading} (hw : w ∈ v.readings) :
    w = v ∨ w.callers ≠ [] := by
  rcases exists_bodyLine?_of_mem_readings hw with heq | ⟨u, c, r, i, hbody⟩
  · exact .inl heq
  · have hcallers := (of_bodyLine? hbody).2.1
    exact .inr (hcallers ▸ List.cons_ne_nil _ _)

end LineReading

end Rv32Assembler
