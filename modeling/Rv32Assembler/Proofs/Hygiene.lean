import Rv32Assembler.Isa.Rv32im
import Rv32Assembler.Proofs.InternalLabels
import Rv32Assembler.Proofs.Substitution
/-!
# Lines of a body in an expansion

A body line in an expansion is the line with some of its tokens exchanged (`Text.Exchanges`): parameters
for arguments, labels of the macro for their new names. Between and behind them not a byte changes,
and what is put in is not looked at again. Only a parameter that the macro does not have is refused
(`Macro.substitute_of_committed`).
-/

namespace Rv32Assembler

open Text

/-! ### Exchanging tokens -/

/-- The first text, which starts at a place of a line, becomes the second when each of the tokens is
exchanged for a text that `puts` allows. -/
inductive Text.Exchanges (puts : Token → Text → Prop) : Nat → Text → List Token → Text → Prop
  | rest (place : Nat) (s : Text) : Exchanges puts place s [] s
  | token {place : Nat} {gap s new out : Text} {t : Token} {ts : List Token}
      (hplace : t.offset = place + gap.length) (hnew : puts t new)
      (h : Exchanges puts t.stop s ts out) :
      Exchanges puts place (gap ++ (t.text ++ s)) (t :: ts) (gap ++ (new ++ out))

namespace Text.Exchanges

variable {puts : Token → Text → Prop} {place : Nat} {s out : Text} {ts : List Token}

theorem exists_of_mem (h : Exchanges puts place s ts out) : ∀ t ∈ ts, ∃ new, puts t new := by
  induction h with
  | rest => simp
  | token _ hnew _ ih => exact List.forall_mem_cons.2 ⟨⟨_, hnew⟩, ih⟩

theorem unique (hputs : ∀ t new new', puts t new → puts t new' → new = new') {out' : Text}
    (h : Exchanges puts place s ts out) (h' : Exchanges puts place s ts out') : out = out' := by
  induction h generalizing out' with
  | rest => cases h'; rfl
  | @token place gap s new out t ts hplace hnew _ ih =>
    generalize hline : gap ++ (t.text ++ s) = line at h'
    cases h' with
    | @token _ gap' s' new' out' _ _ hplace' hnew' hrest' =>
      have hlength : gap.length = gap'.length := by omega
      obtain ⟨rfl, hbehind⟩ := List.append_inj hline hlength
      obtain rfl := List.append_cancel_left hbehind
      rw [hputs t new new' hnew hnew', ih hrest']

end Text.Exchanges

theorem Text.Spells.drop_eq {s : Text} {done : Nat} {t : Token} {ts : List Token}
    (h : s.Spells done (t :: ts)) :
    s.drop done = (s.drop done).take (t.offset - done) ++ (t.text ++ s.drop t.stop) ∧
      t.offset = done + ((s.drop done).take (t.offset - done)).length := by
  obtain ⟨hstart, -, hslice, -⟩ := h
  have hbounds := le_of_slice? hslice
  rw [slice?_of_le hbounds.1 hbounds.2, Option.some_inj, List.drop_take] at hslice
  have hoffset : done + (t.offset - done) = t.offset := by omega
  have hstop : t.offset + (t.stop - t.offset) = t.stop := by omega
  constructor
  · conv_lhs => rw [← List.take_append_drop (t.offset - done) (s.drop done), List.drop_drop, hoffset,
      ← List.take_append_drop (t.stop - t.offset) (s.drop t.offset), List.drop_drop, hstop, hslice]
  · rw [List.length_take, List.length_drop]
    omega

namespace Macro

/-! ### What is put in -/

/-- The definition of the macro came to its end. -/
def Committed (m : Macro) : Prop :=
  ∃ (p p' : MacroPool) (index line : Int) (trailing : List Token),
    p.commit index line trailing = .ok p' ∧ p'.macros = p.macros ++ [m]

theorem Committed.ordered {m : Macro} (h : m.Committed) : m.Ordered := by
  obtain ⟨p, p', index, line, trailing, hcommit, hmacros⟩ := h
  have hnone : { p with macros := [] }.commit index line trailing = .ok { p' with macros := [m] } := by
    obtain ⟨rfl, d, hcurrent, rfl⟩ := MacroPool.commit_eq_ok_iff.1 hcommit
    refine MacroPool.commit_eq_ok_iff.2 ⟨rfl, d, hcurrent, ?_⟩
    rw [← List.append_cancel_left hmacros]
    rfl
  exact MacroPool.ordered_of_commit hnone (by simp) m (List.mem_singleton_self m)

variable {m : Macro} {call : List Token} {counter : Int} {t : Token}

/-- What is put in place of a token of the body: for a parameter the argument at the first place where
the macro has it, for a label of the macro its new name. All else stays. -/
inductive Puts (m : Macro) (call : List Token) (counter : Int) : Token → Text → Prop
  | argument {t argument : Token} {i : Nat} (hkind : t.kind = .macroParameter)
      (hi : m.parameters[i]? = some t.text) (hfirst : ∀ j < i, m.parameters[j]? ≠ some t.text)
      (hargument : call[i + 1]? = some argument) : Puts m call counter t argument.text
  | label {t : Token} (hkind : t.kind = .identifier ∨ t.kind = .operator) (hlabel : t.text ∈ m.labels) :
      Puts m call counter t (t.text ++ "_M" ++ decimal counter)
  | kept {t : Token} (hparameter : t.kind ≠ .macroParameter)
      (hlabel : ¬((t.kind = .identifier ∨ t.kind = .operator) ∧ t.text ∈ m.labels)) :
      Puts m call counter t t.text

/-- The token is a parameter that the macro does not have. -/
def Lacks (m : Macro) (t : Token) : Prop := t.kind = .macroParameter ∧ t.text ∉ m.parameters

theorem isLabel_iff {k : Kind} : k.isLabel = true ↔ k = .identifier ∨ k = .operator := by
  simp [Kind.isLabel]

theorem Puts.unique {new new' : Text} (h : m.Puts call counter t new) (h' : m.Puts call counter t new') :
    new = new' := by
  have hexclusive (hkind : t.kind = .macroParameter) : ¬(t.kind = .identifier ∨ t.kind = .operator) := by
    simp [hkind]
  cases h with
  | @argument argument i hkind hi hfirst hargument =>
    cases h' with
    | @argument argument' i' hkind' hi' hfirst' hargument' =>
      have hsame : i = i' := by
        rcases Nat.lt_trichotomy i i' with hlt | rfl | hlt
        · exact absurd hi (hfirst' i hlt)
        · rfl
        · exact absurd hi' (hfirst i' hlt)
      rw [← hsame, hargument] at hargument'
      rw [Option.some_inj.1 hargument']
    | label hlabel _ => exact absurd hlabel (hexclusive hkind)
    | kept hparameter _ => exact absurd hkind hparameter
  | label hkind hlabel =>
    cases h' with
    | argument hparameter _ _ _ => exact absurd hkind (hexclusive hparameter)
    | label _ _ => rfl
    | kept _ hnot => exact absurd ⟨hkind, hlabel⟩ hnot
  | kept hparameter hnot =>
    cases h' with
    | argument hkind _ _ _ => exact absurd hkind hparameter
    | label hkind hlabel => exact absurd ⟨hkind, hlabel⟩ hnot
    | kept _ _ => rfl

theorem not_lacks_of_puts {new : Text} (h : m.Puts call counter t new) : ¬m.Lacks t := by
  rintro ⟨hkind, hmem⟩
  cases h with
  | argument _ hi _ _ => exact hmem (List.mem_of_getElem? hi)
  | label hlabel _ => simp [hkind] at hlabel
  | kept hparameter _ => exact hparameter hkind

/-- A call with an argument for each parameter is refused a replacement for no other reason than that
the macro lacks the parameter. -/
theorem replacement_cases (hm : m.Ordered) (hcall : call.length = m.parameters.length + 1) (counter : Int)
    (t : Token) :
    (m.Lacks t ∧ m.replacement call counter t = .error (.unknownParameter t.text)) ∨
      ∃ new, m.replacement call counter t = .ok new ∧ m.Puts call counter t (new.getD t.text) := by
  by_cases hparameter : t.kind = .macroParameter
  · unfold replacement
    rw [if_pos (by simp [hparameter])]
    cases hfind : m.parameters.findIdx? fun p => p == t.text with
    | none =>
      rw [List.findIdx?_eq_none_iff] at hfind
      exact .inl ⟨⟨hparameter, fun hmem => by simpa using hfind _ hmem⟩, rfl⟩
    | some i =>
      obtain ⟨hlt, hi, hfirst⟩ := List.findIdx?_eq_some_iff_getElem.1 hfind
      have hargument : i + 1 < call.length := by omega
      simp only [List.getElem?_eq_getElem hargument]
      refine .inr ⟨_, rfl, .argument hparameter ?_ ?_ (List.getElem?_eq_getElem hargument)⟩
      · rw [List.getElem?_eq_getElem hlt, eq_of_beq hi]
      · intro j hj hsame
        have hsmall : j < m.parameters.length := Nat.lt_trans hj hlt
        rw [List.getElem?_eq_getElem hsmall, Option.some_inj] at hsame
        exact hfirst j hj (by simp [hsame])
  · by_cases hlabel : t.kind.isLabel = true
    · refine .inr ⟨_, replacement_of_isLabel hm call counter hlabel, ?_⟩
      by_cases hmem : t.text ∈ m.labels
      · rw [if_pos hmem]
        exact .label (isLabel_iff.1 hlabel) hmem
      · rw [if_neg hmem]
        exact .kept hparameter fun h => hmem h.2
    · refine .inr ⟨none, replacement_of_plain hparameter (by simpa using hlabel), ?_⟩
      exact .kept hparameter fun h => hlabel (isLabel_iff.2 h.1)

/-! ### Lines -/

/-- The replacements in a line are refused for the first parameter that the macro lacks. -/
theorem edits_cases (hm : m.Ordered) (hcall : call.length = m.parameters.length + 1) (counter : Int)
    (ts : List Token) :
    (∃ before t behind, ts = before ++ t :: behind ∧ (∀ x ∈ before, ¬m.Lacks x) ∧ m.Lacks t ∧
        m.edits call counter ts = .error (.unknownParameter t.text)) ∨
      (∀ t ∈ ts, ¬m.Lacks t) ∧ ∃ edits, m.edits call counter ts = .ok edits := by
  induction ts with
  | nil => exact .inr ⟨by simp, [], rfl⟩
  | cons t ts ih =>
    rcases replacement_cases hm hcall counter t with ⟨hlacks, hreplacement⟩ | ⟨new, hnew, hputs⟩
    · exact .inl ⟨[], t, ts, rfl, by simp, hlacks, by rw [edits, hreplacement]; rfl⟩
    · have hfirst := not_lacks_of_puts hputs
      rcases ih with ⟨before, x, behind, rfl, hbefore, hlacks, hedits⟩ | ⟨hnone, later, hedits⟩
      · refine .inl ⟨t :: before, x, behind, rfl, List.forall_mem_cons.2 ⟨hfirst, hbefore⟩, hlacks, ?_⟩
        rw [edits, hnew, hedits]
        rfl
      · refine .inr ⟨List.forall_mem_cons.2 ⟨hfirst, hnone⟩, ?_⟩
        rw [edits, hnew, hedits]
        cases new <;> exact ⟨_, rfl⟩

/-- The replacements exchange tokens and leave the rest of the text alone. -/
theorem exchanges_splice (hm : m.Ordered) (hcall : call.length = m.parameters.length + 1) {s : Text}
    {done : Nat} {ts : List Token} (hspells : s.Spells done ts) {edits : List Edit}
    (hedits : m.edits call counter ts = .ok edits) :
    Exchanges (m.Puts call counter) done (s.drop done) ts (s.splice done edits) := by
  induction ts generalizing done edits with
  | nil =>
    cases hedits
    exact .rest _ _
  | cons t ts ih =>
    obtain ⟨new, later, hnew, hlater, rfl⟩ := exists_edits_cons hedits
    obtain ⟨hline, hplace⟩ := hspells.drop_eq
    have hadmits : s.Admits t.stop later := hspells.2.2.2.admits (sublist_edits hlater)
    have hputs : m.Puts call counter t (new.getD t.text) := by
      rcases replacement_cases hm hcall counter t with ⟨-, hrefused⟩ | ⟨new', hnew', hputs⟩
      · rw [hnew] at hrefused
        cases hrefused
      · rw [hnew] at hnew'
        cases hnew'
        exact hputs
    have hexchanges := Exchanges.token hplace hputs (ih hspells.2.2.2 hlater)
    rwa [← hline, ← hspells.splice_cons hadmits] at hexchanges

/-- A body line in an expansion is the line of the file in which parameters are exchanged for arguments
and labels of the macro for their new names, and nothing else. It is refused only where it has a
parameter that the macro lacks, and then for the first of these. -/
theorem substitute_of_committed {m : Macro} (hm : m.Committed) {v : Vocabulary} {text : Text}
    {source : SourceLine} {lines : Array TokenLine} {index : Int} (hfirst : m.first < index)
    (hlast : index < m.last) (hline : lineAt? lines index = some (v.tokenizeText text source).1)
    {call : List Token} (hcall : call.length = m.parameters.length + 1) (counter : Int) :
    (∀ out, m.substitute lines index call counter = .ok out ↔
      Exchanges (m.Puts call counter) 0 text (v.tokenizeText text source).1.tokens out) ∧
    ((∃ e, m.substitute lines index call counter = .error e) ↔
      ∃ t ∈ (v.tokenizeText text source).1.tokens, t.kind = .macroParameter ∧ t.text ∉ m.parameters) ∧
    ∀ e, m.substitute lines index call counter = .error e →
      ∃ before t behind, (v.tokenizeText text source).1.tokens = before ++ t :: behind ∧
        (∀ x ∈ before, ¬m.Lacks x) ∧ m.Lacks t ∧ e = .unknownParameter t.text := by
  have hspells : text.Spells 0 (v.tokenizeText text source).1.tokens :=
    v.spanned_tokenizeText text source
  have hsubstitute : m.substitute lines index call counter =
      (m.edits call counter (v.tokenizeText text source).1.tokens).map (text.splice 0 ·) := by
    have hinside : (decide (index ≤ m.first) || decide (m.last ≤ index)) = false := by
      rw [Bool.or_eq_false_iff, decide_eq_false_iff_not, decide_eq_false_iff_not]
      omega
    rw [substitute, hinside, hline]
    rfl
  generalize (v.tokenizeText text source).1.tokens = ts at *
  rw [hsubstitute]
  rcases edits_cases hm.ordered hcall counter ts with
    ⟨before, t, behind, hts, hbefore, hlacks, hedits⟩ | ⟨hnone, edits, hedits⟩
  · rw [hedits]
    have ht : t ∈ ts := by simp [hts]
    refine ⟨fun out => ⟨?_, fun h => ?_⟩, ⟨fun _ => ⟨t, ht, hlacks⟩, fun _ => ⟨_, rfl⟩⟩, ?_⟩
    · rintro ⟨⟩
    · obtain ⟨new, hputs⟩ := h.exists_of_mem t ht
      exact absurd hlacks (not_lacks_of_puts hputs)
    · rintro e ⟨⟩
      exact ⟨before, t, behind, hts, hbefore, hlacks, rfl⟩
  · rw [hedits]
    have hexchanges := exchanges_splice hm.ordered hcall hspells hedits
    rw [List.drop_zero] at hexchanges
    refine ⟨fun out => ⟨?_, fun h => ?_⟩, ⟨?_, ?_⟩, ?_⟩
    · rintro ⟨⟩
      exact hexchanges
    · exact congrArg Except.ok (hexchanges.unique (fun _ _ _ hnew hnew' => hnew.unique hnew') h)
    · rintro ⟨e, ⟨⟩⟩
    · rintro ⟨t, ht, hlacks⟩
      exact absurd hlacks (hnone t ht)
    · rintro e ⟨⟩

def mixMacro : Macro where
  name := "mix"
  parameters := ["%a", "%b", "%a"]
  labels := #["loop", "é"]
  first := 0
  last := 3
  firstLine := 1
  lastLine := 4
  file := "a.s"

def mixPool : MacroPool where
  file := "a.s"
  current := some ({ mixMacro with labels := #[], last := 0, lastLine := 0 }, ["loop", "é"])

def mixLine (text : Text) (line : Int) : TokenLine :=
  ((Rv32im.registry.vocabulary true).tokenizeText text ⟨text, "a.s", line⟩).1

def mixLines : Array TokenLine :=
  #[mixLine ".macro mix(%a, %b, %a)" 1, mixLine "loop: %a é,\"loop %a\" loops %b\t%b # %a" 2,
    mixLine "é: %a %c %d" 3, mixLine ".end_macro" 4, mixLine "mix(loop, %a, 'é')" 5]

def mixCall : List Token := (mixLine "mix(loop, %a, 'é')" 5).tokens.filter fun t =>
  t.kind != .leftParen && t.kind != .rightParen

/-- The arguments have the names of a label and of a parameter of the macro, and stay as they are; so do
the string and the comment. The second line has parameters that the macro lacks. -/
theorem substitute_of_committed_mix :
    mixMacro.Committed ∧
    mixMacro.substitute mixLines 1 mixCall 7 = .ok "loop_M7: loop é_M7,\"loop %a\" loops %a\t%a # %a" ∧
    Exchanges (mixMacro.Puts mixCall 7) 0 "loop: %a é,\"loop %a\" loops %b\t%b # %a"
      (mixLine "loop: %a é,\"loop %a\" loops %b\t%b # %a" 2).tokens
      "loop_M7: loop é_M7,\"loop %a\" loops %a\t%a # %a" ∧
    mixMacro.substitute mixLines 2 mixCall 7 = .error (.unknownParameter "%c") := by
  have hcommitted : mixMacro.Committed := by
    have hsorted : (["loop", "é"] : List Text).mergeSort (fun a b => !b.before a) = ["loop", "é"] :=
      List.mergeSort_of_pairwise (by decide +kernel)
    refine ⟨mixPool, { mixPool with current := none, macros := [mixMacro] }, 3, 4, [], ?_, rfl⟩
    simp only [MacroPool.commit, MacroPool.finish, mixPool, hsorted]
    rfl
  have hcall : mixCall.length = mixMacro.parameters.length + 1 := by decide +kernel
  obtain ⟨hfirst, -⟩ := @substitute_of_committed mixMacro hcommitted (Rv32im.registry.vocabulary true)
    _ _ mixLines 1 (by decide) (by decide) rfl mixCall hcall 7
  have hout : mixMacro.substitute mixLines 1 mixCall 7
      = .ok "loop_M7: loop é_M7,\"loop %a\" loops %a\t%a # %a" := by decide +kernel
  exact ⟨hcommitted, hout, (hfirst _).1 hout, by decide +kernel⟩

end Macro

end Rv32Assembler
