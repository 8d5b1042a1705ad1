import Mathlib.Logic.Relation
import Rv32Assembler.Proofs.Replacement
/-!
# Names that values leave

A value is what its line says once the names in it have given way, so a name that is defined before the
line is not in it any more. It comes back only out of values that were put into the line, and out of
those that were put into theirs (`Vocabulary.Feeds`). At the end of this way a line has left the name in
its value, because the name was defined only behind that line, or because that line spared it. So a name
that is defined is left in a line where the line itself spares it, or where a value brings it in that goes
back to a line before the definition (`Vocabulary.identifiers_of_tokenizeFile`). What is not so tame are
values that are no tokens by themselves: a single quote that is put in makes literals of what stood
between others.
-/

namespace Rv32Assembler

open Text

namespace Equivalences

variable {es : Equivalences} {name : Text} {e : Equivalence}

theorem name_of_find? (h : es.find? name = some e) : e.name = name := by
  have hfound := List.find?_some h
  exact eq_of_beq hfound

theorem find?_append (es more : Equivalences) (name : Text) :
    find? (es ++ more) name = (es.find? name).or (more.find? name) := List.find?_append

theorem find?_of_prefix {more : Equivalences} (h : es <+: more) (he : es.find? name = some e) :
    more.find? name = some e := by
  obtain ⟨later, rfl⟩ := h
  rw [find?_append, he, Option.some_or]

end Equivalences

/-! ### What a line defines -/

namespace TokenLine

/-- The tokens of the value, if the line is a definition. -/
def valueTokens (l : TokenLine) : List Token :=
  match l.withoutComment.equivalence? with
  | none => []
  | some place => l.withoutComment.tokens.drop (place + 2)

theorem valueTokens_suffix (l : TokenLine) : l.valueTokens <:+ l.withoutComment.tokens := by
  unfold valueTokens
  split
  · exact List.nil_suffix
  · exact List.drop_suffix _ _

theorem mem_tokens_of_mem_valueTokens {l : TokenLine} {t : Token} (ht : t ∈ l.valueTokens) :
    t ∈ l.tokens := by
  obtain ⟨comments, htokens, -⟩ := l.exists_comments
  rw [htokens]
  exact List.mem_append_left _ (l.valueTokens_suffix.subset ht)

/-- The value has the name, so many bytes behind its start. -/
def Mentions (l : TokenLine) (name : Text) (n : Nat) : Prop :=
  ∃ first ∈ l.valueTokens.head?, ∃ t ∈ l.valueTokens, t.kind = .identifier ∧ t.text = name ∧
    t.offset = first.offset + n

/-- A definition is entered when its value does not have the name in it. -/
theorem exists_of_definition {l : TokenLine} {es : Equivalences} {e : Equivalence}
    (h : l.definition es = .ok (some e)) :
    ∃ first rest, l.valueTokens = first :: rest ∧ e.value = l.slice first (rest.getLastD first) ∧
      ∀ t ∈ first :: rest, t.kind = .identifier → t.text ≠ e.name := by
  have htext : l.withoutComment.text = l.text := by
    unfold withoutComment
    repeat' split
    all_goals rfl
  unfold definition at h
  simp only at h
  split at h
  · cases h
  · rename_i place hplace
    split at h
    · rename_i directive symbol first rest htokens
      have hvalue : l.valueTokens = first :: rest := by
        simp only [valueTokens, hplace, ← List.drop_drop, htokens]
        rfl
      split at h
      · cases h
      · split at h
        · cases h
        · rename_i hnone
          split at h
          · cases h
            refine ⟨first, rest, hvalue, ?_, fun t ht hkind hname => ?_⟩
            · simp only [slice, htext]
            · have hself := List.find?_eq_none.1 hnone t ht
              simp [hkind, hname] at hself
          · split at h <;> cases h
    · cases h
    · cases h

end TokenLine

namespace Vocabulary

variable (v : Vocabulary) (log : Log) (lines : List SourceLine)

/-- The line at place `i` of a file enters the equivalence. -/
def Defines (i : Nat) (e : Equivalence) : Prop :=
  ∃ F, (v.tokenizeFile log lines).1[i]? = some F ∧ F.definition (v.inForce log lines i) = .ok (some e)

/-- The line at place `i` of a file has a name in it that gives way to the value of line `j`. -/
def Feeds (j i : Nat) : Prop :=
  ∃ F, (v.tokenizeFile log lines).1[i]? = some F ∧
    ∃ t e, (v.tokenize F.source).1.Replaces (v.inForce log lines i) t e ∧ v.Defines log lines j e

/-- The token of line `i` is spared: the line as written keeps it, as its label or as the symbol that it
defines, or it stands right behind a number that lies across an end of a value. -/
def Spares (i : Nat) (F : TokenLine) (t : Token) : Prop :=
  let es := v.inForce log lines i
  let written := (v.tokenize F.source).1
  (∃ k t₀, written.tokens[k]? = some t₀ ∧ written.Keeps k ∧ t.text = t₀.text ∧
    t.offset = written.comesTo es t₀.offset) ∨
  ∃ u ∈ F.tokens, u.kind.isNumeric = true ∧ u.stop = t.offset ∧ ∃ n, written.SeamAt es n ∧ u.Straddles n

/-- The value of the equivalence stems from an earlier line that feeds line `i`, and has the name in it, so
many bytes behind its start. -/
def Brings (i : Nat) (e : Equivalence) (name : Text) (n : Nat) : Prop :=
  ∃ j < i, ∃ G, (v.tokenizeFile log lines).1[j]? = some G ∧
    G.definition (v.inForce log lines j) = .ok (some e) ∧ v.Feeds log lines j i ∧ G.Mentions name n

/-- The value of line `o` has the name of the equivalence in it, for the name is defined only on a later
line, or line `o` spares it. -/
def Leaves (o : Nat) (e : Equivalence) : Prop :=
  ∃ F, (v.tokenizeFile log lines).1[o]? = some F ∧ ∃ t ∈ F.valueTokens, t.kind = .identifier ∧
    t.text = e.name ∧ ((∃ d, o < d ∧ v.Defines log lines d e) ∨ v.Spares log lines o F t)

variable {v log lines} {i j : Nat} {F : TokenLine} {e : Equivalence}

/-! ### What is in force -/

theorem inForce_succ (hF : (v.tokenizeFile log lines).1[i]? = some F) :
    v.inForce log lines (i + 1) = v.inForce log lines i ++
      ((F.definition (v.inForce log lines i)).toOption.bind id).toList := by
  obtain ⟨hline, hunder⟩ := eq_tokenizeUnder hF
  rw [inForce, v.afterLines_succ log hline]
  unfold tokenizeNext
  simp only
  rw [← hunder]
  cases F.definition (v.inForce log lines i) with
  | error failure => exact (List.append_nil _).symm
  | ok defined => rfl

theorem inForce_of_le (h : lines.length ≤ i) : v.inForce log lines (i + 1) = v.inForce log lines i := by
  rw [inForce, inForce, List.take_of_length_le h, List.take_of_length_le (Nat.le_succ_of_le h)]

theorem getElem?_tokenizeFile_of_le (h : lines.length ≤ i) : (v.tokenizeFile log lines).1[i]? = none := by
  rw [tokenizeFile, (v.tokenizeLines_eq ([], log) lines).2, List.getElem?_eq_none h, Option.map_none]

theorem exists_getElem?_tokenizeFile (v : Vocabulary) (log : Log) (h : i < lines.length) :
    ∃ F, (v.tokenizeFile log lines).1[i]? = some F := by
  rw [tokenizeFile, (v.tokenizeLines_eq ([], log) lines).2, List.getElem?_eq_getElem h]
  exact ⟨_, rfl⟩

/-- In force is what earlier lines define. -/
theorem mem_inForce_iff : e ∈ v.inForce log lines i ↔ ∃ j < i, v.Defines log lines j e := by
  induction i with
  | zero => simp [inForce, afterLines]
  | succ i ih =>
    have hlast : (∃ j < i + 1, v.Defines log lines j e) ↔
        (∃ j < i, v.Defines log lines j e) ∨ v.Defines log lines i e := by
      constructor
      · rintro ⟨j, hj, hdefines⟩
        rcases Nat.lt_succ_iff_lt_or_eq.1 hj with hj | rfl
        · exact .inl ⟨j, hj, hdefines⟩
        · exact .inr hdefines
      · rintro (⟨j, hj, hdefines⟩ | hdefines)
        · exact ⟨j, Nat.lt_succ_of_lt hj, hdefines⟩
        · exact ⟨i, Nat.lt_succ_self i, hdefines⟩
    rw [hlast, ← ih]
    rcases Nat.lt_or_ge i lines.length with hi | hi
    · obtain ⟨F, hF⟩ := v.exists_getElem?_tokenizeFile log hi
      rw [inForce_succ hF, List.mem_append, Option.mem_toList]
      refine or_congr_right ?_
      rw [Defines]
      simp only [hF, Option.some_inj, exists_eq_left']
      cases F.definition (v.inForce log lines i) with
      | error failure => simp [Except.toOption]
      | ok defined => simp [Except.toOption]
    · rw [inForce_of_le hi]
      refine (or_iff_left ?_).symm
      rintro ⟨F, hF, -⟩
      rw [getElem?_tokenizeFile_of_le hi] at hF
      cases hF

theorem prefix_inForce (h : j ≤ i) : v.inForce log lines j <+: v.inForce log lines i := by
  induction h with
  | refl => exact List.prefix_rfl
  | @step i _ ih =>
    refine ih.trans ?_
    rcases Nat.lt_or_ge i lines.length with hi | hi
    · obtain ⟨F, hF⟩ := v.exists_getElem?_tokenizeFile log hi
      rw [inForce_succ hF]
      exact List.prefix_append ..
    · rw [inForce_of_le hi]

theorem exists_later_of_find? {name : Text} (hnone : (v.inForce log lines j).find? name = none)
    (he : (v.inForce log lines i).find? name = some e) :
    ∃ d, j ≤ d ∧ d < i ∧ v.Defines log lines d e := by
  obtain ⟨d, hd, hdefines⟩ := mem_inForce_iff.1 (List.mem_of_find?_eq_some he)
  refine ⟨d, Nat.le_of_not_lt fun hlt => ?_, hd, hdefines⟩
  have hother := List.find?_eq_none.1 hnone e (mem_inForce_iff.2 ⟨d, hlt, hdefines⟩)
  exact hother (beq_iff_eq.2 (Equivalences.name_of_find? he))

/-- A value is a passage of the line that defines it, if none of its tokens is wrong. -/
theorem exists_passage_of_definition (hF : (v.tokenizeFile log lines).1[i]? = some F)
    {es : Equivalences} (he : F.definition es = .ok (some e))
    (hright : ∀ t ∈ F.valueTokens, t.kind ≠ .error) :
    (∃ vs, e.value = ofGlyphs vs ∧
      Passage v (fun name n => n ≤ e.value.length ∧ F.Mentions name (e.value.length - n)) vs) ∧
    ∀ name n, F.Mentions name n → n + name.length ≤ e.value.length := by
  obtain ⟨line, hsource⟩ := exists_tokenizeText hF
  obtain ⟨first, rest, hvalue, heq, -⟩ := TokenLine.exists_of_definition he
  obtain ⟨front, hfront⟩ : first :: rest <:+ F.withoutComment.tokens := hvalue ▸ F.valueTokens_suffix
  obtain ⟨comments, htokens, -⟩ := F.exists_comments
  rw [← hfront, List.append_assoc] at htokens
  have hspells : F.text.Spells 0 F.tokens := by
    rw [hsource]
    exact v.spanned_tokenizeText F.text line
  have hplaces : F.text.Spells 0 (first :: rest) := by
    have hdrop := (hspells.drop front.length).take (first :: rest).length
    rwa [htokens, List.drop_left, List.take_left] at hdrop
  have hbounds {t : Token} (ht : t ∈ first :: rest) := hplaces.stop_le_last ht
  have hkinds : ∀ t ∈ first :: rest, t.kind ≠ .comment ∧ t.kind ≠ .error := by
    intro t ht
    have hmem : t ∈ F.withoutComment.tokens := hfront ▸ List.mem_append_right _ ht
    refine ⟨(TokenLine.of_mem_withoutComment ?_ hmem).2, hright t (hvalue ▸ ht)⟩
    rw [hsource]
    exact (v.partitioned_tokenizeText F.text line).comment
  obtain ⟨vs, hslice, hpassage⟩ : ∃ vs,
      (F.text.take (rest.getLastD first).stop).drop first.offset = ofGlyphs vs ∧
        Passage v (fun name n => ∃ t ∈ first :: rest, t.kind = .identifier ∧ t.text = name ∧
          n = (rest.getLastD first).stop - t.offset) vs :=
    exists_passage_of_tokens (hsource ▸ htokens) hkinds fun t ht hkind => ⟨t, ht, hkind, rfl, rfl⟩
  have hvs : e.value = ofGlyphs vs := by
    rw [heq, TokenLine.slice, hslice, hpassage.trim_eq]
  have hlength : e.value.length = (rest.getLastD first).stop - first.offset := by
    have hlast := hplaces.last.2
    rw [hvs, ← hslice, List.length_drop, List.length_take]
    omega
  refine ⟨⟨vs, hvs, hpassage.imp ?_⟩, ?_⟩
  · rintro name n ⟨t, ht, hkind, rfl, rfl⟩
    have hbound := hbounds ht
    rw [Token.stop] at hbound
    refine ⟨by omega, first, by rw [hvalue]; rfl, t, hvalue ▸ ht, hkind, rfl, by omega⟩
  · rintro name n ⟨first', hfirst, t, ht, -, rfl, hoffset⟩
    rw [hvalue] at hfirst ht
    obtain rfl : first = first' := Option.some_inj.1 hfirst
    have hbound := (hbounds ht).2
    rw [Token.stop, hoffset] at hbound
    omega

/-! ### Names that are left -/

/-- What a name gives way to comes from an earlier line. -/
theorem exists_feeds (hF : (v.tokenizeFile log lines).1[i]? = some F) {t : Token}
    (h : (v.tokenize F.source).1.Replaces (v.inForce log lines i) t e) :
    ∃ j < i, ∃ G, (v.tokenizeFile log lines).1[j]? = some G ∧
      G.definition (v.inForce log lines j) = .ok (some e) ∧ v.Feeds log lines j i := by
  obtain ⟨k, -, -, -, he⟩ := id h
  obtain ⟨j, hj, G, hG, hdefinition⟩ := mem_inForce_iff.1 (List.mem_of_find?_eq_some he)
  exact ⟨j, hj, G, hG, hdefinition, F, hF, t, e, h, G, hG, hdefinition⟩

/-- A name that is defined and left is spared, or a value of an earlier line brings it in. -/
theorem spares_or_mentions (hF : (v.tokenizeFile log lines).1[i]? = some F)
    (hright : ∀ j G, v.Feeds log lines j i → (v.tokenizeFile log lines).1[j]? = some G →
      ∀ t ∈ G.valueTokens, t.kind ≠ .error)
    {t : Token} (ht : t ∈ F.tokens) (hkind : t.kind = .identifier)
    (hdefined : (v.inForce log lines i).find? t.text ≠ none) :
    v.Spares log lines i F t ∨ ∃ t₀ e n, (v.tokenize F.source).1.Replaces (v.inForce log lines i) t₀ e ∧
      t.offset = (v.tokenize F.source).1.comesTo (v.inForce log lines i) t₀.offset + n ∧
      n + t.text.length ≤ e.value.length ∧ v.Brings log lines i e t.text n := by
  obtain ⟨-, hunder⟩ := eq_tokenizeUnder hF
  have hvalues : ∀ t e, (v.tokenize F.source).1.Replaces (v.inForce log lines i) t e →
      ∃ vs, e.value = ofGlyphs vs ∧ Passage v (fun name n => n ≤ e.value.length ∧
        v.Brings log lines i e name (e.value.length - n)) vs := by
    intro t e hreplaces
    obtain ⟨j, hj, G, hG, hdefinition, hfeeds⟩ := exists_feeds hF hreplaces
    obtain ⟨⟨vs, hvs, hpassage⟩, -⟩ :=
      exists_passage_of_definition hG hdefinition (hright j G hfeeds hG)
    exact ⟨vs, hvs, hpassage.imp fun name n hnamed =>
      ⟨hnamed.1, j, hj, G, hG, hdefinition, hfeeds, hnamed.2⟩⟩
  have hclears : (v.accountOf (v.inForce log lines i) F.source (v.Brings log lines i)).Clears t := by
    rw [hunder] at ht
    exact clears_of_mem_tokenizeUnder hvalues ht hkind
  rcases hclears with
    ⟨k, t₀, hget, hkeeps, htext, hplace⟩ | ⟨t₀, e, n, hreplaces, hmentions, hplace⟩ |
      ⟨u, hu, hnumeric, hstop, hseam⟩
  · refine .inl (.inl ⟨k, t₀, hget, hkeeps.resolve_left fun hnone => hdefined ?_, htext, hplace⟩)
    rw [htext, hnone]
  · obtain ⟨j, -, G, hG, hdefinition, hfeeds, hmention⟩ := id hmentions
    have hbound := (exists_passage_of_definition hG hdefinition (hright j G hfeeds hG)).2 _ _ hmention
    exact .inr ⟨t₀, e, n, hreplaces, hplace, hbound, hmentions⟩
  · rw [← hunder] at hu
    exact .inl (.inr ⟨u, hu, hnumeric, hstop, hseam⟩)

/-- A name that a definition mentions and that is defined behind it is so before it, or only later. -/
theorem find?_inForce_cases {G : TokenLine} {name : Text} {n : Nat} {named : Equivalence} (hji : j < i)
    (hG : (v.tokenizeFile log lines).1[j]? = some G)
    (hdefinition : G.definition (v.inForce log lines j) = .ok (some e)) (hmentions : G.Mentions name n)
    (hnamed : (v.inForce log lines i).find? name = some named) :
    (v.inForce log lines j).find? name = some named ∨ ∃ d, j < d ∧ v.Defines log lines d named := by
  cases hfind : (v.inForce log lines j).find? name with
  | some other =>
    have hkept := Equivalences.find?_of_prefix (prefix_inForce (Nat.le_of_lt hji)) hfind
    exact .inl (hkept.symm.trans hnamed)
  | none =>
    have hnone : (v.inForce log lines (j + 1)).find? name = none := by
      obtain ⟨first, rest, hvalue, -, hself⟩ := TokenLine.exists_of_definition hdefinition
      obtain ⟨_, -, t, ht, hkind, htext, -⟩ := hmentions
      have hother : (e.name == name) = false :=
        beq_eq_false_iff_ne.2 fun hsame => hself t (hvalue ▸ ht) hkind (htext.trans hsame.symm)
      rw [inForce_succ hG, hdefinition, Equivalences.find?_append, hfind]
      simp [Except.toOption, Equivalences.find?, hother]
    obtain ⟨d, hd, -, hdefines⟩ := exists_later_of_find? hnone hnamed
    exact .inr ⟨d, hd, hdefines⟩

/-- A name that is defined and left is spared, or a value brings it in that goes back to a line that left
it. -/
theorem spares_or_leaves (hF : (v.tokenizeFile log lines).1[i]? = some F)
    (hright : ∀ j G, Relation.TransGen (v.Feeds log lines) j i →
      (v.tokenizeFile log lines).1[j]? = some G → ∀ t ∈ G.valueTokens, t.kind ≠ .error)
    {t : Token} (ht : t ∈ F.tokens) (hkind : t.kind = .identifier) {named : Equivalence}
    (hnamed : (v.inForce log lines i).find? t.text = some named) :
    v.Spares log lines i F t ∨ ∃ t₀ e j, (v.tokenize F.source).1.Replaces (v.inForce log lines i) t₀ e ∧
      v.Defines log lines j e ∧
      (v.tokenize F.source).1.comesTo (v.inForce log lines i) t₀.offset ≤ t.offset ∧
      t.stop ≤ (v.tokenize F.source).1.comesTo (v.inForce log lines i) t₀.offset + e.value.length ∧
      ∃ o, Relation.ReflTransGen (v.Feeds log lines) o j ∧ v.Leaves log lines o named := by
  -- What holds of this line is put together from what holds of the one that its value comes from.
  induction i using Nat.strong_induction_on generalizing F t with
  | _ i ih =>
    have hdefined : (v.inForce log lines i).find? t.text ≠ none := by
      rw [hnamed]
      nofun
    rcases spares_or_mentions hF (fun j G hfeeds => hright j G (.single hfeeds)) ht hkind hdefined with
      hspares | ⟨t₀, e, n, hreplaces, hplace, hbound, j, hj, G, hG, hdefinition, hfeeds, hmentions⟩
    · exact .inl hspares
    have hstop : t.stop ≤ (v.tokenize F.source).1.comesTo (v.inForce log lines i) t₀.offset
        + e.value.length := by
      rw [Token.stop, hplace]
      omega
    refine .inr ⟨t₀, e, j, hreplaces, ⟨G, hG, hdefinition⟩, by omega, hstop, ?_⟩
    obtain ⟨_, -, t', ht', hkind', htext, -⟩ := id hmentions
    have hname : t'.text = named.name := htext.trans (Equivalences.name_of_find? hnamed).symm
    rcases find?_inForce_cases hj hG hdefinition hmentions hnamed with hbefore | hlater
    · rw [← htext] at hbefore
      rcases ih j hj hG (fun j' G' h => hright j' G' (h.tail hfeeds))
          (TokenLine.mem_tokens_of_mem_valueTokens ht') hkind' hbefore with
        hspares | ⟨t₁, e₁, j₁, hreplaces₁, hdefines₁, -, -, o, hback, hleaves⟩
      · exact ⟨j, .refl, G, hG, t', ht', hkind', hname, .inr hspares⟩
      · exact ⟨o, hback.tail ⟨G, hG, t₁, e₁, hreplaces₁, hdefines₁⟩, hleaves⟩
    · exact ⟨j, .refl, G, hG, t', ht', hkind', hname, .inl hlater⟩

end Vocabulary

/-- A file in which a value mentions a name that is defined after it, and another value has that in it. -/
def mentioningLines : List SourceLine :=
  (SourceFile.ofText "a.s" (".eqv STEP 4\n.eqv NEXT STEP + START\n.eqv LAST NEXT\n.eqv START 16\n"
    ++ "START: .word LAST, START\n")).lines

/-- The line at place `i` of a file is left with the name of an equivalence of an earlier line at its token
`k`, which is neither its label nor the symbol that it defines. -/
def LeavesName (text : String) (i k : Nat) : Prop :=
  let v := Rv32im.registry.vocabulary true
  let lines := (SourceFile.ofText "a.s" text).lines
  ∃ F ∈ (v.tokenizeFile (.ofLimit 0) lines).1[i]?, ∃ t ∈ F.tokens[k]?, t.kind = .identifier ∧
    ((v.inForce (.ofLimit 0) lines i).find? t.text).isSome = true ∧ ¬ F.Keeps k

end Rv32Assembler
