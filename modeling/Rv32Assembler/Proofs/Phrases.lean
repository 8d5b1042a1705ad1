import Rv32Assembler.Proofs.Partition
/-!
# Tokens in another place

The characters of some tokens of a line are read as tokens again where they are put into another line.
Only a sign may belong to the numeral behind it in one place and stand alone in the other. Phrases are
such characters, taken apart in a way that does not depend on what stands before them
(`exists_passage_of_tokens`). A number that comes in from the left may stop inside one of a phrase, but
only in front of a sign that a digit follows (`Phrase.of_sign`): no other sign can stand in a number that
has a value.
-/

namespace Rv32Assembler

open Text

/-! ### Signs in numbers -/

namespace Literal

/-- Every sign in the text stands right before a digit. -/
def SignsLead : Text → Prop
  | [] => True
  | b :: rest => (b = 0x2b ∨ b = 0x2d → ∃ d ∈ rest.head?, isDigit d = true) ∧ SignsLead rest

theorem SignsLead.append {front rest : Text} (hfront : ∀ b ∈ front, b ≠ 0x2b ∧ b ≠ 0x2d)
    (h : SignsLead rest) : SignsLead (front ++ rest) := by
  induction front with
  | nil => exact h
  | cons b front ih =>
    obtain ⟨⟨hplus, hminus⟩, hfront⟩ := List.forall_mem_cons.1 hfront
    exact ⟨fun hb => absurd hb (not_or.2 ⟨hplus, hminus⟩), ih hfront⟩

theorem SignsLead.of_forall {s : Text} (h : ∀ b ∈ s, b ≠ 0x2b ∧ b ≠ 0x2d) : SignsLead s := by
  have hall : SignsLead (s ++ []) := append h trivial
  rwa [List.append_nil] at hall

theorem SignsLead.right {front rest : Text} (h : SignsLead (front ++ rest)) : SignsLead rest := by
  induction front with
  | nil => exact h
  | cons b front ih => exact ih h.2

theorem ne_sign_of_digitValue? {b : UInt8} {d : Nat} (h : digitValue? b = some d) :
    b ≠ 0x2b ∧ b ≠ 0x2d := by
  refine ⟨?_, ?_⟩ <;>
  · rintro rfl
    cases h

theorem ne_sign_of_digits {base limit n : Nat} {s : Text} (h : digits base limit s = .ok n) :
    ∀ b ∈ s, b ≠ 0x2b ∧ b ≠ 0x2d := by
  suffices hrun : ∀ (s : Text) (acc : Nat), digitsFrom base limit acc s = .ok n →
      ∀ b ∈ s, b ≠ 0x2b ∧ b ≠ 0x2d by
    cases s with
    | nil => exact List.forall_mem_nil _
    | cons b rest => exact hrun _ 0 h
  intro s
  induction s with
  | nil => exact fun _ _ => List.forall_mem_nil _
  | cons b rest ih =>
    intro acc h
    rw [digitsFrom] at h
    split at h
    · cases h
    · rename_i d hd
      split at h
      · split at h
        · exact List.forall_mem_cons.2 ⟨ne_sign_of_digitValue? hd, ih _ h⟩
        · cases h
      · cases h

theorem ne_sign_of_prefixBase? {b : UInt8} {base : Nat} (h : prefixBase? b = some base) :
    b ≠ 0x2b ∧ b ≠ 0x2d := by
  refine ⟨?_, ?_⟩ <;>
  · rintro rfl
    cases h

theorem exists_of_splitBase (s : Text) :
    ∃ front, s = front ++ (splitBase s).2 ∧ ∀ b ∈ front, b ≠ 0x2b ∧ b ≠ 0x2d := by
  have hzero : ∀ b ∈ ([0x30] : Text), b ≠ 0x2b ∧ b ≠ 0x2d :=
    List.forall_mem_singleton.2 (by decide)
  unfold splitBase
  split
  · rename_i b c rest
    split
    · rename_i base hbase
      exact ⟨[0x30, b], rfl, List.forall_mem_cons.2 ⟨by decide,
        List.forall_mem_singleton.2 (ne_sign_of_prefixBase? hbase)⟩⟩
    · exact ⟨[0x30], rfl, hzero⟩
  · exact ⟨[0x30], rfl, hzero⟩
  · exact ⟨[], rfl, List.forall_mem_nil _⟩

theorem ne_sign_of_part {hexadecimal : Bool} {b : UInt8}
    (h : (isDigitOf hexadecimal b || isUnderscore b) = true) : b ≠ 0x2b ∧ b ≠ 0x2d := by
  refine ⟨?_, ?_⟩ <;>
  · rintro rfl
    cases hexadecimal <;> cases h

theorem signsLead_of_exponent? {hexadecimal : Bool} {s : Text} {e : Int}
    (h : exponent? hexadecimal s = some e) : SignsLead s := by
  revert h
  fun_cases exponent? hexadecimal s with
  | case1 | case2 => exact fun _ => trivial
  | case3 b rest hmark negative d digits hsign hall =>
    intro _
    have hb : ∀ x ∈ [b], x ≠ 0x2b ∧ x ≠ 0x2d := by
      refine List.forall_mem_singleton.2 ⟨?_, ?_⟩ <;>
      · rintro rfl
        cases hexadecimal <;> cases hmark
    rw [Bool.and_eq_true] at hall
    have hdigits : SignsLead (d :: digits) := by
      refine .of_forall fun x hx => ?_
      have hpart : (isDigitOf false x || isUnderscore x) = true := by
        simpa [isDigitOf] using List.all_eq_true.1 hall.2 x hx
      exact ne_sign_of_part hpart
    refine SignsLead.append hb ?_
    unfold splitSign at hsign
    split at hsign <;> cases hsign
    · exact ⟨fun _ => ⟨d, rfl, hall.1⟩, hdigits⟩
    · exact ⟨fun _ => ⟨d, rfl, hall.1⟩, hdigits⟩
    · exact hdigits
  | case4 _ _ _ _ _ _ _ hall =>
    intro h
    rw [if_neg hall] at h
    cases h
  | case5 | case6 => rintro ⟨⟩

/-- Only the exponent of a numeral may have a sign. -/
theorem signsLead_of_numeral? {s : Text} {n : Numeral} (h : numeral? s = some n) : SignsLead s := by
  unfold numeral? at h
  split at h
  rename_i hexadecimal body hbase
  dsimp only at h
  have hpart (s : Text) : ∀ b ∈ s.takeWhile fun b => isDigitOf hexadecimal b || isUnderscore b,
      b ≠ 0x2b ∧ b ≠ 0x2d :=
    fun b hb => ne_sign_of_part (List.all_eq_true.1 List.all_takeWhile b hb)
  have hexponent {rest : Text} (h : exponent? hexadecimal rest ≠ none) : SignsLead rest := by
    obtain ⟨e, he⟩ := Option.ne_none_iff_exists'.1 h
    exact signsLead_of_exponent? he
  have hbody : SignsLead body := by
    rw [← List.takeWhile_append_dropWhile (p := fun b => isDigitOf hexadecimal b || isUnderscore b)
      (l := body)]
    refine .append (hpart body) ?_
    split at h
    · rename_i more hpoint
      rw [hpoint, ← List.takeWhile_append_dropWhile
        (p := fun b => isDigitOf hexadecimal b || isUnderscore b) (l := more)]
      have hmark : ∀ b ∈ ([0x2e] : Text), b ≠ 0x2b ∧ b ≠ 0x2d :=
        List.forall_mem_singleton.2 (by decide)
      refine .append hmark (.append (hpart more) (hexponent fun hnone => ?_))
      simp [hnone] at h
    · refine hexponent fun hnone => ?_
      simp [hnone] at h
  split at hbase
  · rename_i b _ _
    split at hbase <;> cases hbase
    · rename_i hmark
      have hfront : ∀ x ∈ ([0x30, b] : Text), x ≠ 0x2b ∧ x ≠ 0x2d := by
        refine List.forall_mem_cons.2 ⟨by decide, List.forall_mem_singleton.2 ⟨?_, ?_⟩⟩ <;>
        · rintro rfl
          cases hmark
      exact .append hfront hbody
    · exact hbody
  · cases hbase
    exact hbody

theorem splitSign_of_ne {b : UInt8} (h : b ≠ 0x2b ∧ b ≠ 0x2d) (rest : Text) :
    splitSign (b :: rest) = (false, b :: rest) := by
  unfold splitSign
  split
  · rename_i heq
    exact absurd (List.cons.inj heq).1 h.1
  · rename_i heq
    exact absurd (List.cons.inj heq).1 h.2
  · rfl

/-- A byte that may start a digit: one of ASCII, or a byte outside of it. -/
def StartsDigit (b : UInt8) : Prop := isDigit b = true ∨ 0x80 ≤ b

theorem StartsDigit.ne {b c : UInt8} (h : StartsDigit b) (hc : isDigit c = false) (hlow : c < 0x80) :
    b ≠ c := by
  rintro rfl
  rcases h with h | h
  · rw [hc] at h
    cases h
  · exact absurd hlow (UInt8.not_lt.2 h)

/-- At most one sign before the first digit of a number. -/
def IsSign (front : Text) : Prop := front = [] ∨ front = [0x2b] ∨ front = [0x2d]

section

variable {front more : Text} {d : UInt8} (hfront : IsSign front) (hd : StartsDigit d)
include hfront hd

theorem splitSign_of_startsDigit : (splitSign (front ++ d :: more)).2 = d :: more := by
  rcases hfront with rfl | rfl | rfl
  · rw [List.nil_append, splitSign_of_ne ⟨hd.ne rfl (by decide), hd.ne rfl (by decide)⟩]
  · rfl
  · rfl

theorem namedReal?_eq_none : namedReal? (front ++ d :: more) = none := by
  have hlower {b c : UInt8} {rest word : Text} (h : lowerAscii [b] ≠ [c]) :
      (lowerAscii (b :: rest) == c :: word) = false := by
    rw [beq_eq_false_iff_ne]
    intro hsame
    exact h (congrArg (fun b => [b]) (List.cons.inj hsame).1)
  have hdigit {c : UInt8} (hc : isDigit c = false) (hlow : c < 0x80) : lowerAscii [d] ≠ [c] := by
    have hsame : lowerAscii [d] = [d] := by
      refine congrArg (fun b => [b]) (if_neg fun h => ?_)
      simp only [Bool.and_eq_true, decide_eq_true_eq, UInt8.le_iff_toNat_le] at h
      rcases hd with hd | hd
      · simp only [isDigit, Bool.and_eq_true, decide_eq_true_eq, UInt8.le_iff_toNat_le] at hd
        exact absurd (Nat.le_trans h.1 hd.2) (by decide)
      · rw [UInt8.le_iff_toNat_le] at hd
        exact absurd (Nat.le_trans hd h.2) (by decide)
    rw [hsame]
    exact fun h => hd.ne hc hlow (List.cons.inj h).1
  have hname (word : Text) : (lowerAscii (d :: more) == 0x69 :: word) = false :=
    hlower (hdigit rfl (by decide))
  have hall : (lowerAscii (front ++ d :: more) == ("nan" : Text)) = false := by
    rcases hfront with rfl | rfl | rfl
    · exact hlower (hdigit rfl (by decide))
    · exact hlower (by decide)
    · exact hlower (by decide)
  have hinf : (lowerAscii (d :: more) == ("inf" : Text)) = false := hname _
  have hinfinity : (lowerAscii (d :: more) == ("infinity" : Text)) = false := hname _
  have hsplit : (splitSign (front ++ d :: more)).2 = d :: more := splitSign_of_startsDigit hfront hd
  unfold namedReal?
  generalize splitSign (front ++ d :: more) = parts at hsplit
  obtain ⟨negative, name⟩ := parts
  obtain rfl : name = d :: more := hsplit
  simp only [hall, hinf, hinfinity, Bool.or_self, Bool.false_eq_true, if_false]

variable (htrim : (front ++ d :: more).trim = front ++ d :: more)
include htrim

theorem signsLead_of_real {x : Binary64} (h : real (front ++ d :: more) = .ok x) :
    SignsLead (d :: more) := by
  have hsplit : (splitSign (front ++ d :: more)).2 = d :: more := splitSign_of_startsDigit hfront hd
  unfold real at h
  simp only [htrim, namedReal?_eq_none hfront hd] at h
  rw [hsplit] at h
  cases hnumeral : numeral? (d :: more) with
  | some n => exact signsLead_of_numeral? hnumeral
  | none =>
    rw [hnumeral] at h
    cases h

theorem signsLead_of_integer {n : Int} (h : integer (front ++ d :: more) = .ok n) :
    SignsLead (d :: more) := by
  have hsplit : (splitSign (front ++ d :: more)).2 = d :: more := splitSign_of_startsDigit hfront hd
  obtain ⟨first, rest, hcons⟩ : ∃ first rest, front ++ d :: more = first :: rest := by
    rcases hfront with rfl | rfl | rfl <;> exact ⟨_, _, rfl⟩
  unfold integer at h
  rw [htrim, hcons] at h
  rw [hcons] at hsplit
  simp only [hsplit] at h
  obtain ⟨pre, hnumeral, hpre⟩ := exists_of_splitBase (d :: more)
  rw [hnumeral]
  cases hdigits : digits (splitBase (d :: more)).1 (1 <<< 64) (splitBase (d :: more)).2 with
  | error e =>
    rw [hdigits] at h
    cases h
  | ok n => exact .append hpre (.of_forall (ne_sign_of_digits hdigits))

theorem signsLead_of_number {extra : Nat}
    (h : (Lexeme.number (front ++ d :: more) extra).problem = none) : SignsLead (d :: more) := by
  unfold Lexeme.number at h
  split at h
  · cases hreal : real (front ++ d :: more) with
    | ok x => exact signsLead_of_real hfront hd htrim hreal
    | error e => simp [hreal, Lexeme.wrong] at h
  · cases hinteger : integer (front ++ d :: more) with
    | ok n => exact signsLead_of_integer hfront hd htrim hinteger
    | error e => simp [hinteger, Lexeme.wrong] at h

end

end Literal

/-! ### Characters of signs and digits -/

namespace Text

theorem eq_asciiGlyph_of_bytes {s rest : Text} {g : Glyph} {b : UInt8} (hg : g ∈ glyphs s)
    (hbytes : g.bytes = b :: rest) (hb : b < 0x80) : g = asciiGlyph b := by
  fun_induction glyphs s with
  | case1 => cases hg
  | case2 x more first ih =>
    rcases List.mem_cons.1 hg with rfl | hg
    · obtain rfl : x = b := (List.cons.inj ((firstGlyph_bytes x more).symm.trans hbytes)).1
      have hglyphs := glyphs_cons_ascii hb more
      rw [glyphs] at hglyphs
      exact (List.cons.inj hglyphs).1
    · exact ih hg

theorem startsDigit_of_isDecimalDigit {s rest : Text} {g : Glyph} {b : UInt8} (hg : g ∈ glyphs s)
    (hbytes : g.bytes = b :: rest) (hdigit : isDecimalDigit g.char = true) :
    Literal.StartsDigit b := by
  have hascii : ∀ n < 128, isDecimalDigit (asciiGlyph (UInt8.ofNat n)).char = true →
      Literal.isDigit (UInt8.ofNat n) = true := by
    decide +kernel
  by_cases hb : b < 0x80
  · rw [eq_asciiGlyph_of_bytes hg hbytes hb] at hdigit
    have hdigit' := hascii b.toNat hb
    rw [UInt8.ofNat_toNat] at hdigit'
    exact .inl (hdigit' hdigit)
  · exact .inr (UInt8.not_lt.1 hb)

theorem exists_bytes_of_isSign {s : Text} {g : Glyph} (hg : g ∈ glyphs s)
    (h : Lexeme.isSign g.char = true) : ∃ b, g.bytes = [b] ∧ (b = 0x2b ∨ b = 0x2d) := by
  simp only [Lexeme.isSign, Bool.or_eq_true, beq_iff_eq] at h
  obtain ⟨b, -, rfl⟩ := exists_eq_asciiGlyph hg (by rcases h with h | h <;> rw [h] <;> decide)
  refine ⟨b, rfl, ?_⟩
  rcases h with h | h
  · exact .inr (asciiGlyph_char_inj (x := 0x2d) h)
  · exact .inl (asciiGlyph_char_inj (x := 0x2b) h)

end Text

namespace Lexeme

/-- Every sign among the characters stands right before a digit. -/
def SignsLead : List Glyph → Prop
  | [] => True
  | g :: gs => (isSign g.char = true → ∃ d ∈ gs.head?, isDecimalDigit d.char = true) ∧ SignsLead gs

theorem SignsLead.drop {gs : List Glyph} (h : SignsLead gs) (n : Nat) : SignsLead (gs.drop n) := by
  induction n generalizing gs with
  | zero => exact h
  | succ n ih =>
    cases gs with
    | nil => trivial
    | cons g gs => exact ih h.2

theorem signsLead_of_ofGlyphs {s : Text} {gs : List Glyph} (hgs : ∀ g ∈ gs, g ∈ glyphs s)
    (h : Literal.SignsLead (ofGlyphs gs)) : SignsLead gs := by
  have hdigits : ∀ n < 256, Literal.isDigit (UInt8.ofNat n) = true →
      isDecimalDigit (asciiGlyph (UInt8.ofNat n)).char = true ∧ n < 128 := by
    decide +kernel
  induction gs with
  | nil => trivial
  | cons g gs ih =>
    obtain ⟨hg, hgs⟩ := List.forall_mem_cons.1 hgs
    rw [ofGlyphs_cons] at h
    refine ⟨fun hsign => ?_, ih hgs h.right⟩
    obtain ⟨b, hb, hchar⟩ := exists_bytes_of_isSign hg hsign
    rw [hb] at h
    obtain ⟨d, hhead, hd⟩ := h.1 hchar
    cases gs with
    | nil => cases hhead
    | cons x gs =>
      have hx := hgs x (List.mem_cons_self ..)
      obtain ⟨b', rest, hbytes⟩ := List.exists_cons_of_ne_nil (ne_nil_of_mem_glyphs hx)
      rw [ofGlyphs_cons, hbytes, List.cons_append] at hhead
      obtain rfl : b' = d := Option.some_inj.1 hhead
      have hdigit := hdigits b'.toNat b'.toNat_lt
      rw [UInt8.ofNat_toNat] at hdigit
      refine ⟨x, rfl, ?_⟩
      rw [eq_asciiGlyph_of_bytes hx hbytes (hdigit hd).2]
      exact (hdigit hd).1

/-- In a number that has a value every sign behind the first digit stands right before a digit. -/
theorem signsLead_of_number (front : List Glyph) {rest : List Glyph} {d : Glyph} {extra : Nat}
    (hfront : ∀ g ∈ front, isSign g.char = true) (hone : front.length ≤ 1)
    (hd : isDecimalDigit d.char = true) (hlegible : Legible (front ++ d :: rest))
    (hright : (number (ofGlyphs (front ++ d :: rest.take (numberLength false d.char rest)))
      extra).problem = none) :
    SignsLead (rest.take (numberLength false d.char rest)) := by
  have hparts : ∀ g ∈ rest.take (numberLength false d.char rest), IsSolid g.char :=
    fun g hg => isSolid_of_mem_take_numberLength hg
  have hread : Legible (front ++ d :: rest.take (numberLength false d.char rest)) := by
    have hall : front ++ d :: rest = (front ++ d :: rest.take (numberLength false d.char rest))
        ++ rest.drop (numberLength false d.char rest) := by simp
    exact (hall ▸ hlegible).left
  generalize rest.take (numberLength false d.char rest) = parts at *
  have hmem : ∀ g ∈ front ++ d :: parts, g ∈ glyphs (ofGlyphs (front ++ d :: parts)) := by
    rw [hread]
    exact fun g hg => hg
  have hsolid : ∀ g ∈ front ++ d :: parts, IsSolid g.char := by
    intro g hg
    rcases List.mem_append.1 hg with hg | hg
    · exact isSolid_of_isSign (hfront g hg)
    · rcases List.mem_cons.1 hg with rfl | hg
      · exact isSolid_of_isWordPart (isWordPart_of_isDecimalDigit hd)
      · exact hparts g hg
  have htrim := trim_ofGlyphs hread (fun g hg => (hsolid g (List.mem_of_mem_head? hg)).1)
    (fun g hg => (hsolid g (List.mem_of_mem_getLast? hg)).1)
  have hdmem := hmem d (by simp)
  obtain ⟨b, more, hbytes⟩ := List.exists_cons_of_ne_nil (ne_nil_of_mem_glyphs hdmem)
  have htext : ofGlyphs (front ++ d :: parts) = ofGlyphs front ++ b :: (more ++ ofGlyphs parts) := by
    rw [ofGlyphs_append, ofGlyphs_cons, hbytes, List.cons_append]
  have hsign : Literal.IsSign (ofGlyphs front) := by
    rcases front with _ | ⟨g, _ | ⟨_, front⟩⟩
    · exact .inl rfl
    · obtain ⟨x, hx, hchar⟩ :=
        exists_bytes_of_isSign (hmem g (List.mem_cons_self ..)) (hfront g (List.mem_cons_self ..))
      rw [ofGlyphs_cons, hx]
      exact hchar.elim (fun h => .inr (.inl (by rw [h]; rfl))) fun h => .inr (.inr (by rw [h]; rfl))
    · simp at hone
  rw [htext] at htrim hright
  have hbytesLead := Literal.signsLead_of_number hsign
    (startsDigit_of_isDecimalDigit hdmem hbytes hd) htrim hright
  rw [← List.cons_append, ← hbytes, ← ofGlyphs_cons] at hbytesLead
  refine (signsLead_of_ofGlyphs (fun g hg => hmem g ?_) hbytesLead).2
  exact List.mem_append_right _ hg

theorem isSolid_of_read {v : Vocabulary} {after : Bool} {g : Glyph} {gs : List Glyph} {l : Lexeme}
    (hread : read v after g gs = some l) (hkind : l.kind ≠ .comment ∧ l.kind ≠ .error) :
    IsSolid g.char ∧ ∀ x ∈ (gs.take l.extra).getLast?, IsSolid x.char := by
  have hone {c : Char} (hc : IsSolid c) : IsSolid c ∧ ∀ x ∈ (gs.take 0).getLast?, IsSolid x.char :=
    ⟨hc, by simp⟩
  have hchar {c : Char} (hc : IsSolid c) (h : (g.char == c) = true) : IsSolid g.char := by
    rwa [eq_of_beq h]
  have hquote {mark : Char} {n : Nat} (hmark : IsSolid mark) (hclosing : closing? mark gs = some n) :
      ∀ x ∈ (gs.take n).getLast?, IsSolid x.char := by
    obtain ⟨x, hlast, rfl⟩ := exists_getLast?_of_closing? hclosing
    rw [hlast]
    rintro _ ⟨⟩
    exact hmark
  have hword : ∀ x ∈ (gs.take (wordLength gs)).getLast?, IsSolid x.char := fun x hx =>
    isSolid_of_isWordPart (isWordPart_of_mem_take_wordLength (List.mem_of_mem_getLast? hx))
  obtain ⟨hcomment, herror⟩ := hkind
  revert hread
  fun_cases read v after g gs with
  | case1 => rintro ⟨⟩
  | case2 =>
    rintro ⟨⟩
    exact absurd rfl hcomment
  | case3 _ _ _ hopen =>
    rintro ⟨⟩
    refine ⟨hchar (by decide) hopen, ?_⟩
    unfold quoted at herror ⊢
    split at herror
    · rename_i hclosing
      exact hquote (by decide) hclosing
    · exact absurd rfl herror
  | case4 _ _ _ _ hopen =>
    rintro ⟨⟩
    refine ⟨hchar (by decide) hopen, ?_⟩
    cases hclosing : closing? '\'' gs with
    | none => simp [character, hclosing, wrong] at herror
    | some n =>
      rw [extra_character hclosing]
      exact hquote (by decide) hclosing
  | case5 _ _ _ _ _ hpercent extra =>
    rintro ⟨⟩
    split
    · exact hone (hchar (by decide) hpercent)
    · exact ⟨hchar (by decide) hpercent, hword⟩
  | case6 _ _ _ _ _ _ hdigit =>
    rintro ⟨⟩
    rw [extra_number]
    exact ⟨isSolid_of_isWordPart (isWordPart_of_isDecimalDigit hdigit),
      fun x hx => isSolid_of_mem_take_numberLength (List.mem_of_mem_getLast? hx)⟩
  | case7 _ _ _ _ _ _ _ hsign =>
    rintro ⟨⟩
    exact hone (isSolid_of_isSign hsign)
  | case8 _ _ _ _ _ _ _ hsign =>
    rintro ⟨⟩
    refine ⟨isSolid_of_isSign hsign, ?_⟩
    rcases signed_cases g gs with ⟨d, more, rfl, hd, hnumber⟩ | halone
    · rw [hnumber, extra_number, List.take_succ_cons]
      intro x hx
      rcases List.mem_cons.1 (List.mem_of_mem_getLast? hx) with rfl | hx
      · exact isSolid_of_isWordPart (isWordPart_of_isDecimalDigit hd)
      · exact isSolid_of_mem_take_numberLength hx
    · rw [halone]
      simp
  | case9 _ _ _ _ _ _ _ _ hstart =>
    rintro ⟨⟩
    exact ⟨isSolid_of_isWordPart (isWordPart_of_isWordStart hstart), hword⟩
  | case10 _ _ _ _ _ _ _ _ _ hsame | case11 _ _ _ _ _ _ _ _ _ _ hsame
  | case12 _ _ _ _ _ _ _ _ _ _ _ hsame =>
    rintro ⟨⟩
    exact hone (hchar (by decide) hsame)
  | case13 =>
    rintro ⟨⟩
    exact absurd rfl herror

/-- The last character of a token is solid, and so is that of what stands behind it. -/
theorem isSolid_getLast?_append {v : Vocabulary} {after : Bool} {g : Glyph} {gs vs : List Glyph}
    {l : Lexeme} (hread : read v after g gs = some l) (hkind : l.kind ≠ .comment ∧ l.kind ≠ .error)
    (hvs : ∀ x ∈ vs.getLast?, IsSolid x.char) :
    ∀ x ∈ (g :: (gs.take l.extra ++ vs)).getLast?, IsSolid x.char := by
  obtain ⟨hhead, htake⟩ := isSolid_of_read hread hkind
  intro x hx
  rw [← List.cons_append, List.getLast?_append, List.getLast?_cons] at hx
  cases hlast : vs.getLast? with
  | some y =>
    rw [hlast] at hx
    cases hx
    exact hvs _ hlast
  | none =>
    rw [hlast] at hx
    cases hends : (gs.take l.extra).getLast? with
    | some y =>
      rw [hends] at hx
      cases hx
      exact htake _ hends
    | none =>
      rw [hends] at hx
      cases hx
      exact hhead

end Lexeme

/-! ### Phrases -/

/-- Characters that are read as tokens without an error, and the identifiers among them: the text of each
and the number of bytes from its start to the end. A sign is taken by itself, so it does not matter
whether a value stands before it. -/
inductive Phrase (v : Vocabulary) (named : Text → Nat → Prop) : List Glyph → Prop
  | nil : Phrase v named []
  | separator {g : Glyph} {gs : List Glyph} (hg : Lexeme.isSeparator g.char = true)
      (h : Phrase v named gs) : Phrase v named (g :: gs)
  | sign {g : Glyph} {gs : List Glyph} (hg : Lexeme.isSign g.char = true) (h : Phrase v named gs) :
      Phrase v named (g :: gs)
  | number {g : Glyph} {gs : List Glyph} (hg : isDecimalDigit g.char = true)
      (hlead : Lexeme.SignsLead (gs.take (Lexeme.numberLength false g.char gs)))
      (h : Phrase v named (gs.drop (Lexeme.numberLength false g.char gs))) : Phrase v named (g :: gs)
  | other {after : Bool} {g : Glyph} {gs : List Glyph} {l : Lexeme}
      (hread : Lexeme.read v after g gs = some l) (hsign : Lexeme.isSign g.char = false)
      (hdigit : isDecimalDigit g.char = false) (hkind : l.kind ≠ .comment ∧ l.kind ≠ .error)
      (hname : l.kind = .identifier → named (ofGlyphs (g :: gs.take l.extra)) (width (g :: gs)))
      (h : Phrase v named (gs.drop l.extra)) : Phrase v named (g :: gs)

namespace Phrase

variable {v : Vocabulary} {named named' : Text → Nat → Prop} {after : Bool} {g : Glyph} {gs : List Glyph}

theorem imp (h : Phrase v named gs) (himp : ∀ name n, named name n → named' name n) :
    Phrase v named' gs := by
  induction h with
  | nil => exact .nil
  | separator hg _ ih => exact .separator hg ih
  | sign hg _ ih => exact .sign hg ih
  | number hg hlead _ ih => exact .number hg hlead ih
  | other hread hsign hdigit hkind hname _ ih =>
    exact .other hread hsign hdigit hkind (fun h => himp _ _ (hname h)) ih

/-- From a sign inside a number on. -/
theorem of_sign {n j : Nat} {s : Glyph} {rest : List Glyph} {hexadecimal : Bool} {last : Char}
    (hlead : Lexeme.SignsLead (gs.take n)) (h : Phrase v named (gs.drop n))
    (hdrop : gs.drop j = s :: rest) (hs : Lexeme.isSign s.char = true)
    (hne : Lexeme.numberLength hexadecimal last (s :: rest) ≠ 0)
    (hn : n = j + Lexeme.numberLength hexadecimal last (s :: rest)) : Phrase v named (s :: rest) := by
  have hlater := hlead.drop j
  rw [List.drop_take, hdrop, hn, Nat.add_sub_cancel_left] at hlater
  obtain ⟨k, hk⟩ := Nat.exists_eq_succ_of_ne_zero hne
  rw [hk, List.take_succ_cons] at hlater
  obtain ⟨d, hhead, hd⟩ := hlater.1 hs
  obtain ⟨more, rfl⟩ : ∃ more, rest = d :: more := by
    cases rest with
    | nil => cases List.take_nil ▸ hhead
    | cons x more =>
      cases k with
      | zero => cases hhead
      | succ k =>
        obtain rfl : x = d := Option.some_inj.1 hhead
        exact ⟨more, rfl⟩
  have hlength := Lexeme.numberLength_sign_digit hs hd hne
  obtain rfl : k = Lexeme.numberLength false d.char more + 1 := by omega
  refine .sign hs (.number hd hlater.2.2 ?_)
  have hrest : gs.drop n = more.drop (Lexeme.numberLength false d.char more) := by
    rw [hn, hlength, ← List.drop_drop, hdrop]
    rfl
  rwa [← hrest]

/-- A token and the phrase behind it, cut off from what follows. -/
theorem of_read {l : Lexeme} {vs ys : List Glyph} (hlegible : Legible (g :: gs))
    (hread : Lexeme.read v after g gs = some l) (hkind : l.kind ≠ .comment ∧ l.kind ≠ .error)
    (hsplit : gs.drop l.extra = vs ++ ys)
    (hname : l.kind = .identifier →
      named (ofGlyphs (g :: gs.take l.extra)) (width (g :: (gs.take l.extra ++ vs))))
    (h : Phrase v named vs) : Phrase v named (g :: (gs.take l.extra ++ vs)) := by
  have hright : l.problem = none := by
    have hproblem := (Lexeme.marked_of_read hread).problem
    rw [beq_eq_false_iff_ne.2 hkind.2] at hproblem
    simpa using hproblem
  have hnumber {d : Glyph} {rest : List Glyph} (hd : isDecimalDigit d.char = true)
      (hlead : Lexeme.SignsLead (rest.take (Lexeme.numberLength false d.char rest)))
      (hsplit : rest.drop (Lexeme.numberLength false d.char rest) = vs ++ ys) :
      Phrase v named (d :: (rest.take (Lexeme.numberLength false d.char rest) ++ vs)) := by
    have hsame := Lexeme.numberLength_take_append_of_split hsplit
    have hlength := List.length_take_of_le (Lexeme.numberLength_le false d.char rest)
    refine .number hd ?_ ?_
    · rwa [hsame, List.take_left' hlength]
    · rwa [hsame, List.drop_left' hlength]
  by_cases hdigit : isDecimalDigit g.char = true
  · obtain rfl := Option.some_inj.1 (hread.symm.trans (Lexeme.read_of_isDecimalDigit gs hdigit))
    rw [Lexeme.extra_number] at hsplit ⊢
    refine hnumber hdigit ?_ hsplit
    exact Lexeme.signsLead_of_number [] (by simp) (by simp) hdigit hlegible hright
  · by_cases hsign : Lexeme.isSign g.char = true
    · rcases Lexeme.cases_of_isSign hsign hread with ⟨rfl, d, rest, rfl, hd, rfl⟩ | rfl
      · rw [Lexeme.extra_number, List.drop_succ_cons] at hsplit
        rw [Lexeme.extra_number, List.take_succ_cons, List.cons_append]
        refine .sign hsign (hnumber hd ?_ hsplit)
        exact Lexeme.signsLead_of_number [g] (by simpa using hsign) (by simp) hd hlegible
          hright
      · exact .sign hsign h
    · have hlength := List.length_take_of_le (Lexeme.extra_le_of_read hread)
      have hagain : Lexeme.read v after g (gs.take l.extra ++ vs) = some l := by
        refine Lexeme.read_take_append hread (Bool.eq_false_iff.2 hsign) (Bool.eq_false_iff.2 hdigit)
          (fun hend => absurd hend (not_or.2 hkind)) (fun hword x hx => hword x ?_) after
        cases vs with
        | nil => cases hx
        | cons y vs =>
          rw [hsplit]
          exact hx
      refine .other hagain (Bool.eq_false_iff.2 hsign) (Bool.eq_false_iff.2 hdigit) hkind ?_ ?_
      · rwa [List.take_left' hlength]
      · rwa [List.drop_left' hlength]

end Phrase

/-! ### Phrases of a line -/

/-- The characters from the first to the last of some tokens, none of them wrong. -/
structure Passage (v : Vocabulary) (named : Text → Nat → Prop) (vs : List Glyph) : Prop where
  phrase : Phrase v named vs
  nonempty : vs ≠ []
  legible : Legible vs
  head : ∀ g ∈ vs.head?, Lexeme.IsSolid g.char
  last : ∀ g ∈ vs.getLast?, Lexeme.IsSolid g.char

theorem Passage.imp {v : Vocabulary} {named named' : Text → Nat → Prop} {vs : List Glyph}
    (h : Passage v named vs) (himp : ∀ name n, named name n → named' name n) : Passage v named' vs :=
  { h with phrase := h.phrase.imp himp }

theorem Passage.trim_eq {v : Vocabulary} {named : Text → Nat → Prop} {vs : List Glyph}
    (h : Passage v named vs) : (ofGlyphs vs).trim = ofGlyphs vs :=
  trim_ofGlyphs h.legible (fun x hx => (h.head x hx).1) (fun x hx => (h.last x hx).1)

namespace Vocabulary

variable {v : Vocabulary} {named : Text → Nat → Prop} {line : SourceLine} {after : Bool}
  {offset column : Nat} {gs : List Glyph}

theorem exists_scan_of_append {ps qs : List (Token × Option LexicalError)}
    {q : Token × Option LexicalError} (h : v.scan line after offset column gs = ps ++ q :: qs) :
    ∃ xs g rest after' column' l, gs = xs ++ g :: rest ∧ Lexeme.read v after' g rest = some l ∧
      l.kind = q.1.kind ∧ q.1.offset = offset + width xs ∧
      v.scan line after' (offset + width xs) column' (g :: rest) = q :: qs := by
  fun_induction Vocabulary.scan v line after offset column gs generalizing ps with
  | case1 => cases ps <;> cases h
  | case2 after offset column g rest hread ih =>
    obtain ⟨xs, x, more, after', column', l, hsplit, hread', hkind, hoffset, hscan⟩ := ih h
    refine ⟨g :: xs, x, more, after', column', l, by rw [hsplit]; rfl, hread', hkind, ?_, ?_⟩
    · rw [hoffset, width_cons, Nat.add_assoc]
    · rw [width_cons, ← Nat.add_assoc]
      exact hscan
  | case3 after offset column g rest lexeme hread text token =>
    rename_i ih
    cases ps with
    | nil =>
      obtain ⟨rfl, hrest⟩ := List.cons.inj h
      refine ⟨[], g, rest, after, column, lexeme, rfl, hread, rfl, rfl, ?_⟩
      rw [width_nil, Nat.add_zero, scan, hread]
      exact congrArg _ hrest
    | cons p ps =>
      obtain ⟨xs, x, more, after', column', l, hsplit, hread', hkind, hoffset, hscan⟩ :=
        ih (List.cons.inj h).2
      have hwidth : offset + width (g :: rest.take lexeme.extra ++ xs)
          = offset + text.length + width xs := by
        rw [width_append, ← Nat.add_assoc]
        rfl
      refine ⟨g :: rest.take lexeme.extra ++ xs, x, more, after', column', l, ?_, hread', hkind,
        hoffset.trans hwidth.symm, ?_⟩
      · rw [List.append_assoc, ← hsplit, List.cons_append, List.take_append_drop]
      · rw [hwidth]
        exact hscan

/-- The first tokens that are read are a phrase. -/
theorem exists_phrase_of_scan {qs more : List (Token × Option LexicalError)} {stop : Nat}
    (hlegible : Legible gs) (hscan : v.scan line after offset column gs = qs ++ more)
    (hqs : ∀ q ∈ qs, q.1.kind ≠ .comment ∧ q.1.kind ≠ .error)
    (hstop : qs.getLast?.elim offset (fun q => q.1.stop) = stop)
    (hnamed : ∀ q ∈ qs, q.1.kind = .identifier → named q.1.text (stop - q.1.offset)) :
    ∃ vs ys, gs = vs ++ ys ∧ offset + width vs = stop ∧ (vs = [] → qs = []) ∧
      (∀ g ∈ vs.getLast?, Lexeme.IsSolid g.char) ∧ Phrase v named vs := by
  fun_induction Vocabulary.scan v line after offset column gs generalizing qs with
  | case1 =>
    obtain ⟨rfl, -⟩ := List.append_eq_nil_iff.1 hscan.symm
    exact ⟨[], [], rfl, hstop, fun _ => rfl, by simp, .nil⟩
  | case2 after offset column g rest hread ih =>
    cases qs with
    | nil => exact ⟨[], g :: rest, rfl, hstop, fun _ => rfl, by simp, .nil⟩
    | cons q qs =>
      rw [← List.singleton_append] at hlegible
      obtain ⟨vs, ys, hsplit, hwidth, hnil, hlast, hphrase⟩ :=
        ih hlegible.right hscan hqs (by simpa [List.getLast?_cons] using hstop) hnamed
      have hne : vs ≠ [] := fun h => List.cons_ne_nil _ _ (hnil h)
      refine ⟨g :: vs, ys, by rw [hsplit]; rfl, ?_, fun h => absurd h (List.cons_ne_nil _ _), ?_,
        .separator (Lexeme.read_eq_none_iff.1 hread) hphrase⟩
      · rw [width_cons, ← Nat.add_assoc, hwidth]
      · rw [← List.singleton_append, List.getLast?_append_of_ne_nil _ hne]
        exact hlast
  | case3 after offset column g rest lexeme hread text token =>
    rename_i ih
    cases qs with
    | nil => exact ⟨[], g :: rest, rfl, hstop, fun _ => rfl, by simp, .nil⟩
    | cons q qs =>
      obtain ⟨rfl, hrest⟩ := List.cons.inj hscan
      obtain ⟨hq, hqs⟩ := List.forall_mem_cons.1 hqs
      obtain ⟨hname, hnamed⟩ := List.forall_mem_cons.1 hnamed
      have hcut : g :: rest = (g :: rest.take lexeme.extra) ++ rest.drop lexeme.extra := by simp
      have hend : qs.getLast?.elim (offset + text.length) (fun q => q.1.stop) = stop := by
        rw [← hstop, List.getLast?_cons]
        cases qs.getLast? <;> rfl
      obtain ⟨vs, ys, hsplit, hwidth, -, hlast, hphrase⟩ :=
        ih (hcut ▸ hlegible).right hrest hqs hend hnamed
      have hsum : offset + width (g :: (rest.take lexeme.extra ++ vs)) = stop := by
        rw [← hwidth, ← List.cons_append, width_append, ← Nat.add_assoc]
        rfl
      refine ⟨g :: (rest.take lexeme.extra ++ vs), ys, ?_, hsum,
        fun h => absurd h (List.cons_ne_nil _ _),
        Lexeme.isSolid_getLast?_append hread hq hlast,
        .of_read hlegible hread hq hsplit (fun hkind => ?_) hphrase⟩
      · rw [hcut, hsplit, ← List.append_assoc]
        rfl
      · rw [← Nat.add_sub_cancel_left (n := offset) (m := width _), hsum]
        exact hname hkind

/-- The text from the first to the last of some tokens that are not wrong. -/
theorem exists_passage_of_tokens {text : Text} {front rest behind : List Token} {first : Token}
    (htokens : (v.tokenizeText text line).1.tokens = front ++ (first :: rest ++ behind))
    (hkinds : ∀ t ∈ first :: rest, t.kind ≠ .comment ∧ t.kind ≠ .error)
    (hnamed : ∀ t ∈ first :: rest, t.kind = .identifier →
      named t.text ((rest.getLastD first).stop - t.offset)) :
    ∃ vs, (text.take (rest.getLastD first).stop).drop first.offset = ofGlyphs vs ∧
      Passage v named vs := by
  obtain ⟨ps, later, hscan, rfl, hlater⟩ := List.map_eq_append_iff.1 htokens
  obtain ⟨qs, more, rfl, hqs, -⟩ := List.map_eq_append_iff.1 hlater
  obtain ⟨q, qs, rfl, rfl, rfl⟩ := List.map_eq_cons_iff.1 hqs
  obtain ⟨xs, g, suffix, after, column, l, hglyphs, hread, hkind, hoffset, hfirst⟩ :=
    exists_scan_of_append (hscan.trans (by rw [List.cons_append]))
  have hlegible : Legible (xs ++ g :: suffix) := hglyphs ▸ Legible.of_glyphs text
  have hall {p : Token → Prop} (h : ∀ t ∈ q.1 :: qs.map Prod.fst, p t) : ∀ x ∈ q :: qs, p x.1 :=
    fun x hx => h x.1 (List.mem_map_of_mem hx)
  have hstop : (q :: qs).getLast?.elim (0 + width xs) (fun q => q.1.stop)
      = ((qs.map Prod.fst).getLastD q.1).stop := by
    rw [List.getLast?_cons, List.getLastD_eq_getLast?, List.getLast?_map]
    cases qs.getLast? <;> rfl
  obtain ⟨vs, ys, hsplit, hwidth, hnil, hlast, hphrase⟩ :=
    exists_phrase_of_scan hlegible.right hfirst (hall hkinds) hstop (hall hnamed)
  have hne : vs ≠ [] := fun h => List.cons_ne_nil _ _ (hnil h)
  have hvs : Legible vs := (hsplit ▸ hlegible.right).left
  have hhead : ∀ x ∈ vs.head?, Lexeme.IsSolid x.char := by
    obtain ⟨x, vs, rfl⟩ := List.exists_cons_of_ne_nil hne
    obtain rfl : g = x := (List.cons.inj hsplit).1
    rintro _ ⟨⟩
    refine (Lexeme.isSolid_of_read hread ?_).1
    rw [hkind]
    exact hkinds q.1 (List.mem_cons_self ..)
  refine ⟨vs, ?_, hphrase, hne, hvs, hhead, hlast⟩
  have htext : text = ofGlyphs xs ++ ofGlyphs vs ++ ofGlyphs ys := by
    rw [← ofGlyphs_append, ← ofGlyphs_append, List.append_assoc, ← hsplit, ← hglyphs, ofGlyphs_glyphs]
  rw [← hwidth, hoffset, Nat.zero_add, htext, width, width, ← List.length_append, List.take_left,
    List.drop_left]

end Vocabulary

end Rv32Assembler
