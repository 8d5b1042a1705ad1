import Mathlib.Data.List.Basic
import Rv32Assembler.Text.Blank
import Rv32Assembler.Token.Lexer
/-!
# Characters in context

A well-formed sequence of bytes is read as the same character whatever comes after it. So the
characters of a word can be cut out of a line, put into another line and read there again
(`glyphs_ofGlyphs_append`); a byte that is no part of UTF-8 has no such reading, but no word holds
one. In front of a byte that continues no sequence, such as any of ASCII, every text is read as it is
alone (`glyphs_append_of_not_tail`). The bytes of a character are read as that character, also where it
is the one that stands for stray bytes (`glyphs_encodeChar_append`).
-/

namespace Rv32Assembler.Text

/-! ### Texts of given characters -/

theorem ofGlyphs_nil : ofGlyphs [] = [] := rfl

theorem ofGlyphs_cons (g : Glyph) (gs : List Glyph) : ofGlyphs (g :: gs) = g.bytes ++ ofGlyphs gs := rfl

theorem ofGlyphs_append (xs ys : List Glyph) : ofGlyphs (xs ++ ys) = ofGlyphs xs ++ ofGlyphs ys :=
  List.flatMap_append

theorem append_ofGlyphs_cons (front : Text) (g : Glyph) (gs : List Glyph) :
    front ++ ofGlyphs (g :: gs) = front ++ g.bytes ++ ofGlyphs gs := by
  rw [ofGlyphs_cons, List.append_assoc]

theorem append_ofGlyphs_take (front : Text) (g : Glyph) (gs : List Glyph) (extra : Nat) :
    front ++ ofGlyphs (g :: gs)
      = front ++ ofGlyphs (g :: gs.take extra) ++ ofGlyphs (gs.drop extra) := by
  rw [List.append_assoc, ← ofGlyphs_append, List.cons_append, List.take_append_drop]

/-! ### Characters that stand for themselves -/

/-- The glyph is read from its bytes whatever comes after them. -/
def Glyph.IsWhole (g : Glyph) : Prop := ∀ tail, glyphs (g.bytes ++ tail) = g :: glyphs tail

theorem sequence?_append {b : UInt8} {rest : Text} {code extra : Nat}
    (h : sequence? b rest = some (code, extra)) (tail : Text) :
    sequence? b (rest.take extra ++ tail) = some (code, extra) ∧ extra ≤ rest.length := by
  unfold sequence? at h ⊢
  split at h
  · rename_i hone
    cases h
    simp [hone]
  · rename_i hone
    simp only [hone]
    split at h
    · rename_i htwo
      rcases rest with _ | ⟨b₁, rest⟩
      · cases h
      · simp only at h
        split at h
        · rename_i hsecond
          cases h
          simp [htwo, hsecond]
        · cases h
    · rename_i htwo
      simp only [htwo]
      split at h
      · rename_i hthree
        rcases rest with _ | ⟨b₁, _ | ⟨b₂, rest⟩⟩
        · cases h
        · cases h
        · simp only at h
          split at h
          · rename_i htails
            cases h
            simp [hthree, htails]
          · cases h
      · rename_i hthree
        simp only [hthree]
        split at h
        · rename_i hfour
          rcases rest with _ | ⟨b₁, _ | ⟨b₂, _ | ⟨b₃, rest⟩⟩⟩
          · cases h
          · cases h
          · cases h
          · simp only at h
            split at h
            · rename_i htails
              cases h
              simp [hfour, htails]
            · cases h
        · cases h

theorem isWhole_of_sequence? {b : UInt8} {rest : Text} {code extra : Nat}
    (h : sequence? b rest = some (code, extra)) :
    Glyph.IsWhole ⟨Char.ofNat code, b :: rest.take extra⟩ := by
  intro tail
  obtain ⟨hagain, hlength⟩ := sequence?_append h tail
  have htaken : (rest.take extra).length = extra := by simp; omega
  have htake : (rest.take extra ++ tail).take extra = rest.take extra := List.take_left' htaken
  have hdrop : (rest.take extra ++ tail).drop extra = tail := List.drop_left' htaken
  rw [List.cons_append, glyphs, firstGlyph, hagain]
  simp only [htake, hdrop]

/-- A character other than the replacement stands for a well-formed sequence. -/
theorem isWhole_of_mem_glyphs {s : Text} {g : Glyph} (hg : g ∈ glyphs s)
    (hchar : g.char ≠ replacement) : g.IsWhole := by
  fun_induction glyphs s with
  | case1 => cases hg
  | case2 b rest first ih =>
    rcases List.mem_cons.1 hg with rfl | hg
    · unfold first firstGlyph at hchar ⊢
      split
      · rename_i code extra hsequence
        exact isWhole_of_sequence? hsequence
      · rename_i hnone
        simp [hnone] at hchar
    · exact ih hg

theorem glyphs_cons_ascii {b : UInt8} (h : b < 0x80) (tail : Text) :
    glyphs (b :: tail) = ⟨Char.ofNat b.toNat, [b]⟩ :: glyphs tail := by
  have hsequence : sequence? b [] = some (b.toNat, 0) := by simp [sequence?, h]
  exact isWhole_of_sequence? hsequence tail

theorem glyphs_ofGlyphs_append {gs : List Glyph} (h : ∀ g ∈ gs, g.IsWhole) (tail : Text) :
    glyphs (ofGlyphs gs ++ tail) = gs ++ glyphs tail := by
  induction gs with
  | nil => rfl
  | cons g gs ih =>
    have hsplit : ofGlyphs (g :: gs) ++ tail = g.bytes ++ (ofGlyphs gs ++ tail) := by
      simp [ofGlyphs]
    rw [hsplit, h g (List.mem_cons_self ..), ih fun x hx => h x (List.mem_cons_of_mem _ hx)]
    rfl

theorem glyphs_ofGlyphs {gs : List Glyph} (h : ∀ g ∈ gs, g.IsWhole) :
    glyphs (ofGlyphs gs) = gs := by
  have happend := glyphs_ofGlyphs_append h []
  simpa [glyphs] using happend

/-! ### Bytes that continue no sequence -/

theorem isTail_of_isSecond {b x : UInt8} (h : isSecond b x = true) : isTail x = true := by
  unfold isSecond at h
  repeat' split at h
  all_goals
    simp [isTail, UInt8.le_iff_toNat_le] at h ⊢
    omega

theorem sequence?_append_of_not_tail {c : UInt8} (hc : isTail c = false) (b : UInt8)
    (rest tail : Text) : sequence? b (rest ++ c :: tail) = sequence? b rest := by
  have hsecond : isSecond b c = false := by
    rw [← Bool.not_eq_true]
    intro h
    rw [isTail_of_isSecond h] at hc
    cases hc
  -- At most three further bytes are looked at.
  rcases rest with _ | ⟨b₁, _ | ⟨b₂, _ | ⟨b₃, rest⟩⟩⟩ <;>
    rcases tail with _ | ⟨t₁, _ | ⟨t₂, tail⟩⟩ <;> simp [sequence?, hc, hsecond]

/-- A text in front of a byte that continues no sequence is read as it is alone. -/
theorem glyphs_append_of_not_tail {c : UInt8} (hc : isTail c = false) (s tail : Text) :
    glyphs (s ++ c :: tail) = glyphs s ++ glyphs (c :: tail) := by
  fun_induction glyphs s with
  | case1 => rfl
  | case2 b rest first ih =>
    have htaken : first.2 ≤ rest.length := by
      unfold first firstGlyph
      split
      · rename_i hsequence
        exact (sequence?_append hsequence []).2
      · exact Nat.zero_le _
    have hfirst : firstGlyph b (rest ++ c :: tail) = first := by
      unfold first firstGlyph
      rw [sequence?_append_of_not_tail hc]
      split
      · rename_i hsequence
        rw [List.take_append_of_le_length (sequence?_append hsequence []).2]
      · rfl
    rw [List.cons_append, glyphs, hfirst, List.drop_append_of_le_length htaken, ih, List.cons_append]

/-- The second byte says of the six bits that it carries what the first one leaves open. -/
theorem tailBits_of_isSecond {b x : UInt8} (h : isSecond b x = true) :
    (b = 0xe0 → 32 ≤ tailBits x) ∧ (b = 0xed → tailBits x < 32) ∧ (b = 0xf0 → 16 ≤ tailBits x) ∧
      (b = 0xf4 → tailBits x < 16) := by
  refine ⟨?_, ?_, ?_, ?_⟩ <;>
  · rintro rfl
    simp only [isSecond, tailBits] at h ⊢
    simp [UInt8.le_iff_toNat_le] at h
    omega

/-- The code point of a sequence of several bytes is one, and not of ASCII; nor is any of its bytes. -/
theorem code_of_sequence? {b : UInt8} {rest : Text} {code extra : Nat} (hb : ¬ b < 0x80)
    (h : sequence? b rest = some (code, extra)) :
    0x80 ≤ code ∧ code.isValidChar ∧ ∀ x ∈ rest.take extra, isTail x = true := by
  have hbits (x : UInt8) : tailBits x < 64 := Nat.mod_lt _ (by decide)
  unfold sequence? at h
  rw [if_neg hb] at h
  split at h
  · rename_i htwo
    rcases rest with _ | ⟨b₁, rest⟩
    · cases h
    · simp only at h
      split at h
      · rename_i hsecond
        cases h
        have := hbits b₁
        simp [UInt8.le_iff_toNat_le] at htwo
        refine ⟨by omega, .inl (by omega), ?_⟩
        simpa using isTail_of_isSecond hsecond
      · cases h
  · split at h
    · rename_i hthree
      rcases rest with _ | ⟨b₁, _ | ⟨b₂, rest⟩⟩
      · cases h
      · cases h
      · simp only at h
        split at h
        · rename_i htails
          cases h
          rw [Bool.and_eq_true] at htails
          obtain ⟨he0, hed, -, -⟩ := tailBits_of_isSecond htails.1
          simp [UInt8.le_iff_toNat_le] at hthree
          simp only [← UInt8.toNat_inj, UInt8.reduceToNat] at he0 hed
          have := hbits b₁
          have := hbits b₂
          refine ⟨by omega, ?_, ?_⟩
          · by_cases hsurrogate : b.toNat ≤ 0xed
            · exact .inl (by omega)
            · exact .inr ⟨by omega, by omega⟩
          · simpa using ⟨isTail_of_isSecond htails.1, htails.2⟩
        · cases h
    · split at h
      · rename_i hfour
        rcases rest with _ | ⟨b₁, _ | ⟨b₂, _ | ⟨b₃, rest⟩⟩⟩
        · cases h
        · cases h
        · cases h
        · simp only at h
          split at h
          · rename_i htails
            cases h
            rw [Bool.and_eq_true, Bool.and_eq_true] at htails
            obtain ⟨-, -, hf0, hf4⟩ := tailBits_of_isSecond htails.1.1
            simp [UInt8.le_iff_toNat_le] at hfour
            simp only [← UInt8.toNat_inj, UInt8.reduceToNat] at hf0 hf4
            have := hbits b₁
            have := hbits b₂
            have := hbits b₃
            refine ⟨by omega, .inr ⟨by omega, by omega⟩, ?_⟩
            simpa using ⟨isTail_of_isSecond htails.1.1, htails.1.2, htails.2⟩
          · cases h
      · cases h

/-- No character outside of ASCII has a byte of ASCII. -/
theorem firstGlyph_of_not_ascii {b : UInt8} (hb : ¬ b < 0x80) (rest : Text) :
    0x80 ≤ (firstGlyph b rest).1.char.toNat ∧
      ∀ x ∈ rest.take (firstGlyph b rest).2, isTail x = true := by
  unfold firstGlyph
  split
  · rename_i code extra hsequence
    obtain ⟨hcode, hvalid, htails⟩ := code_of_sequence? hb hsequence
    refine ⟨?_, htails⟩
    change 0x80 ≤ (Char.ofNat code).toNat
    rwa [Char.ofNat, dif_pos hvalid]
  · refine ⟨?_, by simp⟩
    change 0x80 ≤ replacement.toNat
    decide

/-! ### The bytes of a character -/

theorem isSecond_of_tailBits {b x : UInt8} (htail : isTail x = true) (he0 : b.toNat = 0xe0 → 32 ≤ tailBits x)
    (hed : b.toNat = 0xed → tailBits x < 32) (hf0 : b.toNat = 0xf0 → 16 ≤ tailBits x)
    (hf4 : b.toNat = 0xf4 → tailBits x < 16) : isSecond b x = true := by
  simp only [isTail, tailBits, Bool.and_eq_true, decide_eq_true_eq, UInt8.le_iff_toNat_le,
    UInt8.reduceToNat] at htail he0 hed hf0 hf4
  unfold isSecond
  simp only [beq_iff_eq, ← UInt8.toNat_inj, UInt8.reduceToNat]
  repeat' split
  all_goals
    simp only [isTail, Bool.and_eq_true, decide_eq_true_eq, UInt8.le_iff_toNat_le, UInt8.reduceToNat]
    omega

theorem sequence?_two {b b₁ : UInt8} (hb : 0xc2 ≤ b.toNat ∧ b.toNat < 0xe0) (h : isSecond b b₁ = true) :
    sequence? b [b₁] = some (b.toNat % 32 * 64 + tailBits b₁, 1) := by
  have hlow : ¬b.toNat < 0x80 := by omega
  have hrange : 0xc2 ≤ b.toNat ∧ b.toNat ≤ 0xdf := by omega
  simp [sequence?, UInt8.lt_iff_toNat_lt, UInt8.le_iff_toNat_le, hlow, hrange, h]

theorem sequence?_three {b b₁ b₂ : UInt8} (hb : 0xe0 ≤ b.toNat ∧ b.toNat < 0xf0)
    (h : isSecond b b₁ = true) (h₂ : isTail b₂ = true) :
    sequence? b [b₁, b₂] = some (b.toNat % 16 * 4096 + tailBits b₁ * 64 + tailBits b₂, 2) := by
  have hlow : ¬b.toNat < 0x80 := by omega
  have htwo : ¬b.toNat ≤ 0xdf := by omega
  have hrange : 0xe0 ≤ b.toNat ∧ b.toNat ≤ 0xef := by omega
  simp [sequence?, UInt8.lt_iff_toNat_lt, UInt8.le_iff_toNat_le, hlow, htwo, hrange, h, h₂]

theorem sequence?_four {b b₁ b₂ b₃ : UInt8} (hb : 0xf0 ≤ b.toNat ∧ b.toNat < 0xf5)
    (h : isSecond b b₁ = true) (h₂ : isTail b₂ = true) (h₃ : isTail b₃ = true) :
    sequence? b [b₁, b₂, b₃] = some (b.toNat % 8 * 262144 + tailBits b₁ * 4096 + tailBits b₂ * 64
      + tailBits b₃, 3) := by
  have hlow : ¬b.toNat < 0x80 := by omega
  have htwo : ¬b.toNat ≤ 0xdf := by omega
  have hthree : ¬b.toNat ≤ 0xef := by omega
  have hrange : 0xf0 ≤ b.toNat ∧ b.toNat ≤ 0xf4 := by omega
  simp [sequence?, UInt8.lt_iff_toNat_lt, UInt8.le_iff_toNat_le, hlow, htwo, hthree, hrange, h, h₂, h₃]

theorem tail_ofNat (n : Nat) : isTail (UInt8.ofNat (n % 64 + 128)) = true ∧
    tailBits (UInt8.ofNat (n % 64 + 128)) = n % 64 := by
  have hbyte : (UInt8.ofNat (n % 64 + 128)).toNat = n % 64 + 128 := UInt8.toNat_ofNat_of_lt' (show n % 64 + 128 < 256 by omega)
  simp only [isTail, tailBits, Bool.and_eq_true, decide_eq_true_eq, UInt8.le_iff_toNat_le, hbyte,
    UInt8.reduceToNat]
  omega

/-- The bytes of a character are a sequence that stands for its code. -/
theorem sequence?_encodeChar (c : Char) :
    ∃ b rest, encodeChar c = b :: rest ∧ sequence? b rest = some (c.toNat, rest.length) := by
  have hvalid : c.toNat < 0xd800 ∨ 0xdfff < c.toNat ∧ c.toNat < 0x110000 := c.valid
  have hencode : encodeChar c = String.utf8EncodeChar c := rfl
  rw [hencode, String.utf8EncodeChar.eq_def]
  simp only [Char.toNat_val]
  generalize c.toNat = code at hvalid
  have hbyte {n : Nat} (h : n < 256) : (UInt8.ofNat n).toNat = n := UInt8.toNat_ofNat_of_lt' h
  split
  · have hfirst := @hbyte code (by omega)
    have hascii : UInt8.ofNat code < 0x80 := by
      rw [UInt8.lt_iff_toNat_lt, hfirst]
      simp only [UInt8.reduceToNat]
      omega
    refine ⟨_, _, rfl, ?_⟩
    simp only [sequence?, hascii, if_true, hfirst, List.length_nil]
  · split
    · have hfirst := @hbyte (code / 64 % 32 + 192) (by omega)
      obtain ⟨htail, hbits⟩ := tail_ofNat code
      generalize UInt8.ofNat (code / 64 % 32 + 192) = b at hfirst
      generalize UInt8.ofNat (code % 64 + 128) = b₁ at htail hbits
      have hsecond : isSecond b b₁ = true :=
        isSecond_of_tailBits htail (by omega) (by omega) (by omega) (by omega)
      refine ⟨_, _, rfl, (sequence?_two (by omega) hsecond).trans ?_⟩
      congr 2
      omega
    · split
      · have hfirst := @hbyte (code / 4096 % 16 + 224) (by omega)
        obtain ⟨htail, hbits⟩ := tail_ofNat (code / 64)
        obtain ⟨htail₂, hbits₂⟩ := tail_ofNat code
        generalize UInt8.ofNat (code / 4096 % 16 + 224) = b at hfirst
        generalize UInt8.ofNat (code / 64 % 64 + 128) = b₁ at htail hbits
        generalize UInt8.ofNat (code % 64 + 128) = b₂ at htail₂ hbits₂
        have hsecond : isSecond b b₁ = true :=
          isSecond_of_tailBits htail (by omega) (by omega) (by omega) (by omega)
        refine ⟨_, _, rfl, (sequence?_three (by omega) hsecond htail₂).trans ?_⟩
        congr 2
        omega
      · have hfirst := @hbyte (code / 262144 % 8 + 240) (by omega)
        obtain ⟨htail, hbits⟩ := tail_ofNat (code / 4096)
        obtain ⟨htail₂, hbits₂⟩ := tail_ofNat (code / 64)
        obtain ⟨htail₃, hbits₃⟩ := tail_ofNat code
        generalize UInt8.ofNat (code / 262144 % 8 + 240) = b at hfirst
        generalize UInt8.ofNat (code / 4096 % 64 + 128) = b₁ at htail hbits
        generalize UInt8.ofNat (code / 64 % 64 + 128) = b₂ at htail₂ hbits₂
        generalize UInt8.ofNat (code % 64 + 128) = b₃ at htail₃ hbits₃
        have hsecond : isSecond b b₁ = true :=
          isSecond_of_tailBits htail (by omega) (by omega) (by omega) (by omega)
        refine ⟨_, _, rfl, (sequence?_four (by omega) hsecond htail₂ htail₃).trans ?_⟩
        congr 2
        omega

theorem glyphs_encodeChar_append (c : Char) (tail : Text) :
    glyphs (encodeChar c ++ tail) = ⟨c, encodeChar c⟩ :: glyphs tail := by
  obtain ⟨b, rest, hencode, hsequence⟩ := sequence?_encodeChar c
  have hwhole := isWhole_of_sequence? hsequence tail
  rwa [List.take_length, ← hencode, Char.ofNat_toNat] at hwhole

theorem glyphs_encodeChar (c : Char) : glyphs (encodeChar c) = [⟨c, encodeChar c⟩] := by
  have happend := glyphs_encodeChar_append c []
  rwa [List.append_nil, glyphs] at happend

/-- A character has a byte of ASCII only if it is that byte. -/
theorem eq_of_mem_encodeChar {c : Char} {b : UInt8} (h : b ∈ encodeChar c) (hb : b < 0x80) :
    c = Char.ofNat b.toNat := by
  obtain ⟨first, rest, hencode, hsequence⟩ := sequence?_encodeChar c
  rw [hencode] at h
  by_cases hfirst : first < 0x80
  · simp only [sequence?, hfirst, if_true, Option.some.injEq, Prod.mk.injEq] at hsequence
    obtain ⟨hcode, hlength⟩ := hsequence
    rw [List.eq_nil_of_length_eq_zero hlength.symm, List.mem_singleton] at h
    rw [h, hcode, Char.ofNat_toNat]
  · rcases List.mem_cons.1 h with rfl | h
    · exact absurd hb hfirst
    · obtain ⟨-, -, htails⟩ := code_of_sequence? hfirst hsequence
      have htail := htails b (by rwa [List.take_length])
      simp only [isTail, Bool.and_eq_true, decide_eq_true_eq, UInt8.le_iff_toNat_le,
        UInt8.lt_iff_toNat_lt] at htail hb
      omega

theorem glyphs_of_not_ascii {b : UInt8} (h : ¬b < 0x80) : glyphs [b] = [⟨replacement, [b]⟩] := by
  have hsequence : sequence? b [] = none := by simp [sequence?, h]
  rw [glyphs, firstGlyph, hsequence, List.drop_nil, glyphs]

theorem encodeChar_of_ascii {c : Char} (h : c.toNat < 0x80) : encodeChar c = [UInt8.ofNat c.toNat] :=
  if_pos (Nat.le_of_lt_succ h)

/-! ### Characters that are read again -/

theorem exists_glyphs_drop (s : Text) (n : Nat) :
    ∃ rest, s = ofGlyphs ((glyphs s).take n) ++ rest ∧ glyphs rest = (glyphs s).drop n := by
  induction n generalizing s with
  | zero => exact ⟨s, rfl, rfl⟩
  | succ n ih =>
    fun_cases glyphs s with
    | case1 => exact ⟨[], rfl, by rw [glyphs, List.drop_nil]⟩
    | case2 b rest first =>
      obtain ⟨later, hlater, hglyphs⟩ := ih (rest.drop first.2)
      refine ⟨later, ?_, hglyphs⟩
      rw [List.take_succ_cons, ofGlyphs, List.flatMap_cons, List.append_assoc]
      change _ = first.1.bytes ++ (ofGlyphs _ ++ later)
      rw [← hlater, firstGlyph_bytes, List.cons_append, List.take_append_drop]

/-- The characters are read again from their bytes. -/
def Legible (gs : List Glyph) : Prop := glyphs (ofGlyphs gs) = gs

/-- No character other than the replacement starts with a byte that continues a sequence. -/
theorem exists_bytes_of_mem_glyphs {s : Text} {g : Glyph} (hg : g ∈ glyphs s)
    (hchar : g.char ≠ replacement) : ∃ b rest, g.bytes = b :: rest ∧ isTail b = false := by
  fun_induction glyphs s with
  | case1 => cases hg
  | case2 b rest first ih =>
    rcases List.mem_cons.1 hg with rfl | hg
    · refine ⟨b, _, firstGlyph_bytes b rest, ?_⟩
      rw [Bool.eq_false_iff]
      intro htail
      have hnone : sequence? b rest = none := by
        simp only [isTail, Bool.and_eq_true, decide_eq_true_eq, UInt8.le_iff_toNat_le,
          UInt8.reduceToNat] at htail
        unfold sequence?
        simp only [Bool.and_eq_true, decide_eq_true_eq, UInt8.le_iff_toNat_le, UInt8.lt_iff_toNat_lt,
          UInt8.reduceToNat]
        repeat' rw [if_neg (by omega)]
      apply hchar
      unfold first firstGlyph
      rw [hnone]
    · exact ih hg

/-- The first characters of a text are read without the others. -/
theorem legible_take_glyphs (s : Text) (n : Nat) : Legible ((glyphs s).take n) := by
  fun_induction glyphs s generalizing n with
  | case1 =>
    rw [List.take_nil, Legible, ofGlyphs_nil, glyphs]
  | case2 b rest first ih =>
    cases n with
    | zero => rw [List.take_zero, Legible, ofGlyphs_nil, glyphs]
    | succ n =>
      obtain ⟨later, hlater, -⟩ := exists_glyphs_drop (rest.drop first.2) n
      have hnext := ih n
      rw [List.take_succ_cons, Legible, ofGlyphs_cons]
      rw [Legible] at hnext
      cases hsequence : sequence? b rest with
      | some p =>
        have hfirst : first = (⟨Char.ofNat p.1, b :: rest.take p.2⟩, p.2) := by
          unfold first firstGlyph
          rw [hsequence]
        rw [hfirst] at hnext ⊢
        rw [isWhole_of_sequence? hsequence, hnext]
      | none =>
        have hfirst : first = (⟨replacement, [b]⟩, 0) := by
          unfold first firstGlyph
          rw [hsequence]
        rw [hfirst] at hnext hlater ⊢
        rw [List.drop_zero] at hnext hlater
        rw [List.drop_zero, List.cons_append, List.nil_append, glyphs]
        generalize ofGlyphs ((glyphs rest).take n) = t at *
        have hagain : sequence? b t = none := by
          cases hsome : sequence? b t with
          | none => rfl
          | some p =>
            have hmore := sequence?_append hsome (t.drop p.2 ++ later)
            rw [← List.append_assoc, List.take_append_drop, ← hlater, hsequence] at hmore
            cases hmore.1
        rw [firstGlyph, hagain]
        exact congrArg _ hnext

namespace Legible

variable {xs ys : List Glyph}

theorem of_glyphs (s : Text) : Legible (glyphs s) := by
  rw [Legible, ofGlyphs_glyphs]

theorem left (h : Legible (xs ++ ys)) : Legible xs := by
  have htake := legible_take_glyphs (ofGlyphs (xs ++ ys)) xs.length
  rwa [h, List.take_left] at htake

theorem right (h : Legible (xs ++ ys)) : Legible ys := by
  obtain ⟨rest, hrest, hglyphs⟩ := exists_glyphs_drop (ofGlyphs (xs ++ ys)) xs.length
  rw [h, List.take_left, ofGlyphs_append, List.append_cancel_left_eq] at hrest
  rwa [← hrest, h, List.drop_left] at hglyphs

theorem append_of_head (hxs : Legible xs) (hys : Legible ys)
    (hhead : ∀ g ∈ ys.head?, g.char ≠ replacement) : Legible (xs ++ ys) := by
  cases ys with
  | nil => rwa [List.append_nil]
  | cons g ys =>
    have hmem : g ∈ glyphs (ofGlyphs (g :: ys)) := by
      rw [hys]
      exact List.mem_cons_self ..
    obtain ⟨b, rest, hbytes, htail⟩ := exists_bytes_of_mem_glyphs hmem (hhead g rfl)
    have htext : ofGlyphs (g :: ys) = b :: (rest ++ ofGlyphs ys) := by
      rw [ofGlyphs_cons, hbytes, List.cons_append]
    rw [Legible, ofGlyphs_append, htext, glyphs_append_of_not_tail htail, ← htext, hxs, hys]

theorem append_of_getLast (hxs : Legible xs) (hys : Legible ys)
    (hlast : ∀ g ∈ xs.getLast?, g.char ≠ replacement) : Legible (xs ++ ys) := by
  rcases List.eq_nil_or_concat' xs with rfl | ⟨zs, g, rfl⟩
  · exact hys
  · have hchar := hlast g (by simp)
    have hwhole : g.IsWhole := by
      refine isWhole_of_mem_glyphs (s := ofGlyphs (zs ++ [g])) ?_ hchar
      rw [hxs]
      simp
    rw [List.append_assoc]
    refine append_of_head hxs.left ?_ ?_
    · rw [List.singleton_append, Legible, ofGlyphs_cons, hwhole, hys]
    · rintro _ ⟨⟩
      exact hchar

end Legible

/-! ### Bytes of characters -/

/-- The number of bytes of the characters. -/
def width (gs : List Glyph) : Nat := (ofGlyphs gs).length

@[simp] theorem width_nil : width [] = 0 := rfl

@[simp] theorem width_cons (g : Glyph) (gs : List Glyph) : width (g :: gs) = g.bytes.length + width gs := by
  simp [width, ofGlyphs]

@[simp] theorem width_append (gs more : List Glyph) : width (gs ++ more) = width gs + width more := by
  simp [width, ofGlyphs]

theorem width_take_add_drop (gs : List Glyph) (n : Nat) :
    width (gs.take n) + width (gs.drop n) = width gs := by
  rw [← width_append, List.take_append_drop]

theorem width_take_pos {gs : List Glyph} (hbytes : ∀ g ∈ gs, g.bytes ≠ []) {n : Nat} (hn : n ≠ 0)
    (hle : n ≤ gs.length) : 0 < width (gs.take n) := by
  obtain ⟨n, rfl⟩ := Nat.exists_eq_succ_of_ne_zero hn
  cases gs with
  | nil => cases hle
  | cons g gs =>
    rw [List.take_succ_cons, width_cons]
    exact Nat.add_pos_left (List.length_pos_iff.2 (hbytes g (List.mem_cons_self ..))) _

theorem trim_ofGlyphs {gs : List Glyph} (h : Legible gs)
    (hhead : ∀ g ∈ gs.head?, isBlank g.char = false)
    (hlast : ∀ g ∈ gs.getLast?, isBlank g.char = false) : trim (ofGlyphs gs) = ofGlyphs gs := by
  have hkeep {gs : List Glyph} (hgs : ∀ g ∈ gs.head?, isBlank g.char = false) :
      gs.dropWhile (fun g => isBlank g.char) = gs := by
    cases gs with
    | nil => rfl
    | cons g gs => simp [hgs g rfl]
  rw [trim, h, hkeep hhead, hkeep, List.reverse_reverse]
  rwa [List.head?_reverse]

end Rv32Assembler.Text
