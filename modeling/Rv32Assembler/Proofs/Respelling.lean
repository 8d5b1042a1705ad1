import Rv32Assembler.Proofs.Phrases
/-!
# Identifiers of a line with replacements

A line in which words have given way to phrases is read anew. Its tokens need not be those of the line and
those of the phrases side by side: a number goes on into a phrase that is put in behind it, and out of it
again over a sign. But words do not come about that way. An identifier of the new line is one of the old
line at the place it has come to, or one of a phrase at its place in it, or it stands right behind a number
that lies across an end of a phrase (`carries_of_respells`).
-/

namespace Rv32Assembler

open Text

/-- The kind that a number has, be it right or wrong. -/
def Kind.isNumeric (k : Kind) : Bool := k.isInteger || k == .realNumber || k == .error

theorem Lexeme.isNumeric_number (text : Text) (extra : Nat) :
    (Lexeme.number text extra).kind.isNumeric = true := by
  unfold Lexeme.number Kind.classify
  repeat' split
  all_goals rfl

/-! ### Accounts of identifiers -/

/-- What may be said of places in a new text: that a name of the old one has come to a place, that one of
what was put in has, that between two places one was put in that begins or ends there, and that a number
of which this is true ends at a place. -/
structure Account where
  kept : Text → Nat → Prop
  named : Text → Nat → Prop
  crossed : Nat → Nat → Prop
  behind : Nat → Prop

namespace Account

variable (a : Account) (v : Vocabulary) (line : SourceLine)

def Clears (t : Token) : Prop := a.kept t.text t.offset ∨ a.named t.text t.offset ∨ a.behind t.offset

/-- The identifiers that are read from the characters are cleared, provided that the account knows where
the numbers read with them end. -/
def Covers (after : Bool) (offset column : Nat) (gs : List Glyph) : Prop :=
  (∀ p ∈ v.scan line after offset column gs, p.1.kind.isNumeric = true →
      a.crossed p.1.offset p.1.stop → a.behind p.1.stop) →
    ∀ p ∈ v.scan line after offset column gs, p.1.kind = .identifier → a.Clears p.1

/-- Whatever stands before the characters. -/
def Holds (offset : Nat) (gs : List Glyph) : Prop :=
  ∀ after column, a.Covers v line after offset column gs

/-- The same behind a number that goes on into the characters, if that is known to end there. -/
def Resumes (offset : Nat) (hexadecimal : Bool) (last : Char) (gs : List Glyph) : Prop :=
  let n := Lexeme.numberLength hexadecimal last gs
  a.behind (offset + width (gs.take n)) → a.Holds v line (offset + width (gs.take n)) (gs.drop n)

/-- The same behind a number that has its first digit at the place, when the token starts at `start`. -/
def Numeral (start offset : Nat) (d : Glyph) (gs : List Glyph) : Prop :=
  let n := Lexeme.numberLength false d.char gs
  let stop := offset + width (d :: gs.take n)
  (a.crossed start stop → a.behind stop) → a.Holds v line stop (gs.drop n)

variable {a v line} {after : Bool} {offset column : Nat} {g : Glyph} {gs : List Glyph}

theorem holds_nil : a.Holds v line offset [] := by
  intro after column _ p hp
  rw [Vocabulary.scan] at hp
  cases hp

theorem holds_separator (hg : Lexeme.isSeparator g.char = true)
    (h : a.Holds v line (offset + g.bytes.length) gs) : a.Holds v line offset (g :: gs) := by
  intro after column
  rw [Covers, Vocabulary.scan, Lexeme.read_eq_none_iff.2 hg]
  exact h false (column + 1)

theorem covers_token {l : Lexeme} (hread : Lexeme.read v after g gs = some l)
    (hname : l.kind = .identifier → a.kept (ofGlyphs (g :: gs.take l.extra)) offset ∨
      a.named (ofGlyphs (g :: gs.take l.extra)) offset ∨ a.behind offset)
    (h : (l.kind.isNumeric = true → a.crossed offset (offset + width (g :: gs.take l.extra)) →
        a.behind (offset + width (g :: gs.take l.extra))) →
      a.Holds v line (offset + width (g :: gs.take l.extra)) (gs.drop l.extra)) :
    a.Covers v line after offset column (g :: gs) := by
  rw [Covers, Vocabulary.scan, hread]
  intro hbehind
  obtain ⟨hfirst, hlater⟩ := List.forall_mem_cons.1 hbehind
  exact List.forall_mem_cons.2 ⟨hname, h hfirst _ _ hlater⟩

theorem resumes_of_zero {hexadecimal : Bool} {last : Char} (h : a.Holds v line offset gs)
    (hzero : Lexeme.numberLength hexadecimal last gs = 0) : a.Resumes v line offset hexadecimal last gs := by
  rw [Resumes, hzero]
  exact fun _ => h

theorem resumes_append {hexadecimal hexadecimal' : Bool} {last last' : Char} {ns : List Glyph}
    (hlength : Lexeme.numberLength hexadecimal last (gs ++ ns)
      = gs.length + Lexeme.numberLength hexadecimal' last' ns)
    (h : a.Resumes v line (offset + width gs) hexadecimal' last' ns) :
    a.Resumes v line offset hexadecimal last (gs ++ ns) := by
  rw [Resumes, hlength, List.take_length_add_append, List.drop_length_add_append, width_append,
    ← Nat.add_assoc]
  exact h

theorem covers_number {text : Text} {extra : Nat}
    (hread : Lexeme.read v after g gs = some (Lexeme.number text extra))
    (h : (a.crossed offset (offset + width (g :: gs.take extra)) →
        a.behind (offset + width (g :: gs.take extra))) →
      a.Holds v line (offset + width (g :: gs.take extra)) (gs.drop extra)) :
    a.Covers v line after offset column (g :: gs) := by
  refine covers_token hread (fun hkind => absurd hkind (Lexeme.ne_identifier_number _ _)) ?_
  rw [Lexeme.extra_number]
  exact fun hbehind => h (hbehind (Lexeme.isNumeric_number _ _))

theorem holds_numeral (hg : isDecimalDigit g.char = true) (h : a.Numeral v line offset offset g gs) :
    a.Holds v line offset (g :: gs) :=
  fun _ _ => covers_number (Lexeme.read_of_isDecimalDigit gs hg) h

theorem resumes_numeral {last : Char} (hg : isDecimalDigit g.char = true)
    (h : a.Numeral v line offset offset g gs) : a.Resumes v line offset false last (g :: gs) := by
  rw [Resumes, Lexeme.numberLength_digit gs hg]
  exact fun hbehind => h fun _ => hbehind

theorem holds_sign (hg : Lexeme.isSign g.char = true) (h : a.Holds v line (offset + g.bytes.length) gs)
    (hnumeral : ∀ d rest, gs = d :: rest → isDecimalDigit d.char = true →
      a.Numeral v line offset (offset + g.bytes.length) d rest) :
    a.Holds v line offset (g :: gs) := by
  intro after column
  obtain ⟨l, hread⟩ : ∃ l, Lexeme.read v after g gs = some l := ⟨_, Lexeme.read_of_isSign gs hg⟩
  rcases Lexeme.cases_of_isSign hg hread with ⟨-, d, rest, rfl, hd, rfl⟩ | rfl
  · refine covers_number hread ?_
    rw [List.take_succ_cons, List.drop_succ_cons, width_cons, ← Nat.add_assoc]
    exact hnumeral d rest rfl hd
  · have halone : (if g.char == '-' then Kind.minus else Kind.plus) ≠ .identifier := by
      cases hminus : g.char == '-' <;> simp
    refine covers_token hread (fun hkind => absurd hkind halone) fun _ => ?_
    simpa using h

theorem resumes_sign {hexadecimal : Bool} {last : Char} (hg : Lexeme.isSign g.char = true)
    (h : a.Holds v line offset (g :: gs))
    (hresumes : a.Resumes v line (offset + g.bytes.length) false g.char gs) :
    a.Resumes v line offset hexadecimal last (g :: gs) := by
  by_cases hzero : Lexeme.numberLength hexadecimal last (g :: gs) = 0
  · exact resumes_of_zero h hzero
  · rw [Resumes, Lexeme.numberLength_sign hg hzero, List.take_succ_cons, List.drop_succ_cons, width_cons,
      ← Nat.add_assoc]
    exact hresumes

/-- What a number leaves of a word is a word or nothing. -/
theorem resumes_word {ws ns : List Glyph} (hws : ∀ g ∈ ws, Lexeme.isWordPart g.char = true)
    (hhead : ∀ g ∈ ns.head?, Lexeme.isWordPart g.char = false)
    (h : a.Holds v line (offset + width ws) ns)
    (hresumes : ∀ hexadecimal last, a.Resumes v line (offset + width ws) hexadecimal last ns)
    (hexadecimal : Bool) (last : Char) : a.Resumes v line offset hexadecimal last (ws ++ ns) := by
  rcases Lexeme.numberLength_append hexadecimal last ws with ⟨hlt, hsame⟩ | ⟨hexadecimal', last', hover⟩
  · have hstop := Lexeme.not_isNumberPart_of_numberLength hexadecimal last ws
    have hsum := width_take_add_drop ws (Lexeme.numberLength hexadecimal last ws)
    rw [Resumes, hsame]
    generalize Lexeme.numberLength hexadecimal last ws = n at *
    rw [List.take_append_of_le_length (Nat.le_of_lt hlt), List.drop_append_of_le_length (Nat.le_of_lt hlt)]
    intro hbehind after column
    have hparts : ∀ g ∈ ws.drop n, Lexeme.isWordPart g.char = true :=
      fun g hg => hws g (List.mem_of_mem_drop hg)
    cases hrest : ws.drop n with
    | nil =>
      rw [List.drop_eq_nil_iff] at hrest
      omega
    | cons w more =>
      rw [hrest] at hparts hstop hsum
      obtain ⟨hw, hmore⟩ := List.forall_mem_cons.1 hparts
      have hstart := Lexeme.isWordStart_of_isWordPart hw (hstop w rfl)
      have hlength : Lexeme.wordLength (more ++ ns) = more.length :=
        Lexeme.wordLength_append hmore hhead
      have hend : offset + width (ws.take n) + width (w :: more) = offset + width ws := by omega
      have hread : Lexeme.read v after w (more ++ ns) = _ := Lexeme.read_of_isWordStart hstart
      rw [hlength] at hread
      rw [List.cons_append]
      refine covers_token hread (fun _ => .inr (.inr hbehind)) fun _ => ?_
      rw [List.take_left, List.drop_left, hend]
      exact h
  · exact resumes_append (hover ns) (hresumes hexadecimal' last')

end Account

/-! ### Words that give way to phrases -/

/-- The account tells the identifiers of a phrase that is put in at the place, and what crosses its
ends. -/
structure Account.Takes (a : Account) (v : Vocabulary) (place : Nat) (vs : List Glyph) : Prop where
  passage : Passage v (fun text n => a.named text (place + width vs - n)) vs
  enters (start later : Nat) (hstart : start < place) (hlater : place < later) : a.crossed start later
  leaves (start later : Nat) (hstart : start < place + width vs) (hlater : place + width vs < later) :
    a.crossed start later

/-- The characters of a new text, from a place on, that come of those of the old one: the characters of a
token are kept, or if it is a word, those of a phrase are put in. -/
inductive Respells (a : Account) (v : Vocabulary) : Bool → List Glyph → Nat → List Glyph → Prop
  | nil {after : Bool} {place : Nat} : Respells a v after [] place []
  | separator {after : Bool} {g : Glyph} {gs ns : List Glyph} {place : Nat}
      (hg : Lexeme.isSeparator g.char = true)
      (h : Respells a v false gs (place + g.bytes.length) ns) :
      Respells a v after (g :: gs) place (g :: ns)
  | kept {after : Bool} {g : Glyph} {gs ns : List Glyph} {place : Nat} {l : Lexeme}
      (hread : Lexeme.read v after g gs = some l)
      (hname : l.kind = .identifier → a.kept (ofGlyphs (g :: gs.take l.extra)) place)
      (h : Respells a v l.kind.isValue (gs.drop l.extra) (place + width (g :: gs.take l.extra)) ns) :
      Respells a v after (g :: gs) place (g :: (gs.take l.extra ++ ns))
  | replaced {after : Bool} {g : Glyph} {gs vs ns : List Glyph} {place : Nat}
      (hstart : Lexeme.isWordStart g.char = true) (htakes : a.Takes v place vs)
      (h : Respells a v (v.classify (ofGlyphs (g :: gs.take (Lexeme.wordLength gs)))).isValue
        (gs.drop (Lexeme.wordLength gs)) (place + width vs) ns) :
      Respells a v after (g :: gs) place (vs ++ ns)

namespace Respells

variable {a : Account} {v : Vocabulary} {after : Bool} {gs ns : List Glyph} {place : Nat}

/-- The new characters go on as the old ones did, or with a phrase that was put in for a word. -/
theorem head?_cases (h : Respells a v after gs place ns) :
    ns.head? = gs.head? ∨ (∃ g ∈ gs.head?, Lexeme.isWordStart g.char = true) ∧
      ∀ start stop, start < place → place < stop → a.crossed start stop := by
  cases h with
  | nil => exact .inl rfl
  | separator _ _ => exact .inl rfl
  | kept _ _ _ => exact .inl rfl
  | replaced hstart htakes _ => exact .inr ⟨⟨_, rfl, hstart⟩, htakes.enters⟩

theorem eq_nil (h : Respells a v after [] place ns) : ns = [] := by
  cases h
  rfl

theorem not_isWordPart (h : Respells a v after gs place ns)
    (hgs : ∀ g ∈ gs.head?, Lexeme.isWordPart g.char = false) :
    ∀ g ∈ ns.head?, Lexeme.isWordPart g.char = false := by
  rcases h.head?_cases with hsame | ⟨⟨g, hg, hstart⟩, -⟩
  · rwa [hsame]
  · have hpart := hgs g hg
    rw [Lexeme.isWordPart_of_isWordStart hstart] at hpart
    cases hpart

/-- The new characters are read again wherever the old ones are. -/
theorem legible (h : Respells a v after gs place ns) (front : List Glyph) (hgs : Legible (front ++ gs)) :
    Legible (front ++ ns) := by
  induction h generalizing front with
  | nil => exact hgs
  | @separator after g gs ns place _ _ ih =>
    have hnext := ih (front ++ [g]) (by simpa using hgs)
    simpa using hnext
  | @kept after g gs ns place l _ _ _ ih =>
    have hnext := ih (front ++ g :: gs.take l.extra) (by simpa using hgs)
    simpa using hnext
  | @replaced after g gs vs ns place _ htakes _ ih =>
    have hrest : Legible (gs.drop (Lexeme.wordLength gs)) := by
      have hsplit : front ++ g :: gs
          = (front ++ g :: gs.take (Lexeme.wordLength gs)) ++ gs.drop (Lexeme.wordLength gs) := by simp
      rw [hsplit] at hgs
      exact hgs.right
    obtain ⟨-, hne, hlegible, hhead, hlast⟩ := htakes.passage
    have hvs : Legible (front ++ vs) := hgs.left.append_of_head hlegible fun x hx => (hhead x hx).2
    have hend : ∀ x ∈ (front ++ vs).getLast?, x.char ≠ replacement := by
      rw [List.getLast?_append_of_ne_nil _ hne]
      exact fun x hx => (hlast x hx).2
    have hnext := ih (front ++ vs) (hvs.append_of_getLast hrest hend)
    rwa [List.append_assoc] at hnext

end Respells

/-- What is true of new characters that come of old ones. -/
structure Carries (a : Account) (v : Vocabulary) (line : SourceLine) (gs : List Glyph) (place : Nat)
    (ns : List Glyph) : Prop where
  holds : a.Holds v line place ns
  /-- No sign continues a number with a hexadecimal prefix, so none such comes to a digit of the old
  characters. -/
  resumes (hexadecimal : Bool) (last : Char)
    (hdigit : ∀ g ∈ gs.head?, isDecimalDigit g.char = true → hexadecimal = false) :
    a.Resumes v line place hexadecimal last ns
  /-- A sign may come in before a numeral. -/
  numeral (d : Glyph) (rest : List Glyph) (hns : ns = d :: rest) (hd : isDecimalDigit d.char = true)
    (start : Nat) (hstart : start ≤ place) : a.Numeral v line start place d rest

namespace Carries

variable {a : Account} {v : Vocabulary} {line : SourceLine} {after : Bool} {g : Glyph}
  {gs ns olds : List Glyph} {place : Nat}

theorem nil : Carries a v line [] place [] where
  holds := Account.holds_nil
  resumes _ _ _ := Account.resumes_of_zero Account.holds_nil rfl
  numeral _ _ hns := by cases hns

/-- No digit, so a number may come to the characters in any way. -/
theorem resumes_of_head (h : Carries a v line gs place ns)
    (hhead : ∀ g ∈ gs.head?, isDecimalDigit g.char = false) (hexadecimal : Bool) (last : Char) :
    a.Resumes v line place hexadecimal last ns :=
  h.resumes hexadecimal last fun g hg hdigit => absurd hdigit (Bool.eq_false_iff.1 (hhead g hg))

/-- Characters that a number may come to in any way. -/
theorem of_nil (h : Carries a v line [] place ns) : Carries a v line gs place ns where
  holds := h.holds
  resumes hexadecimal last _ := h.resumes hexadecimal last (by simp)
  numeral := h.numeral

theorem not_continues_separator {c : Char} (h : Lexeme.isSeparator c = true) :
    Lexeme.isNumberPart c = false ∧ Lexeme.isSign c = false ∧ isDecimalDigit c = false := by
  simp only [Lexeme.isSeparator, Bool.or_eq_true, beq_iff_eq] at h
  rcases h with ((rfl | rfl) | rfl) | rfl <;> decide

theorem separator (hg : Lexeme.isSeparator g.char = true)
    (h : Carries a v line olds (place + g.bytes.length) ns) : Carries a v line gs place (g :: ns) := by
  obtain ⟨hpart, hsign, hdigit⟩ := not_continues_separator hg
  have hholds := Account.holds_separator hg h.holds
  refine ⟨hholds, fun _ _ _ => ?_, ?_⟩
  · exact Account.resumes_of_zero hholds (Lexeme.numberLength_eq_zero ns hpart hsign)
  · rintro d rest ⟨⟩ hd
    rw [hdigit] at hd
    cases hd

theorem sign (hsign : Lexeme.isSign g.char = true)
    (h : Carries a v line olds (place + g.bytes.length) ns) : Carries a v line gs place (g :: ns) := by
  have hdigit : isDecimalDigit g.char = false := by
    simp only [Lexeme.isSign, Bool.or_eq_true, beq_iff_eq] at hsign
    rcases hsign with hc | hc <;> rw [hc] <;> decide
  have hholds := Account.holds_sign hsign h.holds fun d rest hns hd =>
    h.numeral d rest hns hd place (Nat.le_add_right ..)
  refine ⟨hholds, fun _ _ _ => ?_, ?_⟩
  · exact Account.resumes_sign hsign hholds (h.resumes false g.char fun _ _ _ => rfl)
  · rintro d rest ⟨⟩ hd
    rw [hdigit] at hd
    cases hd

theorem digit (hg : isDecimalDigit g.char = true)
    (h : ∀ start ≤ place, a.Numeral v line start place g ns) :
    Carries a v line (g :: gs) place (g :: ns) := by
  have hnumeral := h place (Nat.le_refl _)
  refine ⟨Account.holds_numeral hg hnumeral, fun hexadecimal last hlast => ?_, ?_⟩
  · rw [hlast g rfl hg]
    exact Account.resumes_numeral hg hnumeral
  · rintro d rest ⟨⟩ - start hstart
    exact h start hstart

/-- Behind a number that is kept the account goes on, also if the number does. -/
theorem numeral_of_kept {d : Glyph} {start offset : Nat} (hstart : start ≤ offset)
    (hbytes : ∀ x ∈ d :: ns, x.bytes ≠ [])
    (hplace : place = offset + width (d :: gs.take (Lexeme.numberLength false d.char gs)))
    (hrespells : Respells a v after (gs.drop (Lexeme.numberLength false d.char gs)) place ns)
    (h : Carries a v line (gs.drop (Lexeme.numberLength false d.char gs)) place ns) :
    a.Numeral v line start offset d (gs.take (Lexeme.numberLength false d.char gs) ++ ns) := by
  have hstop := Lexeme.not_isNumberPart_of_numberLength false d.char gs
  have hle := Lexeme.numberLength_le false d.char gs
  obtain ⟨hexadecimal, last, hmore⟩ := Lexeme.numberLength_take_append false d.char gs
  obtain ⟨hd, hbytes⟩ := List.forall_mem_cons.1 hbytes
  have hpos : 0 < d.bytes.length := List.length_pos_iff.2 hd
  generalize hn : Lexeme.numberLength false d.char gs = n at *
  have hlength : (gs.take n).length = n := List.length_take_of_le hle
  have hzero : Lexeme.numberLength hexadecimal last (gs.drop n) = 0 := by
    have hall := hmore (gs.drop n)
    rw [List.take_append_drop, hn] at hall
    omega
  have htake (m : Nat) : (gs.take n ++ ns).take (n + m) = gs.take n ++ ns.take m := by
    rw [List.take_append, List.take_of_length_le (by omega), hlength, Nat.add_sub_cancel_left]
  have hdrop (m : Nat) : (gs.take n ++ ns).drop (n + m) = ns.drop m := by
    rw [List.drop_append, List.drop_eq_nil_of_le (by omega), hlength, Nat.add_sub_cancel_left,
      List.nil_append]
  have hend (m : Nat) : offset + width (d :: (gs.take n ++ ns.take m)) = place + width (ns.take m) := by
    rw [hplace, width_cons, width_cons, width_append]
    omega
  rw [Account.Numeral, hmore ns]
  simp only [htake, hdrop, hend]
  intro hbehind
  rcases hrespells.head?_cases with hsame | ⟨-, hcrossed⟩
  · rw [Lexeme.numberLength_eq_zero_of_head? hsame.symm hzero]
    simpa using h.holds
  · by_cases hsync : Lexeme.numberLength hexadecimal last ns = 0
    · rw [hsync]
      simpa using h.holds
    · have hlt : start < place := by
        rw [hplace, width_cons]
        omega
      have hlonger := width_take_pos hbytes hsync (Lexeme.numberLength_le hexadecimal last ns)
      exact h.resumes_of_head
        (fun g hg => Lexeme.not_isDecimalDigit_of_not_isNumberPart (hstop g hg)) hexadecimal last
        (hbehind (hcrossed _ _ hlt (Nat.lt_add_of_pos_right hlonger)))

section Lexeme

variable {l : Lexeme} (hread : Lexeme.read v after g gs = some l)
include hread

theorem take_drop_kept : (gs.take l.extra ++ ns).take l.extra = gs.take l.extra ∧
    (gs.take l.extra ++ ns).drop l.extra = ns := by
  have hlength : (gs.take l.extra).length = l.extra :=
    List.length_take_of_le (Lexeme.extra_le_of_read hread)
  exact ⟨List.take_left' hlength, List.drop_left' hlength⟩

/-- A lexeme that is neither a number nor a sign is read as before. -/
theorem plain (hsign : Lexeme.isSign g.char = false) (hdigit : isDecimalDigit g.char = false)
    (hend : l.kind = .comment ∨ l.kind = .error → gs.drop l.extra = [] → ns = [])
    (hword : (∀ x ∈ (gs.drop l.extra).head?, Lexeme.isWordPart x.char = false) →
      ∀ x ∈ ns.head?, Lexeme.isWordPart x.char = false)
    (hname : l.kind = .identifier → a.kept (ofGlyphs (g :: gs.take l.extra)) place ∨
      a.named (ofGlyphs (g :: gs.take l.extra)) place)
    (h : Carries a v line (gs.drop l.extra) (place + width (g :: gs.take l.extra)) ns) :
    Carries a v line olds place (g :: (gs.take l.extra ++ ns)) := by
  have hholds : a.Holds v line place (g :: (gs.take l.extra ++ ns)) := by
    intro after' column
    refine Account.covers_token (Lexeme.read_take_append hread hsign hdigit hend hword after')
      (fun hkind => ?_) ?_
    · rw [(take_drop_kept hread).1, ← or_assoc]
      exact .inl (hname hkind)
    · rw [(take_drop_kept hread).1, (take_drop_kept hread).2]
      exact fun _ => h.holds
  refine ⟨hholds, fun hexadecimal last _ => ?_, ?_⟩
  · by_cases hstart : Lexeme.isWordStart g.char = true
    · obtain rfl := Option.some_inj.1 (hread.symm.trans (Lexeme.read_of_isWordStart hstart))
      have hbehind : ∀ x ∈ (gs.drop (Lexeme.wordLength gs)).head?, Lexeme.isWordPart x.char = false :=
        Lexeme.not_part_of_wordLength gs
      rw [← List.cons_append]
      refine Account.resumes_word (List.forall_mem_cons.2 ⟨Lexeme.isWordPart_of_isWordStart hstart,
        fun x hx => Lexeme.isWordPart_of_mem_take_wordLength hx⟩) (hword hbehind) h.holds
        (h.resumes_of_head fun x hx => ?_) hexadecimal last
      exact Lexeme.not_isDecimalDigit_of_not_isWordPart (hbehind x hx)
    · refine Account.resumes_of_zero hholds (Lexeme.numberLength_eq_zero _ ?_ hsign)
      exact Bool.eq_false_iff.2 fun hpart => hstart (Lexeme.isWordStart_of_isNumberPart hpart hdigit)
  · rintro d rest ⟨⟩ hd
    rw [hdigit] at hd
    cases hd

theorem kept (hbytes : ∀ x ∈ g :: (gs.take l.extra ++ ns), x.bytes ≠ [])
    (hname : l.kind = .identifier → a.kept (ofGlyphs (g :: gs.take l.extra)) place)
    (hrespells : Respells a v l.kind.isValue (gs.drop l.extra) (place + width (g :: gs.take l.extra)) ns)
    (h : Carries a v line (gs.drop l.extra) (place + width (g :: gs.take l.extra)) ns) :
    Carries a v line (g :: gs) place (g :: (gs.take l.extra ++ ns)) := by
  have hrest : ∀ x ∈ ns, x.bytes ≠ [] :=
    fun x hx => hbytes x (List.mem_cons_of_mem _ (List.mem_append_right _ hx))
  obtain ⟨hg, hbytes⟩ := List.forall_mem_cons.1 hbytes
  by_cases hdigit : isDecimalDigit g.char = true
  · obtain rfl := Option.some_inj.1 (hread.symm.trans (Lexeme.read_of_isDecimalDigit gs hdigit))
    rw [Lexeme.extra_number] at hrespells h ⊢
    exact digit hdigit fun start hstart =>
      numeral_of_kept hstart (List.forall_mem_cons.2 ⟨hg, hrest⟩) rfl hrespells h
  by_cases hsign : Lexeme.isSign g.char = true
  · rw [width_cons, ← Nat.add_assoc] at hrespells h
    rcases Lexeme.cases_of_isSign hsign hread with ⟨-, d, more, rfl, hd, rfl⟩ | rfl
    · rw [Lexeme.extra_number, List.take_succ_cons] at hbytes hrespells h ⊢
      rw [List.drop_succ_cons] at hrespells h
      rw [List.cons_append] at hbytes ⊢
      have hnumber : Carries a v line (d :: more) (place + g.bytes.length) (d :: _) :=
        digit hd fun start hstart => numeral_of_kept hstart
          (List.forall_mem_cons.2 ⟨(List.forall_mem_cons.1 hbytes).1, hrest⟩) rfl hrespells h
      exact sign hsign hnumber
    · exact sign hsign h
  · refine plain hread (Bool.eq_false_iff.2 hsign) (Bool.eq_false_iff.2 hdigit) (fun _ hend => ?_)
      hrespells.not_isWordPart (fun hkind => .inl (hname hkind)) h
    rw [hend] at hrespells
    exact hrespells.eq_nil

end Lexeme

/-! ### Phrases that are put in -/

/-- What an account must know to go on behind a phrase that ends at the place. -/
structure Follows (a : Account) (v : Vocabulary) (line : SourceLine) (stop : Nat) (ns : List Glyph) :
    Prop where
  head : ∀ x ∈ ns.head?, Lexeme.isWordPart x.char = false
  leaves (start later : Nat) (hstart : start < stop) (hlater : stop < later) : a.crossed start later
  holds : a.Holds v line stop ns
  resumes (hexadecimal : Bool) (last : Char) : a.Resumes v line stop hexadecimal last ns

/-- A number of a phrase, which one from before may come to: that ends with it, or in front of a sign in
it, or goes on with it over the end of the phrase. -/
theorem number_of_phrase {named : Text → Nat → Prop} (hg : isDecimalDigit g.char = true)
    (hlead : Lexeme.SignsLead (gs.take (Lexeme.numberLength false g.char gs)))
    (hrest : Phrase v named (gs.drop (Lexeme.numberLength false g.char gs)))
    (hnumeral : ∀ start ≤ place, a.Numeral v line start place g (gs ++ ns))
    (hbehind : ∀ k, Phrase v named (gs.drop k) →
      Carries a v line [] (place + width (g :: gs.take k)) (gs.drop k ++ ns)) :
    Carries a v line [] place (g :: (gs ++ ns)) := by
  refine ⟨Account.holds_numeral hg (hnumeral place (Nat.le_refl _)), fun hexadecimal last _ => ?_, ?_⟩
  · have hflag : false = true → hexadecimal = true := nofun
    rcases Lexeme.numberLength_of_flag hflag g.char gs with
      ⟨j, s, rest, hexadecimal', last', hdrop, hs, hne, hsum, hstop⟩ | ⟨hexadecimal', last', hover⟩
    · -- The number ends in front of a sign.
      have hlength : Lexeme.numberLength hexadecimal last (g :: (gs ++ ns)) = j + 1 := by
        have hall := hstop (gs.drop (Lexeme.numberLength false g.char gs) ++ ns)
        rw [← List.append_assoc, List.take_append_drop] at hall
        rw [Lexeme.numberLength_digit _ hg, hall]
      have hle : j ≤ gs.length := by
        have hle := Lexeme.numberLength_le false g.char gs
        omega
      rw [Account.Resumes, hlength, List.take_succ_cons, List.drop_succ_cons,
        List.take_append_of_le_length hle, List.drop_append_of_le_length hle]
      refine fun _ => (hbehind j ?_).holds
      rw [hdrop]
      exact Phrase.of_sign hlead hrest hdrop hs hne hsum
    · have hsplit : g :: (gs ++ ns) = (g :: gs.take (Lexeme.numberLength false g.char gs))
          ++ (gs.drop (Lexeme.numberLength false g.char gs) ++ ns) := by
        rw [List.cons_append, ← List.append_assoc, List.take_append_drop]
      rw [hsplit]
      refine Account.resumes_append ?_ ((hbehind _ hrest).resumes hexadecimal' last' (by simp))
      rw [List.cons_append, Lexeme.numberLength_digit _ hg, hover, List.length_cons,
        List.length_take_of_le (Lexeme.numberLength_le ..)]
      omega
  · rintro d rest ⟨⟩ - start hstart
    exact hnumeral start hstart

section

variable {stop : Nat} (hfollows : Follows a v line stop ns)
include hfollows

/-- Behind a number of a phrase the account goes on, also if the number leaves the phrase. -/
theorem numeral_of_phrase {start : Nat} (hbytes : ∀ x ∈ g :: gs, x.bytes ≠ []) (hns : ∀ x ∈ ns, x.bytes ≠ [])
    (hplace : place + width (g :: gs) = stop) (hstart : start ≤ place)
    (h : Carries a v line [] (place + width (g :: gs.take (Lexeme.numberLength false g.char gs)))
      (gs.drop (Lexeme.numberLength false g.char gs) ++ ns)) :
    a.Numeral v line start place g (gs ++ ns) := by
  have hpos : 0 < g.bytes.length := List.length_pos_iff.2 (hbytes g (List.mem_cons_self ..))
  rcases Lexeme.numberLength_append false g.char gs with ⟨hlt, hsame⟩ | ⟨hexadecimal, last, hover⟩
  · rw [Account.Numeral, hsame, List.take_append_of_le_length (Nat.le_of_lt hlt),
      List.drop_append_of_le_length (Nat.le_of_lt hlt)]
    exact fun _ => h.holds
  · rw [Account.Numeral, hover, List.take_length_add_append, List.drop_length_add_append,
      ← List.cons_append, width_append, ← Nat.add_assoc, hplace]
    intro hbehind
    by_cases hzero : Lexeme.numberLength hexadecimal last ns = 0
    · rw [hzero]
      simpa using hfollows.holds
    · have hlonger := width_take_pos hns hzero (Lexeme.numberLength_le hexadecimal last ns)
      have hlt : start < stop := by
        rw [← hplace, width_cons]
        omega
      exact hfollows.resumes hexadecimal last
        (hbehind (hfollows.leaves _ _ hlt (Nat.lt_add_of_pos_right hlonger)))

/-- Numbers may come into a phrase and go out of it. -/
theorem of_phrase {vs : List Glyph} (h : Phrase v (fun text n => a.named text (stop - n)) vs)
    (hbytes : ∀ x ∈ vs, x.bytes ≠ []) (hns : ∀ x ∈ ns, x.bytes ≠ []) (hplace : place + width vs = stop) :
    Carries a v line [] place (vs ++ ns) := by
  induction hn : vs.length using Nat.strongRecOn generalizing vs place with
  | ind n ih =>
    cases vs with
    | nil =>
      obtain rfl : place = stop := hplace
      refine ⟨hfollows.holds, fun hexadecimal last _ => hfollows.resumes hexadecimal last, ?_⟩
      rintro d rest rfl hd
      have hno := Lexeme.not_isDecimalDigit_of_not_isWordPart (hfollows.head d rfl)
      exact absurd hd (Bool.eq_false_iff.1 hno)
    | cons g gs =>
      have hbehind (k : Nat) (h : Phrase v (fun text n => a.named text (stop - n)) (gs.drop k)) :
          Carries a v line [] (place + width (g :: gs.take k)) (gs.drop k ++ ns) := by
        refine ih _ ?_ h (fun x hx => hbytes x (List.mem_cons_of_mem _ (List.mem_of_mem_drop hx))) ?_ rfl
        · rw [← hn, List.length_cons, List.length_drop]
          omega
        · have hsum := width_take_add_drop gs k
          rw [width_cons] at hplace ⊢
          omega
      have htail (h : Phrase v (fun text n => a.named text (stop - n)) gs) :
          Carries a v line [] (place + g.bytes.length) (gs ++ ns) := by
        simpa using hbehind 0 h
      rw [List.cons_append]
      cases h with
      | separator hg h => exact separator hg (htail h)
      | sign hg h => exact sign hg (htail h)
      | other hread hsign hdigit hkind hname h =>
        rename_i after l
        have hsplit : gs ++ ns = gs.take l.extra ++ (gs.drop l.extra ++ ns) := by
          rw [← List.append_assoc, List.take_append_drop]
        have hnext : Carries a v line (gs.drop l.extra) _ _ := (hbehind l.extra h).of_nil
        rw [hsplit]
        refine plain hread hsign hdigit (fun hend => absurd hend (not_or.2 hkind)) (fun hword x hx => ?_)
          (fun hidentifier => .inr ?_) hnext
        · rw [List.head?_append] at hx
          cases hrest : gs.drop l.extra with
          | nil =>
            rw [hrest] at hx
            exact hfollows.head x hx
          | cons y more =>
            rw [hrest] at hx hword
            exact hword x hx
        · rw [← hplace, Nat.add_sub_cancel] at hname
          exact hname hidentifier
      | number hg hlead h =>
        refine number_of_phrase hg hlead h (fun start hstart => ?_) hbehind
        exact numeral_of_phrase hfollows hbytes hns hplace hstart (hbehind _ h)

end

end Carries

/-- New characters carry an account of the identifiers that are read from them. -/
theorem carries_of_respells {a : Account} {v : Vocabulary} {line : SourceLine} {after : Bool}
    {gs ns : List Glyph} {place : Nat} (h : Respells a v after gs place ns)
    (hbytes : ∀ x ∈ ns, x.bytes ≠ []) : Carries a v line gs place ns := by
  induction h with
  | nil => exact .nil
  | separator hg _ ih => exact (ih (List.forall_mem_cons.1 hbytes).2).separator hg
  | kept hread hname h ih =>
    refine .kept hread hbytes hname h (ih fun x hx => hbytes x ?_)
    exact List.mem_cons_of_mem _ (List.mem_append_right _ hx)
  | @replaced after g gs vs ns place hstart htakes h ih =>
    have hns : ∀ x ∈ ns, x.bytes ≠ [] := fun x hx => hbytes x (List.mem_append_right _ hx)
    have hbehind : ∀ x ∈ (gs.drop (Lexeme.wordLength gs)).head?, Lexeme.isWordPart x.char = false :=
      Lexeme.not_part_of_wordLength gs
    have hfollows : Carries.Follows a v line (place + width vs) ns := by
      refine ⟨h.not_isWordPart hbehind, htakes.leaves, (ih hns).holds,
        (ih hns).resumes_of_head fun x hx => ?_⟩
      exact Lexeme.not_isDecimalDigit_of_not_isWordPart (hbehind x hx)
    exact (Carries.of_phrase hfollows htakes.passage.phrase
      (fun x hx => hbytes x (List.mem_append_left _ hx)) hns rfl).of_nil

end Rv32Assembler
