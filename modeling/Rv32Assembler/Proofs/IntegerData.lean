import Rv32Assembler.Proofs.Alignment
import Rv32Assembler.Proofs.Emission
import Rv32Assembler.Proofs.Lexing
import Rv32Assembler.Proofs.Truncation
/-!
# Integer data

An operand list of an integer directive that is made of literals, each with a sign and a count or
without, is read back as just these items (`readAll_tokens`), and each of them emits its bytes as often as
it says, after a warning if its value is too wide (`storeInteger_item`). So the whole directive emits one
run of bytes from the aligned cursor on (`execute_integers`). Whatever a line has that is read as
integers is made of such literals (`exists_of_tokenizeText`).
-/

namespace Rv32Assembler

open Text

/-! ### Values of integers -/

namespace Literal

theorem bounds_wrap64 (n : Int) : -2 ^ 63 ≤ wrap64 n ∧ wrap64 n < 2 ^ 63 := by
  have hlow := @Int.le_bmod n (1 <<< 64) (by decide)
  have hhigh := @Int.bmod_lt n (1 <<< 64) (by decide)
  exact ⟨Int.le_trans (by decide) hlow, Int.lt_of_lt_of_le hhigh (by decide)⟩

theorem bounds_of_integer {s : Text} {v : Int} (h : integer s = .ok v) : -2 ^ 63 ≤ v ∧ v < 2 ^ 63 := by
  unfold integer at h
  split at h
  · cases h
  · simp only at h
    split at h
    · cases h
    · split at h
      · cases h
      · cases h
        exact bounds_wrap64 _

theorem bounds_of_character {s : Text} {v : Int} (h : character s = .ok v) :
    -2 ^ 63 ≤ v ∧ v < 2 ^ 63 := by
  unfold character at h
  split at h
  · cases h
  · split at h
    · rename_i g _
      cases h
      have hcode : g.char.toNat < 0x110000 := by
        have hvalid : g.char.toNat.isValidChar := g.char.valid
        rcases hvalid with hvalid | hvalid <;> omega
      omega
    · cases h

end Literal

namespace Lexeme

/-- The value of an integer is a signed 64-bit number. -/
def InRange (l : Lexeme) : Prop := l.kind.isInteger = true → -2 ^ 63 ≤ l.value ∧ l.value < 2 ^ 63

theorem inRange_of_plain {l : Lexeme} (h : l.kind.isInteger = false) : l.InRange := by
  intro hinteger
  rw [h] at hinteger
  cases hinteger

theorem inRange_number (text : Text) (extra : Nat) : (number text extra).InRange := by
  unfold number
  split
  · split
    · exact inRange_of_plain rfl
    · exact inRange_of_plain rfl
  · split
    · rename_i v hv
      exact fun _ => Literal.bounds_of_integer hv
    · exact inRange_of_plain rfl

theorem inRange_sign (g : Glyph) :
    ({ kind := if g.char == '-' then .minus else .plus, extra := 0 } : Lexeme).InRange := by
  cases g.char == '-' <;> exact inRange_of_plain rfl

theorem inRange_signed (g : Glyph) (rest : List Glyph) : (signed g rest).InRange := by
  cases rest with
  | nil => exact inRange_sign g
  | cons d more =>
    by_cases hdigit : isDecimalDigit d.char = true
    · simp only [signed, hdigit, if_true]
      exact inRange_number _ _
    · simp only [signed, hdigit, if_false, Bool.false_eq_true]
      exact inRange_sign g

theorem inRange_of_read {v : Vocabulary} {after : Bool} {g : Glyph} {rest : List Glyph} {l : Lexeme}
    (h : read v after g rest = some l) : l.InRange := by
  revert h
  fun_cases read v after g rest with
  | case1 =>
    rintro ⟨⟩
  | case3 =>
    rintro ⟨⟩
    unfold quoted
    split <;> exact inRange_of_plain rfl
  | case4 =>
    rintro ⟨⟩
    unfold character
    split
    · split
      · rename_i v hv
        exact fun _ => Literal.bounds_of_character hv
      · exact inRange_of_plain rfl
    · exact inRange_of_plain rfl
  | case5 =>
    rintro ⟨⟩
    split <;> exact inRange_of_plain rfl
  | case6 =>
    rintro ⟨⟩
    exact inRange_number _ _
  | case7 =>
    rintro ⟨⟩
    exact inRange_sign g
  | case8 =>
    rintro ⟨⟩
    exact inRange_signed g rest
  | case9 =>
    rintro ⟨⟩
    exact inRange_of_plain (v.isInteger_classify _)
  | case2 | case10 | case11 | case12 | case13 =>
    rintro ⟨⟩
    exact inRange_of_plain rfl

end Lexeme

namespace Vocabulary

theorem bounds_of_mem_scan {v : Vocabulary} {line : SourceLine} {after : Bool} {offset column : Nat}
    {gs : List Glyph} {p : Token × Option LexicalError}
    (hp : p ∈ v.scan line after offset column gs) (h : p.1.kind.isInteger = true) :
    -2 ^ 63 ≤ p.1.value ∧ p.1.value < 2 ^ 63 := by
  fun_induction Vocabulary.scan v line after offset column gs with
  | case1 => cases hp
  | case2 after offset column g rest hread ih => exact ih hp
  | case3 after offset column g rest lexeme hread text token ih =>
    rcases List.mem_cons.1 hp with rfl | hp
    · exact Lexeme.inRange_of_read hread h
    · exact ih hp

/-- An integer token of a line has a value of 64 bits. -/
theorem bounds_of_mem_tokenizeText {v : Vocabulary} {text : Text} {line : SourceLine} {t : Token}
    (ht : t ∈ (v.tokenizeText text line).1.tokens) (h : t.kind.isInteger = true) :
    -2 ^ 63 ≤ t.value ∧ t.value < 2 ^ 63 := by
  obtain ⟨p, hp, rfl⟩ := List.mem_map.1 ht
  exact bounds_of_mem_scan hp h

end Vocabulary

/-! ### Items -/

/-- One literal of an integer directive as it is written, perhaps with a sign before it and a colon and a
count behind it. -/
structure IntegerItem where
  sign : Option Token := none
  literal : Token
  count : Option (Token × Token) := none
  isSign : ∀ t ∈ sign, t.kind = .plus ∨ t.kind = .minus := by simp
  isInteger : literal.kind.isInteger = true
  /-- The value of an integer token is a signed 64-bit number. -/
  inRange : -2 ^ 63 ≤ literal.value ∧ literal.value < 2 ^ 63
  isCount : ∀ p ∈ count, p.1.kind = .colon ∧ p.2.kind.isInteger = true ∧ 0 < p.2.value := by simp

namespace IntegerItem

def tokens (i : IntegerItem) : List Token :=
  i.sign.toList ++ i.literal :: i.count.elim [] fun p => [p.1, p.2]

def isNegated (i : IntegerItem) : Bool := i.sign.any fun t => t.kind == .minus

def value (i : IntegerItem) : Int := if i.isNegated then -i.literal.value else i.literal.value

def copies (i : IntegerItem) : Nat := i.count.elim 1 fun p => p.2.value.toNat

/-- The bytes of the item in a directive for values of `width` bytes. -/
def bytes (width : Nat) (i : IntegerItem) : List UInt8 :=
  (List.replicate i.copies (littleEndian width i.value)).flatten

/-- The value is a signed or an unsigned number of `width` bytes; eight bytes hold any value. -/
def Fits (width : Nat) (i : IntegerItem) : Prop :=
  width = 8 ∨ -2 ^ (8 * width - 1) ≤ i.value ∧ i.value < 2 ^ (8 * width)

instance (width : Nat) (i : IntegerItem) : Decidable (i.Fits width) :=
  inferInstanceAs (Decidable (_ ∨ _))

/-- What is said about a value that does not fit. -/
def warning (note : Text) (width : Nat) (i : IntegerItem) : Message :=
  (Problem.truncated i.value (i.value % 2 ^ (8 * width))).about i.literal note

/-- The messages about the items, one for each that does not fit. -/
def warnings (note : Text) (width : Nat) (items : List IntegerItem) : List Message :=
  (items.filter fun i => ¬ i.Fits width).map (warning note width)

theorem length_bytes (width : Nat) (i : IntegerItem) : (i.bytes width).length = width * i.copies := by
  simp [bytes, Nat.mul_comm]

theorem length_flatMap_bytes (width : Nat) (items : List IntegerItem) :
    (items.flatMap (bytes width)).length = width * (items.map copies).sum := by
  induction items with
  | nil => rfl
  | cons i items ih =>
    rw [List.flatMap_cons, List.length_append, ih, length_bytes, List.map_cons, List.sum_cons,
      Nat.mul_add]

/-! ### Reading the operands -/

/-- The item as the first pass reads it. -/
def item (i : IntegerItem) : DataItem := ⟨i.isNegated, i.literal, i.copies⟩

theorem ne_sign_of_isInteger {k : Kind} (h : k.isInteger = true) :
    (k == .minus || k == .plus) = false ∧ k ≠ .colon := by
  revert h
  cases k <;> decide

theorem ne_colon_of_head? {items : List IntegerItem} {t : Token}
    (h : t ∈ (items.flatMap tokens).head?) : t.kind ≠ .colon := by
  cases items with
  | nil => simp at h
  | cons i items =>
    cases hsign : i.sign with
    | none =>
      simp only [List.flatMap_cons, tokens, hsign, Option.toList_none, List.nil_append, List.cons_append,
        List.head?_cons, Option.mem_def, Option.some_inj] at h
      exact h ▸ (ne_sign_of_isInteger i.isInteger).2
    | some s =>
      simp only [List.flatMap_cons, tokens, hsign, Option.toList_some, List.cons_append, List.nil_append,
        List.head?_cons, Option.mem_def, Option.some_inj] at h
      rcases i.isSign s hsign with hkind | hkind <;> simp [← h, hkind]

theorem readCount_of_item (i : IntegerItem) {rest : List Token}
    (hrest : ∀ t ∈ rest.head?, t.kind ≠ .colon) :
    DataItem.readCount (i.count.elim [] (fun p => [p.1, p.2]) ++ rest)
      = .ok (i.copies, (i.count.elim [] fun p => [p.1, p.2]).length) := by
  cases hcount : i.count with
  | some p =>
    obtain ⟨hcolon, hinteger, hpos⟩ := i.isCount p hcount
    simp [DataItem.readCount, copies, hcount, hcolon, hinteger, hpos]
  | none =>
    rcases rest with _ | ⟨t, _ | ⟨t', rest⟩⟩
    · simp [DataItem.readCount, copies, hcount]
    · simp [DataItem.readCount, copies, hcount]
    · have hcolon : (t.kind == .colon) = false := by simpa using hrest t rfl
      simp [DataItem.readCount, copies, hcount, hcolon]

/-- The first item is read, and no more than its own tokens are used. -/
theorem read_of_item (i : IntegerItem) {rest : List Token} (hrest : ∀ t ∈ rest.head?, t.kind ≠ .colon) :
    ∃ t later, i.tokens ++ rest = t :: (later ++ rest) ∧
      DataItem.read t (later ++ rest) = .ok (i.item, later.length) := by
  have hcount := i.readCount_of_item hrest
  cases hsign : i.sign with
  | none =>
    refine ⟨i.literal, i.count.elim [] fun p => [p.1, p.2], by simp [tokens, hsign], ?_⟩
    simp [DataItem.read, DataItem.readValue, (ne_sign_of_isInteger i.isInteger).1, hcount, item,
      isNegated, hsign, bind, Except.bind, pure, Except.pure]
  | some s =>
    refine ⟨s, i.literal :: i.count.elim [] fun p => [p.1, p.2], by simp [tokens, hsign], ?_⟩
    have hkind : (s.kind == .minus || s.kind == .plus) = true := by
      rcases i.isSign s hsign with hkind | hkind <;> simp [hkind]
    simp [DataItem.read, DataItem.readValue, hkind, hcount, item, isNegated, hsign, bind, Except.bind,
      pure, Except.pure, Nat.add_comm]

/-- An operand list is read as the items that it is made of. -/
theorem readAll_tokens (items : List IntegerItem) :
    DataItem.readAll (items.flatMap tokens) = (items.map item, none) := by
  induction items with
  | nil => rw [List.flatMap_nil, DataItem.readAll, List.map_nil]
  | cons i items ih =>
    have hrest : ∀ t ∈ (items.flatMap tokens).head?, t.kind ≠ .colon := fun t ht => ne_colon_of_head? ht
    obtain ⟨t, later, htokens, hread⟩ := i.read_of_item hrest
    rw [List.flatMap_cons, htokens, DataItem.readAll, hread]
    simp only [List.drop_left, ih, List.map_cons]

theorem exists_of_readValue {t value : Token} {rest : List Token} {negated : Bool} {n : Nat}
    (h : DataItem.readValue t rest = .ok (negated, value, n)) :
    ∃ sign : Option Token, (∀ s ∈ sign, s.kind = .plus ∨ s.kind = .minus) ∧
      negated = sign.any (fun s => s.kind == .minus) ∧ t :: rest.take n = sign.toList ++ [value] := by
  unfold DataItem.readValue at h
  split at h
  · rename_i hsign
    simp only [Bool.or_eq_true, beq_iff_eq] at hsign
    split at h <;> cases h
    refine ⟨some t, ?_, rfl, rfl⟩
    rintro _ ⟨⟩
    exact hsign.symm
  · cases h
    exact ⟨none, by simp, rfl, rfl⟩

theorem exists_of_readCount {rest : List Token} {copies n : Nat}
    (h : DataItem.readCount rest = .ok (copies, n)) :
    ∃ count : Option (Token × Token),
      (∀ p ∈ count, p.1.kind = .colon ∧ p.2.kind.isInteger = true ∧ 0 < p.2.value) ∧
      copies = count.elim 1 (fun p => p.2.value.toNat) ∧
      rest.take n = count.elim [] fun p => [p.1, p.2] := by
  unfold DataItem.readCount at h
  split at h
  · rename_i colon count more
    split at h
    · rename_i hcolon
      split at h <;> cases h
      rename_i hcount
      rw [Bool.and_eq_true, decide_eq_true_eq] at hcount
      refine ⟨some (colon, count), ?_, rfl, rfl⟩
      rintro _ ⟨⟩
      exact ⟨eq_of_beq hcolon, hcount⟩
    · cases h
      exact ⟨none, by simp, rfl, rfl⟩
  · cases h
    exact ⟨none, by simp, rfl, rfl⟩

theorem exists_item_of_read {t : Token} {rest : List Token} {read : DataItem} {used : Nat}
    (hrange : ∀ x ∈ t :: rest, x.kind.isInteger = true → -2 ^ 63 ≤ x.value ∧ x.value < 2 ^ 63)
    (h : DataItem.read t rest = .ok (read, used)) (hinteger : read.token.kind.isInteger = true) :
    ∃ i : IntegerItem, read = i.item ∧ t :: rest.take used = i.tokens := by
  unfold DataItem.read at h
  cases hvalue : DataItem.readValue t rest with
  | error mistake => simp [hvalue, bind, Except.bind] at h
  | ok parts =>
    obtain ⟨negated, value, n⟩ := parts
    cases hcount : DataItem.readCount (rest.drop n) with
    | error mistake => simp [hvalue, hcount, bind, Except.bind] at h
    | ok parts =>
      obtain ⟨copies, more⟩ := parts
      simp only [hvalue, hcount, bind, Except.bind, pure, Except.pure] at h
      cases h
      obtain ⟨sign, hsign, hnegated, hfront⟩ := exists_of_readValue hvalue
      obtain ⟨count, hcount, hcopies, hbehind⟩ := exists_of_readCount hcount
      have htokens : t :: rest.take (n + more)
          = sign.toList ++ value :: count.elim [] fun p => [p.1, p.2] := by
        rw [List.take_add, ← List.cons_append, hfront, hbehind, List.append_assoc]
        rfl
      have hmem : value ∈ t :: rest := by
        refine (List.cons_subset_cons t (List.take_subset n rest)) ?_
        rw [hfront]
        exact List.mem_append_right _ (List.mem_singleton.2 rfl)
      refine ⟨⟨sign, value, count, hsign, hinteger, hrange value hmem hinteger, hcount⟩, ?_, htokens⟩
      rw [hnegated, hcopies]
      rfl

/-- Operands that are read as integers without a mistake are items. -/
theorem exists_of_readAll {ts : List Token} {read : List DataItem}
    (hrange : ∀ t ∈ ts, t.kind.isInteger = true → -2 ^ 63 ≤ t.value ∧ t.value < 2 ^ 63)
    (h : DataItem.readAll ts = (read, none))
    (hinteger : ∀ x ∈ read, x.token.kind.isInteger = true) :
    ∃ items : List IntegerItem, read = items.map item ∧ ts = items.flatMap tokens := by
  fun_induction DataItem.readAll ts generalizing read with
  | case1 =>
    cases h
    exact ⟨[], rfl, rfl⟩
  | case2 => cases h
  | case3 t rest first used hread reads mistake hreads ih =>
    cases h
    obtain ⟨hfirst, hlater⟩ := List.forall_mem_cons.1 hinteger
    obtain ⟨i, rfl, htokens⟩ := exists_item_of_read hrange hread hfirst
    obtain ⟨items, rfl, hrest⟩ :=
      ih (fun x hx => hrange x (List.mem_cons_of_mem _ (List.mem_of_mem_drop hx))) hreads hlater
    refine ⟨i :: items, rfl, ?_⟩
    rw [List.flatMap_cons, ← htokens, ← hrest, List.cons_append, List.take_append_drop]

/-- So the items are all that a line can say in integers. -/
theorem exists_of_tokenizeText {v : Vocabulary} {text : Text} {line : SourceLine} {ts : List Token}
    {read : List DataItem} (hts : ts ⊆ (v.tokenizeText text line).1.tokens)
    (h : DataItem.readAll ts = (read, none))
    (hinteger : ∀ x ∈ read, x.token.kind.isInteger = true) :
    ∃ items : List IntegerItem, read = items.map item ∧ ts = items.flatMap tokens :=
  exists_of_readAll (fun _ ht => v.bounds_of_mem_tokenizeText (hts ht)) h hinteger

/-! ### Storing the items -/

/-- The value as the first pass computes it, in 64 bits. -/
def wrapped (i : IntegerItem) : Int :=
  if i.item.negated then Literal.wrap64 (-i.item.token.value) else i.item.token.value

/-- Of the values in range, negating wraps only the least. -/
theorem wrapped_eq (i : IntegerItem) :
    i.wrapped = i.value ∨ i.wrapped = -2 ^ 63 ∧ i.value = 2 ^ 63 := by
  obtain ⟨hlow, hhigh⟩ := i.inRange
  unfold wrapped value item
  cases i.isNegated with
  | false => exact .inl rfl
  | true =>
    by_cases hleast : i.literal.value = -2 ^ 63
    · refine .inr ⟨?_, ?_⟩
      · simp only [if_true, hleast]
        decide
      · simp only [if_true, hleast]
        decide
    · refine .inl ?_
      change Literal.wrap64 (-i.literal.value) = _
      exact Literal.wrap64_eq_self (by omega) (by omega)

theorem emod_wrapped (i : IntegerItem) {width : Nat} (hsize : Reading.IsSize width) :
    i.wrapped % 2 ^ (8 * width) = i.value % 2 ^ (8 * width) := by
  rcases i.wrapped_eq with hsame | ⟨hwrapped, hvalue⟩
  · rw [hsame]
  · rw [hwrapped, hvalue]
    rcases hsize with rfl | rfl | rfl | rfl <;> decide

theorem fitsWidth_wrapped (i : IntegerItem) {width : Nat} (hsize : Reading.IsSize width) :
    fitsWidth i.wrapped width = true ↔ i.Fits width := by
  unfold fitsWidth Fits
  rcases i.wrapped_eq with hsame | ⟨hwrapped, hvalue⟩
  · rw [hsame]
    rcases hsize with rfl | rfl | rfl | rfl <;> simp [Nat.one_shiftLeft]
  · rw [hwrapped, hvalue]
    rcases hsize with rfl | rfl | rfl | rfl <;> decide

theorem pattern_wrapped (i : IntegerItem) : Problem.pattern i.wrapped = Problem.pattern i.value := by
  rcases i.wrapped_eq with hsame | ⟨hwrapped, hvalue⟩
  · rw [hsame]
  · have hbits : BitVec.ofInt 64 (-2 ^ 63) = BitVec.ofInt 64 (2 ^ 63) := by decide
    rw [hwrapped, hvalue, Problem.pattern, hbits, Problem.pattern]

theorem flatten_replicate (i : IntegerItem) {width : Nat} {v : Int}
    (h : v % 2 ^ (8 * width) = i.value % 2 ^ (8 * width)) :
    (List.replicate i.copies (littleEndian width v)).flatten = i.bytes width := by
  have hbase : (256 : Int) ^ width = 2 ^ (8 * width) := by
    rw [pow_mul]
    norm_num
  rw [bytes, littleEndian_congr (u := i.value)]
  rwa [hbase]

end IntegerItem

namespace Log

theorem messages_addAll_of_warnings {ms : List Message} (h : ∀ m ∈ ms, m.warning = true) (l : Log) :
    (l.addAll ms).messages = l.messages ++ (if l.exceeded then [] else ms) := by
  induction ms generalizing l with
  | nil => simp [addAll]
  | cons m ms ih =>
    obtain ⟨hm, hms⟩ := List.forall_mem_cons.1 h
    have hstep : l.addAll (m :: ms) = (l.add m).addAll ms := rfl
    rw [hstep, ih hms]
    cases hfull : l.exceeded with
    | true => simp [add_of_exceeded hfull, hfull]
    | false =>
      have hroom : (l.add m).exceeded = false := by
        have herrors : (l.messages ++ [m]).countP (fun m => !m.warning) = l.errorCount := by
          rw [List.countP_append, List.countP_singleton, hm]
          rfl
        rw [add_of_warning hfull hm, exceeded, errorCount, herrors]
        exact hfull
      rw [hroom, add_of_warning hfull hm]
      simp

theorem errorCount_addAll_of_warnings {ms : List Message} (h : ∀ m ∈ ms, m.warning = true) (l : Log) :
    (l.addAll ms).errorCount = l.errorCount := by
  have hnone : ms.countP (fun m => !m.warning) = 0 := List.countP_eq_zero.2 fun m hm => by simp [h m hm]
  rw [errorCount, messages_addAll_of_warnings h, List.countP_append, errorCount]
  split
  · rw [List.countP_nil, Nat.add_zero]
  · rw [hnone, Nat.add_zero]

end Log

theorem Directive.isSize_width {d : Directive} (h : d.isInteger = true) : Reading.IsSize d.width := by
  revert h
  cases d <;> decide

namespace Reading

variable {r : Reading} {d : Directive}

def addAll (r : Reading) (ms : List Message) : Reading := { r with log := r.log.addAll ms }

@[simp] theorem image_addAll (r : Reading) (ms : List Message) : (r.addAll ms).image = r.image := rfl

@[simp] theorem dataCursor_addAll (r : Reading) (ms : List Message) :
    (r.addAll ms).dataCursor = r.dataCursor := rfl

/-- An item is reported if it does not fit, and its bytes are emitted. -/
theorem storeInteger_item (hinteger : d.isInteger = true) (i : IntegerItem)
    (haligned : r.dataCursor.toNat % d.width = 0) (h : r.Room (d.width * i.copies)) (note : Text) :
    r.storeInteger note d i.item
      = (r.addAll (IntegerItem.warnings note d.width [i])).emit (i.bytes d.width) := by
  have hsize := Directive.isSize_width hinteger
  have hkind : i.item.token.kind.isInteger = true := i.isInteger
  have hmod := i.emod_wrapped hsize
  simp only [storeInteger, hkind, if_true, truncate, Nat.one_shiftLeft, Nat.cast_pow, Nat.cast_ofNat]
  change storeCopies (fun r a => r.writeValue note i.literal a
      (if fitsWidth i.wrapped d.width then i.wrapped else i.wrapped % 2 ^ (8 * d.width)) d.width)
    d.width i.copies (if fitsWidth i.wrapped d.width then r else r.report note i.literal
      (.truncated i.wrapped
        (if fitsWidth i.wrapped d.width then i.wrapped else i.wrapped % 2 ^ (8 * d.width)))) = _
  by_cases hfits : i.Fits d.width
  · have hnone : IntegerItem.warnings note d.width [i] = [] := by
      simp [IntegerItem.warnings, hfits]
    rw [if_pos ((i.fitsWidth_wrapped hsize).2 hfits), if_pos ((i.fitsWidth_wrapped hsize).2 hfits),
      storeCopies_of_room hsize haligned h, i.flatten_replicate hmod, hnone]
    rfl
  · have hwide : ¬ fitsWidth i.wrapped d.width = true := fun h => hfits ((i.fitsWidth_wrapped hsize).1 h)
    have hone : IntegerItem.warnings note d.width [i] = [i.warning note d.width] := by
      simp [IntegerItem.warnings, hfits]
    have hreport : r.report note i.literal (.truncated i.wrapped (i.wrapped % 2 ^ (8 * d.width)))
        = r.addAll [i.warning note d.width] := by
      simp only [report, record, addAll, Log.addAll, List.foldl_cons, List.foldl_nil,
        IntegerItem.warning, Problem.about, Problem.message, Problem.isWarning, i.pattern_wrapped, hmod]
    rw [if_neg hwide, if_neg hwide, hreport, storeCopies_of_room (r := r.addAll _) hsize haligned h,
      i.flatten_replicate (by rw [Int.emod_emod_of_dvd _ (dvd_refl _), hmod]), hone]

/-- The items are reported and emitted one after the other. -/
theorem foldl_storeInteger (hinteger : d.isInteger = true) (items : List IntegerItem)
    (haligned : r.dataCursor.toNat % d.width = 0)
    (h : r.Room (d.width * (items.map IntegerItem.copies).sum)) (note : Text) :
    (items.map IntegerItem.item).foldl (fun r item => r.storeInteger note d item) r
      = (r.addAll (IntegerItem.warnings note d.width items)).emit
          (items.flatMap (IntegerItem.bytes d.width)) := by
  induction items generalizing r with
  | nil => exact (emit_nil r).symm
  | cons i items ih =>
    rw [List.map_cons, List.sum_cons, Nat.mul_add] at h
    have hlength := i.length_bytes d.width
    have hroom : ((r.addAll (IntegerItem.warnings note d.width [i])).emit (i.bytes d.width)).Room
        (d.width * (items.map IntegerItem.copies).sum) :=
      Room.emit (by rwa [hlength])
    have hnext := mod_dataCursor_emit (r := r.addAll (IntegerItem.warnings note d.width [i]))
      (Directive.isSize_width hinteger) haligned (hlength ▸ Nat.dvd_mul_right ..)
    have hlog : (r.log.addAll (IntegerItem.warnings note d.width [i])).addAll
        (IntegerItem.warnings note d.width items) = r.log.addAll (IntegerItem.warnings note d.width (i :: items)) := by
      rw [Log.addAll_addAll, IntegerItem.warnings, IntegerItem.warnings, ← List.map_append,
        ← List.filter_append]
      rfl
    rw [List.map_cons, List.foldl_cons, storeInteger_item hinteger i haligned (h.mono (Nat.le_add_right ..)),
      ih hnext hroom, List.flatMap_cons, ← emit_append]
    simp only [addAll, ← hlog]
    rfl

/-! ### The directive -/

theorem align_dataSegment (r : Reading) (multiple : Nat) :
    (r.align r.cursors.dataSegment multiple).dataCursor = alignUp r.dataCursor multiple ∧
      (r.align r.cursors.dataSegment multiple).image = r.image ∧
      (r.align r.cursors.dataSegment multiple).log = r.log := by
  have hsegment (a : Address) :
      (r.cursors.set r.cursors.dataSegment a).dataSegment = r.cursors.dataSegment := by
    rw [Cursors.dataSegment, Cursors.segment_set]
    rfl
  rw [align_eq]
  refine ⟨?_, rfl, rfl⟩
  change (Cursors.set _ _ _).get (Cursors.set _ _ _).dataSegment = _
  rw [hsegment, Cursors.get_set]
  rfl

/-- The directive aligns the cursor and then emits its items. -/
theorem execute_integers_eq {note : Text} {index : Int} {directive : Token} (items : List IntegerItem)
    (hname : Directive.ofName? directive.text = some d) (hinteger : d.isInteger = true)
    (hplain : r.pool.isDefining = false) (hdata : r.cursors.segment.isData = true)
    (halign : r.cursors.autoAlign = true)
    (hmapped : ∀ i < d.width * (items.map IntegerItem.copies).sum,
      r.image.layout.mapped (alignUp r.dataCursor d.width + BitVec.ofNat 32 i) = true) :
    let announced : Reading := { r with cursors := { r.cursors with directive := some d } }
    r.execute note index directive (items.flatMap IntegerItem.tokens)
      = ((announced.align announced.cursors.dataSegment d.width).addAll
          (IntegerItem.warnings note d.width items)).emit
            (items.flatMap (IntegerItem.bytes d.width)) := by
  intro announced
  obtain ⟨hcursor, himage, -⟩ := announced.align_dataSegment d.width
  have hsize := Directive.isSize_width hinteger
  have hstring : d.isString = false := by
    revert hinteger
    cases d <;> decide
  have haligned : (announced.align announced.cursors.dataSegment d.width).dataCursor.toNat % d.width
      = 0 := by
    rw [hcursor]
    exact Nat.mod_eq_zero_of_dvd (dvd_toNat_alignUp (Nat.pos_of_dvd_of_pos hsize.dvd (by decide))
      hsize.dvd _)
  have hroom : (announced.align announced.cursors.dataSegment d.width).Room
      (d.width * (items.map IntegerItem.copies).sum) := by
    intro i hi
    rw [hcursor, himage]
    exact hmapped i hi
  have halign' : announced.cursors.autoAlign = true := halign
  rw [execute_data hname (.inl (by rw [Directive.isNumeric, hinteger]; rfl)) hplain hdata, storeData,
    hstring, if_neg (by decide), storeNumeric, IntegerItem.readAll_tokens]
  simp only [hinteger, if_true]
  rw [if_pos halign']
  exact foldl_storeInteger hinteger items haligned hroom note

theorem toNat_alignUp_sub_lt {multiple : Nat} (hpos : 0 < multiple) (hdvd : multiple ∣ 2 ^ 32)
    (a : Address) : (alignUp a multiple - a).toNat < multiple := by
  have hfits := Nat.le_of_dvd (by decide) hdvd
  have hremainder := Nat.mod_lt a.toNat hpos
  unfold alignUp
  split
  · simpa using hpos
  · rw [BitVec.add_comm, BitVec.add_sub_cancel, BitVec.toNat_ofNat, Nat.mod_eq_of_lt (by omega)]
    omega

/-- An integer directive in a data segment stores, from the next multiple of its size on, the low bytes of
each value as often as its count says, and takes the cursor behind them. It records no error, and one
warning for each item whose value does not fit, whatever its count; a log that is full takes no warning
any more. -/
theorem execute_integers {note : Text} {index : Int} {directive : Token} (items : List IntegerItem)
    (hname : Directive.ofName? directive.text = some d) (hinteger : d.isInteger = true)
    (hplain : r.pool.isDefining = false) (hdata : r.cursors.segment.isData = true)
    (halign : r.cursors.autoAlign = true)
    (hmapped : ∀ i < d.width * (items.map IntegerItem.copies).sum,
      r.image.layout.mapped (alignUp r.dataCursor d.width + BitVec.ofNat 32 i) = true) :
    let first := alignUp r.dataCursor d.width
    let after := r.execute note index directive (items.flatMap IntegerItem.tokens)
    d.width ∣ first.toNat ∧ (first - r.dataCursor).toNat < d.width ∧
      after.image = r.image.write first (items.flatMap (IntegerItem.bytes d.width)) ∧
      after.dataCursor = first + BitVec.ofNat 32 (d.width * (items.map IntegerItem.copies).sum) ∧
      after.log.errorCount = r.log.errorCount ∧
      after.log.messages = r.log.messages ++
        (if r.log.exceeded then [] else IntegerItem.warnings note d.width items) := by
  intro first after
  have hdvd := (Directive.isSize_width hinteger).dvd
  have hpos : 0 < d.width := Nat.pos_of_dvd_of_pos hdvd (by decide)
  obtain ⟨hcursor, himage, hlog⟩ :=
    align_dataSegment { r with cursors := { r.cursors with directive := some d } } d.width
  have hafter : after = _ := execute_integers_eq items hname hinteger hplain hdata halign hmapped
  have hrecorded : after.log = r.log.addAll (IntegerItem.warnings note d.width items) := by
    rw [hafter, log_emit, addAll, hlog]
  have hwarnings : ∀ m ∈ IntegerItem.warnings note d.width items, m.warning = true := by
    intro m hm
    obtain ⟨i, -, rfl⟩ := List.mem_map.1 hm
    rfl
  refine ⟨dvd_toNat_alignUp hpos hdvd _, toNat_alignUp_sub_lt hpos hdvd _, ?_, ?_, ?_, ?_⟩
  · rw [show after = _ from hafter, image_emit, image_addAll, dataCursor_addAll, hcursor, himage]
    rfl
  · rw [show after = _ from hafter, dataCursor_emit, IntegerItem.length_flatMap_bytes, dataCursor_addAll,
      hcursor]
    rfl
  · rw [hrecorded, Log.errorCount_addAll_of_warnings hwarnings]
  · rw [hrecorded, Log.messages_addAll_of_warnings hwarnings]

/-- In a text segment the directive is an error and stores nothing. -/
theorem execute_integers_of_text {note : Text} {index : Int} {directive : Token} (operands : List Token)
    (hname : Directive.ofName? directive.text = some d) (hinteger : d.isInteger = true)
    (hplain : r.pool.isDefining = false) (htext : r.cursors.segment.isData = false) :
    r.execute note index directive operands
        = { r with
            cursors := { r.cursors with directive := some d }
            log := r.log.add ((Problem.directiveInText d).about directive note) } ∧
      ((Problem.directiveInText d).about directive note).warning = false := by
  have hnumeric : d.isNumeric = true := by rw [Directive.isNumeric, hinteger, Bool.true_or]
  refine ⟨?_, rfl⟩
  rw [execute_eq_of_isData hname (.inl hnumeric) hplain, htext, if_neg Bool.false_ne_true]
  rfl

/-- Items with and without a sign and a count, in the data segment. -/
def spreadItems : List IntegerItem :=
  [{ sign := some ⟨.minus, "-", "a.s", 1, 7, 6, 0, 0⟩
     literal := ⟨.integer5, "5", "a.s", 1, 9, 8, 5, 0⟩
     count := some (⟨.colon, ":", "a.s", 1, 11, 10, 0, 0⟩, ⟨.integer5, "2", "a.s", 1, 13, 12, 2, 0⟩)
     isInteger := rfl
     inRange := by decide
     isCount := by decide },
   { sign := some ⟨.plus, "+", "a.s", 1, 15, 14, 0, 0⟩
     literal := ⟨.integer5, "3", "a.s", 1, 17, 16, 3, 0⟩
     isInteger := rfl
     inRange := by decide },
   { literal := ⟨.integer12, "300", "a.s", 1, 19, 18, 300, 0⟩
     count := some (⟨.colon, ":", "a.s", 1, 23, 22, 0, 0⟩, ⟨.integer5, "2", "a.s", 1, 25, 24, 2, 0⟩)
     isInteger := rfl
     inRange := by decide
     isCount := by decide }]

def dataReading : Reading :=
  { Reading.start (.ofConfig {}) "a.s" with
    cursors := { Cursors.ofLayout {} with segment := ⟨true, false⟩ } }

/-- Five bytes are stored, and the value that is stored twice is reported once. -/
theorem execute_integers_spread :
    let directive : Token := ⟨.directive, ".byte", "a.s", 1, 1, 0, 0, 0⟩
    let after := dataReading.execute [] 0 directive (spreadItems.flatMap IntegerItem.tokens)
    ((Rv32im.registry.vocabulary true).tokenize ⟨".byte - 5 : 2 + 3 300 : 2", "a.s", 1⟩).1.tokens
        = directive :: spreadItems.flatMap IntegerItem.tokens ∧
      after.image = dataReading.image.write 0x10010000 [0xfb, 0xfb, 0x03, 0x2c, 0x2c] ∧
      after.dataCursor = 0x10010005 ∧
      after.log.messages.map Message.render
        = ["Warning in a.s line 1 column 19: value 0x12c is out-of-range and truncated to 0x2c"] := by
  intro directive after
  obtain ⟨-, -, himage, hcursor, -, hmessages⟩ :=
    @execute_integers dataReading .byte [] 0 directive spreadItems (by decide +kernel) rfl rfl rfl rfl
      (by decide +kernel)
  refine ⟨by decide +kernel, ?_, ?_, ?_⟩
  · rw [himage]
    rfl
  · rw [hcursor]
    rfl
  · rw [hmessages]
    decide +kernel

/-- A file with a label that is defined three times, before an item on the same line. -/
def crowdedSource : SourceFile := .ofText "a.s" ".data\na:\na:\na: .byte 300\n"

/-- The state behind the labels of the last line, one error being allowed, and what is left of the line. -/
def crowdedReading? : Option (Reading × List Token) :=
  let config : Config := { errorLimit := 1 }
  ((crowdedSource.scope config Rv32im.registry).readings (.start (.ofConfig config) "a.s"))[3]?.map
    fun w => w.before.defineLabels w.note w.line.withoutComment.tokens

def wideItem : IntegerItem where
  literal := ⟨.integer12, "300", "a.s", 4, 10, 9, 300, 0⟩
  isInteger := rfl
  inRange := by decide

/-- The error before it on the line fills the log, so that a value that does not fit is not reported any
more; and in a text segment the directive is an error. -/
theorem execute_integers_fails :
    let directive : Token := ⟨.directive, ".byte", "a.s", 4, 4, 3, 0, 0⟩
    let atStart := Reading.start (.ofConfig {}) "a.s"
    ¬ wideItem.Fits 1 ∧
    (∃ p ∈ crowdedReading?, p.2 = directive :: wideItem.tokens ∧
      p.1.cursors.autoAlign = true ∧ p.1.cursors.segment.isData = true ∧
      p.1.pool.isDefining = false ∧ p.1.image.layout.mapped p.1.dataCursor = true ∧
      (p.1.execute [] 3 directive wideItem.tokens).log.messages = p.1.log.messages) ∧
    atStart.cursors.autoAlign = true ∧ atStart.image.layout.mapped atStart.dataCursor = true ∧
      (atStart.execute [] 3 directive wideItem.tokens).log.errorCount = 1 := by
  decide +kernel

end Reading

end Rv32Assembler
