import Rv32Assembler.Proofs.Decoding
import Rv32Assembler.Proofs.Lexing
import Rv32Assembler.Proofs.Resolution
/-!
# Filled-in templates

A template is a row of slots: words that stand for themselves, codes, and the bytes between them. If
no two words or codes touch, the filled-in text is read back as the slots were meant, one token for
each (`spells_of_slots`). So the machine word that a template gives is the encoding of values that
its slots name (`expandTemplate_values`), however the text between the passes looks.
-/

namespace Rv32Assembler

def Kind.isParen (k : Kind) : Bool := k == leftParen || k == rightParen

theorem Kind.not_isParen_of_isInteger {k : Kind} (h : k.isInteger = true) :
    k.isParen = false := by
  revert h
  cases k <;> decide

theorem Kind.not_isRegister_of_isLabel {k : Kind} (h : k.isLabel = true) :
    k.isRegister = false := by
  revert h
  cases k <;> decide

theorem Vocabulary.not_isParen_classify (v : Vocabulary) (word : Text) :
    (v.classify word).isParen = false := by
  unfold Vocabulary.classify
  repeat' split
  all_goals rfl

namespace Template

/-- A part of a template. -/
inductive Slot where
  | mark (b : UInt8)
  | word (w : Text)
  | operand (code : Code) (index : Nat)
  deriving DecidableEq, Repr

/-- A byte that ends words: a blank, a comma or a parenthesis. -/
def isMark (b : UInt8) : Bool := b == 0x20 || b == 0x2c || b == 0x28 || b == 0x29

def Slot.isOperand : Slot → Bool
  | mark _ => false
  | word _ | operand .. => true

/-- The slots of a template's pieces; the bytes of a word come together. -/
def slots : List Piece → List Slot
  | [] => []
  | .operand code index :: ps => .operand code index :: slots ps
  | .byte b :: ps =>
    if isMark b then .mark b :: slots ps
    else
      match slots ps with
      | .word w :: rest => .word (b :: w) :: rest
      | rest => .word [b] :: rest

/-- The end of a template, or a mark. -/
def startsMark : List Slot → Bool
  | [] => true
  | .mark b :: _ => isMark b
  | _ => false

/-- No two words touch, and no number stands where its sign would be an operator; `after` says that
a value ends right before the slots. -/
def separated : Bool → List Slot → Bool
  | _, [] => true
  | _, .mark b :: rest => isMark b && separated (b == 0x29) rest
  | _, .word w :: rest => w.isWord && startsMark rest && separated true rest
  | after, .operand code _ :: rest =>
    (!after || code == .label || code == .register) && startsMark rest && separated true rest

/-- The number whose decimal numeral a word of a template is. -/
def numeral? (w : Text) : Option Int :=
  match Literal.integer w with
  | .ok n => if Text.decimal n == w && -2 ^ 63 ≤ n && n < 2 ^ 63 then some n else none
  | .error _ => none

theorem numeral?_eq_some {w : Text} {n : Int} (h : numeral? w = some n) :
    Text.decimal n = w ∧ -2 ^ 63 ≤ n ∧ n < 2 ^ 63 := by
  unfold numeral? at h
  split at h
  · split at h
    · rename_i hn
      cases h
      simpa only [Bool.and_eq_true, beq_iff_eq, decide_eq_true_eq, and_assoc] using hn
    · cases h
  · cases h

/-- As `separated`, but a word of the template may also be the numeral of a number. -/
def readable : Bool → List Slot → Bool
  | _, [] => true
  | _, .mark b :: rest => isMark b && readable (b == 0x29) rest
  | after, .word w :: rest =>
    (w.isWord || !after && (numeral? w).isSome) && startsMark rest && readable true rest
  | after, .operand code _ :: rest =>
    (!after || code == .label || code == .register) && startsMark rest && readable true rest

theorem readable_eq_of_startsMark {rest : List Slot} (h : startsMark rest = true)
    (after after' : Bool) : readable after rest = readable after' rest := by
  cases rest with
  | nil => rfl
  | cons slot rest =>
    cases slot with
    | mark b => rfl
    | word | operand => cases h

theorem readable_of_separated {after : Bool} {row : List Slot} (h : separated after row = true) :
    readable after row = true ∧ ∀ w, .word w ∈ row → w.isWord = true := by
  induction row generalizing after with
  | nil => exact ⟨rfl, fun w hw => by cases hw⟩
  | cons slot rest ih =>
    cases slot with
    | mark b =>
      simp only [separated, Bool.and_eq_true] at h
      obtain ⟨hrest, hwords⟩ := ih h.2
      refine ⟨by simp [readable, h.1, hrest], fun w hw => hwords w ?_⟩
      simpa using hw
    | word word =>
      simp only [separated, Bool.and_eq_true] at h
      obtain ⟨hrest, hwords⟩ := ih h.2
      refine ⟨by simp [readable, h.1.1, h.1.2, hrest], fun w hw => ?_⟩
      rcases List.mem_cons.1 hw with heq | hw
      · cases heq
        exact h.1.1
      · exact hwords w hw
    | operand code index =>
      simp only [separated, Bool.and_eq_true] at h
      obtain ⟨hrest, hwords⟩ := ih h.2
      refine ⟨by simp only [readable, h.1.1, h.1.2, hrest, Bool.and_self], fun w hw => hwords w ?_⟩
      simpa using hw

/-- What a numeric code makes of the value of its operand. -/
def Code.number? (pc : Word) : Code → Option (Int → Int)
  | .label | .register => none
  | .value => some id
  | .upper => some upper20
  | .lower => some lower12
  | .relativeUpper => some fun v => upper20 (distance v pc)
  | .relativeLower => some fun v => lower12 (distance v pc)

section

variable (tokens : List Token) (pc : Word) (lookup : Text → Option Int)

def Piece.Draws : Piece → Text → Prop
  | .byte b, text => text = [b]
  | .operand code index, text =>
    ∃ t, tokens[index]? = some t ∧ drawn .rv32 pc lookup code t = .ok text

def Slot.Draws : Slot → Text → Prop
  | .mark b, text => text = [b]
  | .word w, text => text = w
  | .operand code index, text =>
    ∃ t, tokens[index]? = some t ∧ drawn .rv32 pc lookup code t = .ok text

/-- The token that a slot is read back as. -/
inductive Slot.Means (v : Vocabulary) : Slot → Kind × Text × Int → Prop
  | word (w : Text) : Means v (.word w) (v.classify w, w, 0)
  | label {index : Nat} {t : Token} (ht : tokens[index]? = some t) :
      Means v (.operand .label index) (v.classify t.text, t.text, 0)
  | register {index : Nat} {t : Token} {r : Register} (ht : tokens[index]? = some t)
      (hr : Register.ofText? t.text = some r) :
      Means v (.operand .register index) (v.classify r.spelling, r.spelling, 0)
  | number {code : Code} {index : Nat} {t : Token} {f : Int → Int} {x : Int}
      (hcode : code.number? pc = some f) (ht : tokens[index]? = some t)
      (hx : operandValue .rv32 lookup t = .ok x) :
      Means v (.operand code index) (.classify (f x), Text.decimal (f x), f x)

/-- The tokens that a slot is read back as: none for a separator, one for all else. -/
inductive Slot.Reads (v : Vocabulary) : Slot → List (Kind × Text × Int) → Prop
  | blank : Reads v (.mark 0x20) []
  | comma : Reads v (.mark 0x2c) []
  | left : Reads v (.mark 0x28) [(.leftParen, [0x28], 0)]
  | right : Reads v (.mark 0x29) [(.rightParen, [0x29], 0)]
  | word {w : Text} (hword : w.isWord = true) : Reads v (.word w) [(v.classify w, w, 0)]
  | numeral {w : Text} {n : Int} (hword : w.isWord = false) (hn : numeral? w = some n) :
      Reads v (.word w) [(.classify n, w, n)]
  | operand {code : Code} {index : Nat} {c : Kind × Text × Int}
      (h : (Slot.operand code index).Means tokens pc lookup v c) :
      Reads v (.operand code index) [c]

end

variable {tokens : List Token} {pc : Word} {lookup : Text → Option Int}

/-! ### Texts of slots -/

theorem exists_of_fill {template text : Text} (h : fill template tokens pc lookup = .ok text) :
    ∃ texts, List.Forall₂ (Piece.Draws tokens pc lookup) (pieces template) texts ∧
      texts.flatten = text := by
  obtain ⟨texts, htexts, htext⟩ := exists_of_bind_eq_ok h
  refine ⟨texts, (mapM_eq_ok_iff.1 htexts).imp ?_, Except.ok.inj htext⟩
  intro p text hp
  cases p with
  | byte b => exact (Except.ok.inj hp).symm
  | operand code index =>
    simp only at hp
    split at hp
    · rename_i t ht
      exact ⟨t, ht, hp⟩
    · cases hp

theorem exists_slots {ps : List Piece} {texts : List Text}
    (h : List.Forall₂ (Piece.Draws tokens pc lookup) ps texts) :
    ∃ texts', List.Forall₂ (Slot.Draws tokens pc lookup) (slots ps) texts' ∧
      texts'.flatten = texts.flatten := by
  induction h with
  | nil => exact ⟨[], .nil, rfl⟩
  | @cons p text ps texts hp _ ih =>
    obtain ⟨texts', hdraws, hflatten⟩ := ih
    cases p with
    | operand code index =>
      exact ⟨text :: texts', .cons hp hdraws, by rw [List.flatten_cons, hflatten, List.flatten_cons]⟩
    | byte b =>
      obtain rfl : text = [b] := hp
      rw [slots]
      split
      · exact ⟨[b] :: texts', .cons rfl hdraws,
          by rw [List.flatten_cons, hflatten, List.flatten_cons]⟩
      · split
        · rename_i w rest hslots
          rw [hslots] at hdraws
          cases hdraws with
          | @cons _ word _ texts' hword hdraws =>
            obtain rfl : word = w := hword
            refine ⟨(b :: word) :: texts', .cons rfl hdraws, ?_⟩
            rw [List.flatten_cons, List.flatten_cons, ← hflatten, List.flatten_cons]
            rfl
        · exact ⟨[b] :: texts', .cons rfl hdraws,
            by rw [List.flatten_cons, hflatten, List.flatten_cons]⟩

theorem endsWord_of_startsMark {rest : List Slot} {texts : List Text}
    (h : startsMark rest = true) (hdraws : List.Forall₂ (Slot.Draws tokens pc lookup) rest texts) :
    Text.endsWord texts.flatten = true := by
  cases hdraws with
  | nil => rfl
  | @cons slot text rest texts hslot _ =>
    cases slot with
    | mark b =>
      obtain rfl : text = [b] := hslot
      exact h
    | word | operand => cases h

theorem drawn_eq_map {code : Code} {t : Token} {f : Int → Int} (hcode : code.number? pc = some f) :
    drawn .rv32 pc lookup code t = (operandValue .rv32 lookup t).map fun x => Text.decimal (f x) := by
  cases code <;> cases hcode <;> rfl

theorem exists_of_drawn {code : Code} {t : Token} {text : Text} {f : Int → Int}
    (hcode : code.number? pc = some f) (h : drawn .rv32 pc lookup code t = .ok text) :
    ∃ x, operandValue .rv32 lookup t = .ok x ∧ text = Text.decimal (f x) := by
  rw [drawn_eq_map hcode] at h
  cases hvalue : operandValue .rv32 lookup t with
  | error e =>
    rw [hvalue] at h
    cases h
  | ok x =>
    rw [hvalue] at h
    exact ⟨x, rfl, (Except.ok.inj h).symm⟩

theorem isWord_spelling (r : Register) : r.spelling.isWord = true := by
  have hall : ∀ r : Register, r.spelling.isWord = true := by decide +kernel
  exact hall r

/-- What the words and numbers of a template need, to be read back as they were meant. -/
structure Legible (v : Vocabulary) (tokens : List Token) (lookup : Text → Option Int)
    (row : List Slot) : Prop where
  label : ∀ index t, .operand .label index ∈ row → tokens[index]? = some t →
    t.Lexed v ∧ t.kind.isLabel = true
  value : ∀ index t x, .operand .value index ∈ row → tokens[index]? = some t →
    operandValue .rv32 lookup t = .ok x → -2 ^ 63 ≤ x ∧ x < 2 ^ 63

theorem Legible.tail {v : Vocabulary} {slot : Slot} {rest : List Slot}
    (h : Legible v tokens lookup (slot :: rest)) : Legible v tokens lookup rest :=
  ⟨fun index t hmem => h.label index t (List.mem_cons_of_mem _ hmem),
   fun index t x hmem => h.value index t x (List.mem_cons_of_mem _ hmem)⟩

theorem Legible.number {v : Vocabulary} {row : List Slot} (h : Legible v tokens lookup row)
    {code : Code} {index : Nat} {t : Token} {f : Int → Int} {x : Int} (hmem : .operand code index ∈ row)
    (hcode : code.number? pc = some f) (ht : tokens[index]? = some t)
    (hx : operandValue .rv32 lookup t = .ok x) : -2 ^ 63 ≤ f x ∧ f x < 2 ^ 63 := by
  have hupper (v : Int) : 0 ≤ upper20 v ∧ upper20 v < 2 ^ 20 := by
    unfold upper20
    omega
  have hlower (v : Int) : -2 ^ 11 ≤ lower12 v ∧ lower12 v < 2 ^ 11 := by
    have hhigh := @Int.bmod_lt v 0x1000 (by decide)
    have hlow := @Int.le_bmod v 0x1000 (by decide)
    unfold lower12
    omega
  cases code with
  | label | register => cases hcode
  | value =>
    cases hcode
    exact h.value index t x hmem ht hx
  | upper =>
    cases hcode
    have := hupper x
    omega
  | relativeUpper =>
    cases hcode
    have := hupper (distance x pc)
    change -2 ^ 63 ≤ upper20 (distance x pc) ∧ upper20 (distance x pc) < 2 ^ 63
    omega
  | lower =>
    cases hcode
    have := hlower x
    omega
  | relativeLower =>
    cases hcode
    have := hlower (distance x pc)
    change -2 ^ 63 ≤ lower12 (distance x pc) ∧ lower12 (distance x pc) < 2 ^ 63
    omega

theorem Legible.word {v : Vocabulary} {row : List Slot} (h : Legible v tokens lookup row)
    {code : Code} {index : Nat} {t : Token} {text : Text} (hmem : .operand code index ∈ row)
    (hcode : code.number? pc = none) (ht : tokens[index]? = some t)
    (hdrawn : drawn .rv32 pc lookup code t = .ok text) :
    text.isWord = true ∧
      Slot.Means tokens pc lookup v (.operand code index) (v.classify text, text, 0) := by
  cases code with
  | label =>
    obtain rfl : t.text = text := Except.ok.inj hdrawn
    obtain ⟨hlexed, hkind⟩ := h.label index t hmem ht
    exact ⟨(hlexed.word (.inl hkind)).1, .label ht⟩
  | register =>
    simp only [drawn, RegisterFile.ofText?_rv32] at hdrawn
    cases hr : Register.ofText? t.text with
    | some r =>
      rw [hr] at hdrawn
      obtain rfl : r.spelling = text := Except.ok.inj hdrawn
      exact ⟨isWord_spelling r, .register ht hr⟩
    | none =>
      rw [hr] at hdrawn
      cases hdrawn
  | value | upper | lower | relativeUpper | relativeLower => cases hcode

/-- The text of readable slots spells the tokens of each slot in turn. -/
theorem spells_of_readable {v : Vocabulary} {row : List Slot} {texts : List Text} {after : Bool}
    (hreadable : readable after row = true) (hlegible : Legible v tokens lookup row)
    (hdraws : List.Forall₂ (Slot.Draws tokens pc lookup) row texts) :
    ∃ tss, Spells v after texts.flatten tss.flatten ∧
      List.Forall₂ (Slot.Reads tokens pc lookup v) row tss := by
  induction hdraws generalizing after with
  | nil => exact ⟨[], .nil after, .nil⟩
  | @cons slot text rest texts hslot hdraws ih =>
    cases slot with
    | mark b =>
      obtain rfl : text = [b] := hslot
      simp only [readable, isMark, Bool.and_eq_true, Bool.or_eq_true, beq_iff_eq, or_assoc]
        at hreadable
      obtain ⟨hmark, hrest⟩ := hreadable
      obtain ⟨tss, hspells, hreads⟩ := ih hrest hlegible.tail
      rcases hmark with rfl | rfl | rfl | rfl
      · exact ⟨[] :: tss, .blank hspells, .cons .blank hreads⟩
      · exact ⟨[] :: tss, .comma hspells, .cons .comma hreads⟩
      · exact ⟨[_] :: tss, .left hspells, .cons .left hreads⟩
      · exact ⟨[_] :: tss, .right hspells, .cons .right hreads⟩
    | word w =>
      obtain rfl : text = w := hslot
      simp only [readable, Bool.and_eq_true, Bool.or_eq_true] at hreadable
      obtain ⟨⟨hword, hstarts⟩, hrest⟩ := hreadable
      have hend := endsWord_of_startsMark hstarts hdraws
      cases hisword : text.isWord with
      | true =>
        rw [readable_eq_of_startsMark hstarts _ (v.classify text).isValue] at hrest
        obtain ⟨tss, hspells, hreads⟩ := ih hrest hlegible.tail
        exact ⟨[_] :: tss, .word hisword hend hspells, .cons (.word hisword) hreads⟩
      | false =>
        obtain ⟨hafter, hnumeral⟩ : after = false ∧ (numeral? text).isSome = true := by
          simpa [hisword] using hword
        obtain ⟨n, hn⟩ := Option.isSome_iff_exists.1 hnumeral
        obtain ⟨hdecimal, hlow, hhigh⟩ := numeral?_eq_some hn
        obtain ⟨tss, hspells, hreads⟩ := ih hrest hlegible.tail
        have hspelled := Spells.number hlow hhigh hend hspells
        rw [hdecimal] at hspelled
        subst hafter
        exact ⟨[_] :: tss, hspelled, .cons (.numeral hisword hn) hreads⟩
    | operand code index =>
      obtain ⟨t, ht, hdrawn⟩ := hslot
      simp only [readable, Bool.and_eq_true] at hreadable
      obtain ⟨⟨hcode, hstarts⟩, hrest⟩ := hreadable
      have hend := endsWord_of_startsMark hstarts hdraws
      cases hnumber : code.number? pc with
      | some f =>
        obtain rfl : after = false := by
          cases code with
          | label | register => cases hnumber
          | _ => simpa using hcode
        obtain ⟨x, hx, rfl⟩ := exists_of_drawn hnumber hdrawn
        obtain ⟨hlow, hhigh⟩ := hlegible.number (List.mem_cons_self ..) hnumber ht hx
        obtain ⟨tss, hspells, hreads⟩ := ih hrest hlegible.tail
        exact ⟨[_] :: tss, .number hlow hhigh hend hspells,
          .cons (.operand (.number hnumber ht hx)) hreads⟩
      | none =>
        obtain ⟨hword, hmeaning⟩ := hlegible.word (List.mem_cons_self ..) hnumber ht hdrawn
        rw [readable_eq_of_startsMark hstarts _ (v.classify text).isValue] at hrest
        obtain ⟨tss, hspells, hreads⟩ := ih hrest hlegible.tail
        exact ⟨[_] :: tss, .word hword hend hspells, .cons (.operand hmeaning) hreads⟩

theorem Slot.Means.not_isParen {v : Vocabulary} {slot : Slot} {c : Kind × Text × Int}
    (h : slot.Means tokens pc lookup v c) : c.1.isParen = false := by
  cases h with
  | word | label => exact v.not_isParen_classify _
  | @register _ _ r => exact v.not_isParen_classify r.spelling
  | number => exact Kind.not_isParen_of_isInteger (Kind.isInteger_classify _)

/-- The text of separated slots spells one token for each word and code. -/
theorem spells_of_slots {v : Vocabulary} {row : List Slot} {texts : List Text} {after : Bool}
    (hseparated : separated after row = true) (hlegible : Legible v tokens lookup row)
    (hdraws : List.Forall₂ (Slot.Draws tokens pc lookup) row texts) :
    ∃ ts, Spells v after texts.flatten ts ∧
      List.Forall₂ (Slot.Means tokens pc lookup v) (row.filter Slot.isOperand)
        (ts.filter fun c => !c.1.isParen) := by
  obtain ⟨hreadable, hwords⟩ := readable_of_separated hseparated
  obtain ⟨tss, hspells, hreads⟩ := spells_of_readable hreadable hlegible hdraws
  refine ⟨tss.flatten, hspells, ?_⟩
  clear hseparated hlegible hdraws hreadable hspells
  induction hreads with
  | nil => exact .nil
  | @cons slot ts rest tss hslot _ ih =>
    have hrest := ih fun w hw => hwords w (List.mem_cons_of_mem _ hw)
    rw [List.flatten_cons, List.filter_append]
    cases hslot with
    | blank | comma | left | right => exact hrest
    | numeral hword =>
      rw [hwords _ (List.mem_cons_self ..)] at hword
      cases hword
    | @word w =>
      rw [List.filter_cons_of_pos rfl, List.filter_cons_of_pos (by simp [v.not_isParen_classify])]
      exact .cons (.word w) hrest
    | operand hmeans =>
      rw [List.filter_cons_of_pos rfl, List.filter_cons_of_pos (by simp [hmeans.not_isParen])]
      exact .cons hmeans hrest

end Template

/-! ### Values of operands -/

theorem Register.ofText?_spelling (r : Register) : ofText? r.spelling = some r := by
  have hall : ∀ r : Register, ofText? r.spelling = some r := by decide +kernel
  exact hall r

/-- The spellings of registers are reserved words in every instruction set with these registers. -/
theorem Registry.isRegister_classify {isa : Registry} (hisa : isa.registers = .rv32)
    {directives : Bool} {w : Text} {r : Register} (h : Register.ofText? w = some r) :
    ((isa.vocabulary directives).classify w).isRegister = true := by
  have hnames : ∀ r : Register, (Register.names[r.val]?.bind List.head?) ≠ some 0x2e := by decide
  have hspellings : ∀ r : Register, r.spelling.head? ≠ some 0x2e := by decide
  have hhead : w.head? ≠ some 0x2e := by
    rcases Option.or_eq_some_iff.1 h with hname | ⟨-, hspelling⟩
    · unfold Register.ofName? at hname
      split at hname
      · rename_i hfp
        rw [eq_of_beq hfp]
        decide
      · have hfound : (Register.names[r.val]? == some w) = true := by
          simpa using List.find?_some hname
        have hplain := hnames r
        rwa [eq_of_beq hfound] at hplain
    · have hfound : (r.spelling == w) = true := by simpa using List.find?_some hspelling
      have hplain := hspellings r
      rwa [eq_of_beq hfound] at hplain
  have hplain : (w.head? == some 0x2e) = false := by simpa using hhead
  rcases Option.or_eq_some_iff.1 h with hname | ⟨hname, hspelling⟩
  · have hreserved : (isa.vocabulary directives).isRegisterName w = true := by
      simp [Registry.vocabulary, hisa, RegisterFile.ofName?_rv32, hname]
    simp [Vocabulary.classify, hplain, hreserved, Kind.isRegister]
  · have hother : (isa.vocabulary directives).isRegisterName w = false := by
      simp [Registry.vocabulary, hisa, RegisterFile.ofName?_rv32, hname]
    have hreserved : (isa.vocabulary directives).isRegisterNumber w = true := by
      simp [Registry.vocabulary, hisa, RegisterFile.ofSpelling?_rv32, hspelling]
    simp [Vocabulary.classify, hplain, hother, hreserved, Kind.isRegister]

/-- The value of an operand token of a basic instruction at an address. -/
inductive Token.ValueOf (registers : RegisterFile) (names : Names) (relative : Bool)
    (address : Address) : Kind × Text × Int → Int → Prop
  | register {k : Kind} {text : Text} {x : Int} (h : k.isRegister = true) :
      ValueOf registers names relative address (k, text, x) ((registers.ofText? text).getD 0)
  | integer {k : Kind} {text : Text} {x : Int} (h : k.isInteger = true) :
      ValueOf registers names relative address (k, text, x) x
  | label {k : Kind} {text : Text} {x : Int} {a : Address} (h : k.isLabel = true)
      (ha : names.address? text = some a) :
      ValueOf registers names relative address (k, text, x)
        (if relative then (a - address).toInt else a.toNat)

namespace Token.ValueOf

variable {registers : RegisterFile} {names : Names} {relative : Bool} {address : Address} {k : Kind}
  {text : Text} {x n : Int}

theorem of_isRegister (h : ValueOf registers names relative address (k, text, x) n)
    (hkind : k.isRegister = true) : n = (registers.ofText? text).getD 0 := by
  cases h with
  | register => rfl
  | integer hinteger =>
    rw [(Kind.not_isWord_of_isInteger hinteger).2] at hkind
    cases hkind
  | label hlabel =>
    rw [Kind.not_isRegister_of_isLabel hlabel] at hkind
    cases hkind

theorem of_isInteger (h : ValueOf registers names relative address (k, text, x) n)
    (hkind : k.isInteger = true) : n = x := by
  obtain ⟨hlabel, hregister⟩ := Kind.not_isWord_of_isInteger hkind
  cases h with
  | integer => rfl
  | register h =>
    rw [hregister] at h
    cases h
  | label h =>
    rw [hlabel] at h
    cases h

theorem of_isLabel (h : ValueOf registers names relative address (k, text, x) n)
    (hkind : k.isLabel = true) :
    ∃ a, names.address? text = some a ∧
      n = if relative then (a - address).toInt else a.toNat := by
  cases h with
  | label _ ha => exact ⟨_, ha, rfl⟩
  | register h =>
    rw [Kind.not_isRegister_of_isLabel hkind] at h
    cases h
  | integer h =>
    rw [(Kind.not_isWord_of_isInteger h).1] at hkind
    cases hkind

end Token.ValueOf

@[simp]
theorem OperandValues.values_push (o : OperandValues) (value : Int) (text : Text) :
    (o.push value text).values = o.values ++ [value] := by
  unfold push
  split <;> rfl

namespace Statement

/-- Parentheses have no value; every other operand adds its own. -/
theorem readOperand_eq_ok {s : Statement} {registers : RegisterFile} {names : Names}
    {relative : Bool} {o o' : OperandValues} {t : Token}
    (h : s.readOperand registers names relative o t = .ok o') :
    (t.kind.isParen = true ∧ o'.values = o.values) ∨
      t.kind.isParen = false ∧ ∃ n, o'.values = o.values ++ [n] ∧
        Token.ValueOf registers names relative s.address t.content n := by
  unfold readOperand at h
  split at h
  · rename_i hkind
    cases h
    exact .inl ⟨by simp [Kind.isParen, hkind], rfl⟩
  · rename_i hleft
    split at h
    · rename_i hkind
      cases h
      exact .inl ⟨by simp [Kind.isParen, hkind], rfl⟩
    · rename_i hright
      refine .inr ⟨by simp [Kind.isParen, hleft, hright], ?_⟩
      split at h
      · rename_i hkind
        cases h
        exact ⟨_, OperandValues.values_push _ _ _, .register hkind⟩
      · split at h
        · rename_i hkind
          cases h
          exact ⟨_, OperandValues.values_push _ _ _, .integer hkind⟩
        · split at h
          · rename_i hkind
            split at h
            · rename_i a ha
              cases h
              exact ⟨_, OperandValues.values_push _ _ _, .label hkind ha⟩
            · cases h
          · cases h

theorem values_of_foldlM {s : Statement} {registers : RegisterFile} {names : Names}
    {relative : Bool} {ts : List Token} {o o' : OperandValues}
    (h : ts.foldlM (s.readOperand registers names relative) o = .ok o') :
    ∃ values, o'.values = o.values ++ values ∧
      List.Forall₂ (Token.ValueOf registers names relative s.address)
        ((ts.map Token.content).filter fun c => !c.1.isParen) values := by
  induction ts generalizing o with
  | nil =>
    cases h
    exact ⟨[], (List.append_nil _).symm, .nil⟩
  | cons t ts ih =>
    rw [List.foldlM_cons] at h
    cases ht : s.readOperand registers names relative o t with
    | error e =>
      rw [ht] at h
      cases h
    | ok middle =>
      rw [ht] at h
      obtain ⟨values, hvalues, hall⟩ := ih h
      rcases readOperand_eq_ok ht with ⟨hparen, hsame⟩ | ⟨hparen, n, hmore, hvalue⟩
      · refine ⟨values, by rw [hvalues, hsame], ?_⟩
        rw [List.map_cons, List.filter_cons_of_neg (by simp [Token.content, hparen])]
        exact hall
      · refine ⟨n :: values, by rw [hvalues, hmore, List.append_assoc]; rfl, ?_⟩
        rw [List.map_cons, List.filter_cons_of_pos (by simp [Token.content, hparen])]
        exact .cons hvalue hall

end Statement

/-! ### Values of slots -/

namespace Template

inductive Slot.Denotes (tokens : List Token) : Slot → Register → Prop
  | word {w : Text} {r : Register} (h : Register.ofText? w = some r) : Denotes tokens (.word w) r
  | operand {index : Nat} {t : Token} {r : Register} (ht : tokens[index]? = some t)
      (h : Register.ofText? t.text = some r) : Denotes tokens (.operand .register index) r

theorem Slot.Denotes.unique {tokens : List Token} {slot : Slot} {r r' : Register}
    (h : slot.Denotes tokens r) (h' : slot.Denotes tokens r') : r = r' := by
  cases h with
  | word h =>
    cases h' with
    | word h' => exact Option.some.inj (h.symm.trans h')
  | operand ht h =>
    cases h' with
    | operand ht' h' =>
      cases ht.symm.trans ht'
      exact Option.some.inj (h.symm.trans h')

/-- The value that a slot of a template for the tokens stands for, in an instruction at an
address. -/
inductive Slot.Value (tokens : List Token) (pc : Word) (names : Names) (relative : Bool)
    (address : Address) : Slot → Int → Prop
  | register {slot : Slot} {r : Register} (h : slot.Denotes tokens r) :
      Value tokens pc names relative address slot r.val
  | label {index : Nat} {t : Token} {a : Address} (ht : tokens[index]? = some t)
      (ha : names.address? t.text = some a) :
      Value tokens pc names relative address (.operand .label index)
        (if relative then (a - address).toInt else a.toNat)
  | number {code : Code} {index : Nat} {t : Token} {f : Int → Int} {x : Int}
      (hcode : code.number? pc = some f) (ht : tokens[index]? = some t)
      (hx : operandValue .rv32 (fun name => (names.address? name).map fun a => a.toNat) t = .ok x) :
      Value tokens pc names relative address (.operand code index) (f x)

def Slot.isRegister : Slot → Bool
  | .word _ | .operand .register _ => true
  | _ => false

namespace Slot.Value

variable {tokens : List Token} {pc : Word} {names : Names} {relative : Bool}
  {address : Address} {n : Int}

theorem of_isRegister {slot : Slot} (h : slot.Value tokens pc names relative address n)
    (hslot : slot.isRegister = true) : ∃ r, slot.Denotes tokens r ∧ n = r.val := by
  cases h with
  | register hr => exact ⟨_, hr, rfl⟩
  | label => cases hslot
  | @number code _ _ _ _ hcode =>
    cases code with
    | register => cases hcode
    | _ => cases hslot

theorem of_label {index : Nat}
    (h : (Slot.operand .label index).Value tokens pc names relative address n) :
    ∃ t a, tokens[index]? = some t ∧ names.address? t.text = some a ∧
      n = if relative then (a - address).toInt else a.toNat := by
  cases h with
  | register hr => cases hr
  | label ht ha => exact ⟨_, _, ht, ha, rfl⟩
  | number hcode => cases hcode

theorem of_number {code : Code} {index : Nat} {f : Int → Int}
    (h : (Slot.operand code index).Value tokens pc names relative address n)
    (hcode : code.number? pc = some f) :
    ∃ t x, tokens[index]? = some t ∧
      operandValue .rv32 (fun name => (names.address? name).map fun a => a.toNat) t = .ok x ∧
      n = f x := by
  cases h with
  | register hr =>
    cases hr
    cases hcode
  | label => cases hcode
  | number hcode' ht hx =>
    cases hcode.symm.trans hcode'
    exact ⟨_, _, ht, hx, rfl⟩

end Slot.Value

/-- The words of a template that are operands are registers. -/
def wordsAreRegisters (row : List Slot) : Bool :=
  row.all fun
    | .word w => (Register.ofText? w).isSome
    | _ => true

theorem Slot.Means.value {isa : Registry} (hisa : isa.registers = .rv32) {tokens : List Token} {pc : Word} {names : Names}
    {relative : Bool} {address : Address} {row : List Slot} {slot : Slot} {c : Kind × Text × Int}
    {n : Int}
    (h : slot.Means tokens pc (fun name => (names.address? name).map fun a => a.toNat)
      (isa.vocabulary true) c)
    (hn : Token.ValueOf .rv32 names relative address c n) (hslot : slot ∈ row)
    (hwords : wordsAreRegisters row = true)
    (hlegible : Legible (isa.vocabulary true) tokens
      (fun name => (names.address? name).map fun a => a.toNat) row) :
    slot.Value tokens pc names relative address n := by
  cases h with
  | word w =>
    obtain ⟨r, hr⟩ := Option.isSome_iff_exists.1 (List.all_eq_true.1 hwords _ hslot)
    rw [hn.of_isRegister (Registry.isRegister_classify hisa hr), RegisterFile.ofText?_rv32, hr]
    exact .register (.word hr)
  | @register index t r ht hr =>
    have hspelling := Register.ofText?_spelling r
    rw [hn.of_isRegister (Registry.isRegister_classify hisa hspelling), RegisterFile.ofText?_rv32,
      hspelling]
    exact .register (.operand ht hr)
  | @label index t ht =>
    obtain ⟨hlexed, hkind⟩ := hlegible.label index t hslot ht
    rw [(hlexed.word (.inl hkind)).2] at hkind
    obtain ⟨a, ha, rfl⟩ := hn.of_isLabel hkind
    exact .label ht ha
  | @number code index t f x hcode ht hx =>
    rw [hn.of_isInteger (Kind.isInteger_classify (f x))]
    exact .number hcode ht hx

end Template

theorem forall₂_comp {α β γ : Type} {R : α → β → Prop} {S : β → γ → Prop} {T : α → γ → Prop}
    {as : List α} {bs : List β} {cs : List γ} (h : List.Forall₂ R as bs)
    (h' : List.Forall₂ S bs cs) (hT : ∀ a ∈ as, ∀ b c, R a b → S b c → T a c) :
    List.Forall₂ T as cs := by
  induction h generalizing cs with
  | nil =>
    cases h'
    exact .nil
  | @cons a b as bs hab _ ih =>
    cases h' with
    | cons hbc h' =>
      refine .cons (hT a (List.mem_cons_self ..) b _ hab hbc) ?_
      exact ih h' fun a' ha' => hT a' (List.mem_cons_of_mem _ ha')

open Template in
/-- The machine word of a template is that of a basic form of its mnemonic, with the values that the
slots stand for. -/
theorem Statement.expandTemplate_values {s : Statement} {isa : Registry}
    (hisa : isa.registers = .rv32) {names : Names} {template : Text} {i : Nat} {m : MachineStatement}
    (h : s.expandTemplate isa names template i = .ok m) {mnemonic : Text} {row : List Slot}
    (hslots : slots (pieces template) = .word mnemonic :: row)
    (hseparated : separated false (.word mnemonic :: row) = true)
    (hwords : wordsAreRegisters row = true)
    (hlegible : Legible (isa.vocabulary true) s.tokens
      (fun name => (names.address? name).map fun a => a.toNat) (slots (pieces template))) :
    ∃ form relative encoding values, form ∈ isa.lookup mnemonic ∧
      form.meaning = .basic relative encoding ∧ encoding.encode values = .ok m.code ∧
      List.Forall₂
        (Slot.Value s.tokens s.address names relative (s.address + BitVec.ofNat 32 (4 * i)))
        (row.filter Slot.isOperand) values := by
  obtain ⟨text, operator, operands, line, form, relative, encoding, hfill, htokens, hoperator,
    hselect, hmeaning, -, hencode⟩ := expandTemplate_eq_ok h
  rw [hisa] at hfill hencode
  obtain ⟨o, hfold, hcode, -⟩ := encode_eq_ok hencode
  obtain ⟨values, hvalues, hall⟩ := values_of_foldlM hfold
  -- The text is read back as the slots of the template.
  obtain ⟨texts, hdraws, hflatten⟩ := exists_of_fill hfill
  obtain ⟨texts', hdraws', hflatten'⟩ := exists_slots hdraws
  rw [hslots] at hdraws' hlegible
  obtain ⟨ts, hspells, hmeans⟩ := spells_of_slots hseparated hlegible hdraws'
  rw [hflatten', hflatten] at hspells
  have hline : Spells (isa.vocabulary true) false
      (⟨text, s.line.file, s.line.line⟩ : SourceLine).text ts := hspells
  obtain ⟨tokens, rfl, htokenize⟩ := Vocabulary.tokenize_of_spells hline
  rw [htokenize] at htokens
  obtain ⟨rfl, -⟩ : tokens = operator :: operands ∧ _ := by
    simpa using congrArg Prod.fst htokens
  have hnot : operator.kind.isParen = false := by rw [hoperator]; rfl
  rw [List.filter_cons_of_pos rfl, List.map_cons,
    List.filter_cons_of_pos (by simp [Token.content, hnot])] at hmeans
  cases hmeans with
  | cons hfirst hrest =>
    have hmnemonic : operator.text = mnemonic := by
      generalize hcontent : operator.content = c at hfirst
      cases hfirst with
      | word => exact congrArg (fun c : Kind × Text × Int => c.2.1) hcontent
    rw [hmnemonic] at hselect
    refine ⟨form, relative, encoding, values, Instruction.mem_of_select hselect, hmeaning, ?_, ?_⟩
    · rw [← hcode, hvalues]
      rfl
    · refine forall₂_comp hrest hall ?_
      intro slot hslot c n hmeans hvalue
      exact hmeans.value hisa hvalue (List.mem_of_mem_filter hslot) hwords hlegible.tail

end Rv32Assembler
