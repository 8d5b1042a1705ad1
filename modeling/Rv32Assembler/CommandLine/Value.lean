import Rv32Assembler.Literal.Real
/-!
# Values of options

Numbers on the command line may have a base prefix, and underscores between their digits. Switches
take one of a few words.
-/

namespace Rv32Assembler.CommandLine

inductive ValueError where
  /-- The reader with this name refuses the text. -/
  | refused (reader text : Text) (error : Literal.DigitsError)
  /-- The text is no value of a trace option. -/
  | unreadable
  /-- The number is too large for a trace option. -/
  | tooLarge
  /-- The number is no severity. -/
  | noSeverity (number : Int)
  /-- The text does not give levels to files. -/
  | badLevels
  /-- The text does not list places in files. -/
  | badPlaces
  /-- A place is in a line before the first. -/
  | negativeLine
  deriving DecidableEq, Repr

def ValueError.message : ValueError → Text
  | refused reader text error =>
    "strconv." ++ reader ++ ": parsing " ++ text.quote ++ ": " ++ error.message
  | unreadable => "parse error"
  | tooLarge => Literal.DigitsError.tooLarge.message
  | noSeverity number =>
    "Severity " ++ Text.decimal number ++ " out of range (min 0, max 3)."
  | badLevels => "syntax error: expect comma-separated list of filename=N"
  | badPlaces => "syntax error: expect file.go:234"
  | negativeLine => "negative value for line"

/-- The base of a numeral and its digits; a lone zero has no digits after its prefix. -/
def splitPrefix (s : Text) : Nat × Text :=
  match s with
  | 0x30 :: b :: c :: rest =>
    match Literal.prefixBase? b with
    | some base => (base, c :: rest)
    | none => (8, b :: c :: rest)
  | 0x30 :: rest => (8, rest)
  | _ => (10, s)

/-- The value below `limit` of a numeral without a sign. -/
def natural (limit : Nat) (s : Text) : Except Literal.DigitsError Nat :=
  if s.isEmpty then .error .malformed
  else
    let (base, digits) := splitPrefix s
    match Literal.digitsFrom base limit 0 (digits.filter fun b => !Literal.isUnderscore b) with
    | .error e => .error e
    | .ok n =>
      if s.any Literal.isUnderscore && !Literal.underscoresOk s then .error .malformed else .ok n

/-- The signed 64-bit number that a sign and a numeral spell; `read` reads the numeral. -/
def signed (read : Text → Except Literal.DigitsError Nat) (s : Text) :
    Except Literal.DigitsError Int :=
  let (negative, numeral) := Literal.splitSign s
  match read numeral with
  | .error e => .error e
  | .ok n =>
    if (if negative then 1 <<< 63 < n else 1 <<< 63 ≤ n) then .error .tooLarge
    else .ok (if negative then -n else n)

def address (s : Text) : Except ValueError (BitVec 32) :=
  match natural (1 <<< 32) s with
  | .ok n => .ok (BitVec.ofNat 32 n)
  | .error e => .error (.refused "ParseUint" s e)

def integer (s : Text) : Except ValueError Int :=
  (signed (natural (1 <<< 64)) s).mapError (.refused "ParseInt" s)

/-- A signed 64-bit number in decimal, without a base prefix or underscores. -/
def decimal (s : Text) : Except ValueError Int :=
  (signed (Literal.digits 10 (1 <<< 64)) s).mapError (.refused "Atoi" s)

def switch (s : Text) : Except ValueError Bool :=
  let on : List Text := ["1", "t", "T", "true", "TRUE", "True"]
  let off : List Text := ["0", "f", "F", "false", "FALSE", "False"]
  if on.contains s then .ok true
  else if off.contains s then .ok false
  else .error (.refused "ParseBool" s .malformed)

end Rv32Assembler.CommandLine
