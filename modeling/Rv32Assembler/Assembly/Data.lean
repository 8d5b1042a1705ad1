import Rv32Assembler.Assembly.State
/-!
# Data

Storing the operands of the data directives at the data cursor.
-/

namespace Rv32Assembler

/-- One operand of a numeric directive: a value with an optional sign, some number of times. -/
structure DataItem where
  negated : Bool
  token : Token
  count : Nat
  deriving DecidableEq, Repr

namespace DataItem

/-- The value with the token for its sign taken off, and the number of tokens used of `rest`. -/
def readValue (t : Token) (rest : List Token) : Except (Token × Problem) (Bool × Token × Nat) :=
  if t.kind == .minus || t.kind == .plus then
    match rest with
    | value :: _ => .ok (t.kind == .minus, value, 1)
    | [] => .error (t, .loneSign t.text)
  else .ok (false, t, 0)

/-- The number of copies asked for after a value, and the number of tokens that say so. -/
def readCount (rest : List Token) : Except (Token × Problem) (Nat × Nat) :=
  match rest with
  | colon :: count :: _ =>
    if colon.kind == .colon then
      if count.kind.isInteger && 0 < count.value then .ok (count.value.toNat, 2)
      else .error (count, .badCount count.text)
    else .ok (1, 0)
  | _ => .ok (1, 0)

/-- The item that starts at `t`, and the number of tokens it takes of `rest`. -/
def read (t : Token) (rest : List Token) : Except (Token × Problem) (DataItem × Nat) := do
  let (negated, value, used) ← readValue t rest
  let (count, more) ← readCount (rest.drop used)
  return (⟨negated, value, count⟩, used + more)

/-- The items of an operand list up to the first mistake. -/
def readAll : List Token → List DataItem × Option (Token × Problem)
  | [] => ([], none)
  | t :: rest =>
    match read t rest with
    | .error mistake => ([], some mistake)
    | .ok (item, used) =>
      let (items, mistake) := readAll (rest.drop used)
      (item :: items, mistake)
termination_by ts => ts.length
decreasing_by simp only [List.length_drop, List.length_cons]; omega

end DataItem

/-- A signed or an unsigned number of `width` bytes. -/
def fitsWidth (v : Int) (width : Nat) : Bool :=
  let least : Nat := 1 <<< (8 * width - 1)
  let bound : Nat := 1 <<< (8 * width)
  8 ≤ width || (-(least : Int) ≤ v && v < bound)

/-- The low bytes of a value as a number. -/
def truncate (v : Int) (width : Nat) : Int := v % (1 <<< (8 * width) : Nat)

namespace Reading

def writeValue (r : Reading) (note : Text) (t : Token) (a : Address) (v : Int) (width : Nat) :
    Reading :=
  if width == 8 then
    let (image, refused) := r.image.setDouble a (BitVec.ofInt 64 v)
    let r := { r with image := image }
    match refused with
    | some e => r.report note t (.address e)
    | none => r
  else { r with toSession := r.toSession.stored t note (r.image.store a v width) }

/-- Does the same at the data cursor a number of times, moving it ahead after each. -/
def storeCopies (put : Reading → Address → Reading) (width : Nat) : Nat → Reading → Reading
  | 0, r => r
  | n + 1, r => storeCopies put width n ((put r r.dataCursor).advanceData width)

/-- Stores zero in place of a label that is not defined yet. -/
def writePending (r : Reading) (note : Text) (t : Token) (a : Address) (width : Nat) : Reading :=
  let r := r.writeValue note t a 0 width
  { r with pending := r.pending ++ [⟨a, min width 4, t⟩] }

def storeInteger (r : Reading) (note : Text) (d : Directive) (item : DataItem) : Reading :=
  let t := item.token
  let width := d.width
  if t.kind.isInteger then
    let v := if item.negated then Literal.wrap64 (-t.value) else t.value
    let stored := if fitsWidth v width then v else truncate v width
    let r := if fitsWidth v width then r else r.report note t (.truncated v stored)
    storeCopies (fun r a => r.writeValue note t a stored width) width item.count r
  else if t.kind.isLabel && !item.negated then
    match r.lookup t.text with
    | some symbol =>
      storeCopies (fun r a => r.writeValue note t a symbol.address.toNat width) width item.count r
    | none => storeCopies (fun r a => r.writePending note t a width) width item.count r
  else r.report note t (.badInteger t.text d)

/-- The number that a token stands for as an operand of a real directive. -/
def realValue? (t : Token) : Option Binary64 :=
  if t.kind == .realNumber then some t.real
  else if t.kind.isInteger then some (Binary64.ofInt t.value)
  else if t.kind == .identifier then
    let name := t.text.lower
    if name == "inf" || name == "infinity" then some Binary64.infinity else none
  else none

def storeReal (r : Reading) (note : Text) (d : Directive) (item : DataItem) : Reading :=
  let t := item.token
  match realValue? t with
  | none => r.report note t (.badReal t.text d)
  | some x =>
    let x := if item.negated then x.negate else x
    if d == .float then
      if x.exceedsSingle then r.report note t (.realRange t.text d)
      else
        storeCopies (fun r a => r.writeValue note t a x.toSingle.toNat 4) 4 item.count r
    else storeCopies (fun r a => r.writeValue note t a x.toNat 8) 8 item.count r

/-- Stores the operands of a numeric directive, the first at a multiple of their size. -/
def storeNumeric (r : Reading) (note : Text) (d : Directive) (operands : List Token) : Reading :=
  let r := if r.cursors.autoAlign then r.align r.cursors.dataSegment d.width else r
  let (items, mistake) := DataItem.readAll operands
  let r := items.foldl (fun r item =>
    if d.isInteger then r.storeInteger note d item else r.storeReal note d item) r
  match mistake with
  | some (t, p) => r.report note t p
  | none => r

/-- Stores bytes at the data cursor up to the first that is refused. -/
def storeBytes (r : Reading) : Text → Reading × Option Image.AddressError
  | [] => (r, none)
  | b :: rest =>
    match r.image.store r.dataCursor b.toNat 1 with
    | (image, none) => storeBytes ({ r with image := image }.advanceData 1) rest
    | (image, some e) => ({ r with image := image }, some e)

/-- The text between the quotes of a string. -/
def stringBody (text : Text) : Text :=
  if 2 ≤ text.length then (text.drop 1).dropLast else text

/-- Stores the strings of a directive; all but one directive add a zero byte. -/
def storeStrings (r : Reading) (note : Text) (d : Directive) : List Token → Reading
  | [] => r
  | t :: rest =>
    if t.kind != .quotedString then (r.report note t (.badString t.text d)).storeStrings note d rest
    else
      let (bytes, problem) := Literal.unescape (stringBody t.text)
      let r :=
        match problem with
        | some e => r.report note t (.escape e)
        | none => r
      match r.storeBytes (if d == .ascii then bytes else bytes ++ [0]) with
      | (r, none) => r.storeStrings note d rest
      | (r, some e) => r.report note t (.address e)

def storeData (r : Reading) (note : Text) (d : Directive) (operands : List Token) : Reading :=
  if d.isString then r.storeStrings note d operands else r.storeNumeric note d operands

end Reading

end Rv32Assembler
