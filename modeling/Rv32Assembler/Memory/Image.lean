import Rv32Assembler.Isa.Encoding
import Rv32Assembler.Literal.Binary
import Rv32Assembler.Memory.Layout
import Rv32Assembler.Memory.LittleEndian
import Rv32Assembler.Outcome
import Std.Data.ExtTreeMap
/-!
# Memory images

An image is a sparse map from addresses to bytes, little-endian for wider values, together with the
statements placed in its text segments. Unwritten bytes read as zero.
-/

namespace Rv32Assembler

/-- A sparse little-endian memory with statements of type `σ`. -/
structure Image (σ : Type) where
  layout : Layout
  bytes : Std.ExtTreeMap Address UInt8 := ∅
  statements : Std.ExtTreeMap Address σ := ∅

namespace Image

/-- Why an access is refused. -/
inductive Reason where
  | width (width : Int)
  | alignment (width : Int)
  | unmapped
  | notText
  | noNull
  deriving DecidableEq, Repr

def Reason.message : Reason → Text
  | width w => "unsupported access width " ++ Text.decimal w
  | alignment w => "not aligned on a " ++ Text.decimal w ++ "-byte boundary"
  | unmapped => "out of range"
  | notText => "not in a text segment"
  | noNull => "no null byte before limit"

structure AddressError where
  address : Address
  reason : Reason
  deriving DecidableEq, Repr

def AddressError.message (e : AddressError) : Text :=
  "address " ++ Text.word e.address ++ ": " ++ e.reason.message

variable {σ : Type}

def empty (layout : Layout) : Image σ := { layout := layout }

/-- The number of bytes of an admissible access: one, two or four at a multiple of the number, in a
segment. -/
def check (m : Image σ) (a : Address) (width : Int) : Except AddressError Nat :=
  if width == 1 || width == 2 || width == 4 then
    if a.toNat % width.toNat != 0 then .error ⟨a, .alignment width⟩
    else if !m.layout.mapped a then .error ⟨a, .unmapped⟩
    else .ok width.toNat
  else .error ⟨a, .width width⟩

def byte (m : Image σ) (a : Address) : UInt8 := m.bytes[a]?.getD 0

def write (m : Image σ) (a : Address) : List UInt8 → Image σ
  | [] => m
  | b :: rest => write { m with bytes := m.bytes.insert a b } (a + 1) rest

@[simp]
theorem layout_write (m : Image σ) (a : Address) (bytes : List UInt8) :
    (m.write a bytes).layout = m.layout := by
  induction bytes generalizing m a with
  | nil => rfl
  | cons b rest ih => exact ih _ _

/-- Stores the low bytes of a value: the image as it is then, and why the access is refused. -/
def store (m : Image σ) (a : Address) (v : Int) (width : Int) : Image σ × Option AddressError :=
  match m.check a width with
  | .error e => (m, some e)
  | .ok n => (m.write a (littleEndian n v), none)

/-- Stores a doubleword as two words. The first stays when the second is refused. -/
def setDouble (m : Image σ) (a : Address) (v : BitVec 64) : Image σ × Option AddressError :=
  match m.store a (v.extractLsb' 0 32).toNat 4 with
  | (m, some e) => (m, some e)
  | (m, none) => m.store (a + 4) (v.extractLsb' 32 32).toNat 4

/-- Places a statement with its machine word at a text address: the image as it is then, and why the
access is refused. -/
def storeStatement (m : Image σ) (a : Address) (code : Word) (s : σ) :
    Image σ × Option AddressError :=
  if m.layout.inText a then
    match m.store a code.toNat 4 with
    | (m, some e) => (m, some e)
    | (m, none) => ({ m with statements := m.statements.insert a s }, none)
  else (m, some ⟨a, .notText⟩)

/-- The image after an admissible store. -/
def set (m : Image σ) (a : Address) (v : Int) (width : Int) : Except AddressError (Image σ) :=
  settled (m.store a v width)

/-- The image after a statement was placed. -/
def setStatement (m : Image σ) (a : Address) (code : Word) (s : σ) :
    Except AddressError (Image σ) :=
  settled (m.storeStatement a code s)

def statement (m : Image σ) (a : Address) : Option σ := m.statements[a]?

def bytesFrom (m : Image σ) (a : Address) (count : Nat) : List UInt8 :=
  (List.range count).map fun i => m.byte (a + BitVec.ofNat 32 i)

def get (m : Image σ) (a : Address) (width : Int) : Except AddressError Nat :=
  (m.check a width).map fun n => ofLittleEndian (m.bytesFrom a n)

def word (m : Image σ) (a : Address) : Except AddressError Word :=
  (m.get a 4).map (BitVec.ofNat 32)

/-- The written bytes by address. -/
def written (m : Image σ) : List (Address × UInt8) := m.bytes.toList

def firstNullFrom (m : Image σ) (a : Address) : Nat → Option Address
  | 0 => none
  | n + 1 => if m.byte a == 0 then some a else m.firstNullFrom (a + 1) n

/-- The first address up to and with `last` that holds zero. -/
def firstNull (m : Image σ) (first last : Address) : Except AddressError Address :=
  match m.firstNullFrom first (last.toNat + 1 - first.toNat) with
  | some a => .ok a
  | none => .error ⟨first, .noNull⟩

/-- The lowest written address of a range and the one after the highest; the latter wraps to zero
at the end of the address space, where any other end comes before it. -/
def extent (m : Image σ) (first last : Address) : Option (Address × Address) :=
  match (m.written.map Prod.fst).filter fun a => first.ule a && a.ule last with
  | [] => none
  | a :: rest =>
    some (a, rest.foldl (fun stop b => if stop.ult (b + 1) then b + 1 else stop) (a + 1))

def slice (m : Image σ) (first stop : Address) : List UInt8 :=
  m.bytesFrom first (stop.toNat - first.toNat)

/-- Every written byte after its address, in the order of addresses. -/
def dump (m : Image σ) : List UInt8 :=
  m.written.flatMap fun (a, b) => littleEndian 4 a.toNat ++ [b]

/-- Joins a byte to the run that it continues. -/
def joinRun (entry : Address × UInt8) : List (Address × List UInt8) → List (Address × List UInt8)
  | [] => [(entry.1, [entry.2])]
  | (start, run) :: runs =>
    if entry.1 + 1 = start then (entry.1, entry.2 :: run) :: runs
    else (entry.1, [entry.2]) :: (start, run) :: runs

/-- The written bytes as maximal runs of neighbours. -/
def runs (m : Image σ) : List (Address × List UInt8) := m.written.foldr joinRun []

end Image

end Rv32Assembler
