import Rv32Assembler.Container.LoadSegment
/-!
# Intel HEX files

A file of records, a line each, in upper-case hexadecimal: data at the lower sixteen bits of its
address, the upper sixteen bits where they change, the entry, and an end.
-/

namespace Rv32Assembler.IntelHex

def recordLength : Nat := 16

inductive RecordType where
  | data
  | endOfFile
  | extendedAddress
  | startAddress
  deriving DecidableEq, Repr

def RecordType.code : RecordType → UInt8
  | data => 0
  | endOfFile => 1
  | extendedAddress => 4
  | startAddress => 5

structure Record where
  type : RecordType
  offset : BitVec 16 := 0
  data : List UInt8
  deriving DecidableEq, Repr

namespace Record

def body (r : Record) : List UInt8 :=
  [UInt8.ofNat r.data.length, UInt8.ofNat (r.offset.toNat / 256), UInt8.ofNat r.offset.toNat,
   r.type.code] ++ r.data

/-- The byte that brings the sum of the record to zero. -/
def checksum (r : Record) : UInt8 := -(r.body.foldl (· + ·) 0)

/-- Two upper-case digits. -/
def upperHex (b : UInt8) : Text :=
  let digit (n : Nat) : UInt8 := if n < 10 then UInt8.ofNat (48 + n) else UInt8.ofNat (55 + n)
  [digit (b.toNat / 16), digit (b.toNat % 16)]

def render (r : Record) : Text := 0x3a :: (r.body ++ [r.checksum]).flatMap upperHex ++ [0x0a]

end Record

/-- The number of bytes of the record at an address: it stops at the 64 KiB boundary. -/
def chunk (a : Address) (length : Nat) : Nat :=
  min (min recordLength length) (0x10000 - a.toNat % 0x10000)

theorem chunk_pos (a : Address) {length : Nat} (h : 0 < length) : 0 < chunk a length := by
  unfold chunk recordLength
  omega

theorem chunk_le_length (a : Address) (length : Nat) : chunk a length ≤ length := by
  unfold chunk
  omega

/-- A record does not cross a 64 KiB boundary. -/
theorem chunk_fits (a : Address) (length : Nat) : a.toNat % 0x10000 + chunk a length ≤ 0x10000 := by
  unfold chunk
  omega

/-- The record of the upper half of an address, unless it is `upper`. -/
def extension (upper : Option (BitVec 16)) (a : Address) : List Record :=
  let high := a.extractLsb' 16 16
  if upper == some high then []
  else
    [{ type := .extendedAddress,
       data := [UInt8.ofNat (high.toNat / 256), UInt8.ofNat high.toNat] }]

/-- The records of data at an address; `upper` is the upper half in force. -/
def dataRecords (upper : Option (BitVec 16)) (a : Address) (data : List UInt8) : List Record :=
  match data with
  | [] => []
  | b :: rest =>
    let n := chunk a (b :: rest).length
    extension upper a
      ++ { type := .data, offset := a.extractLsb' 0 16, data := (b :: rest).take n }
      :: dataRecords (some (a.extractLsb' 16 16)) (a + BitVec.ofNat 32 n) (rest.drop (n - 1))
termination_by data.length
decreasing_by simp only [List.length_drop, List.length_cons]; omega

def start (entry : Address) : Record :=
  { type := .startAddress, data := (littleEndian 4 entry.toNat).reverse }

def records (segments : List LoadSegment) (entry : Address) : List Record :=
  (segments.flatMap fun s => dataRecords none s.address s.data)
    ++ [start entry, { type := .endOfFile, data := [] }]

def file (segments : List LoadSegment) (entry : Address) : Text :=
  (records segments entry).flatMap Record.render

end Rv32Assembler.IntelHex
