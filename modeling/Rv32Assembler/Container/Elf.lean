import Rv32Assembler.Container.LoadSegment
/-!
# ELF files

A 32-bit little-endian executable with one loadable program header for each segment. A segment's
bytes stand in the file at an offset that agrees with its load address modulo the page size.
-/

namespace Rv32Assembler.Elf

def headerSize : Nat := 52

def programHeaderSize : Nat := 32

def pageSize : Nat := 0x1000

def machineRiscV : Nat := 243

/-- The least multiple of the page size that is not below a number. -/
def pageUp (n : Nat) : Nat := (n + pageSize - 1) / pageSize * pageSize

def headersEnd (count : Nat) : Nat := headerSize + count * programHeaderSize

/-- The first place from `offset` on that agrees with an address modulo the page size. -/
def congruent (offset : Nat) (a : Address) : Nat :=
  offset + (a.toNat % pageSize + pageSize - offset % pageSize) % pageSize

theorem le_congruent (offset : Nat) (a : Address) : offset ≤ congruent offset a :=
  Nat.le_add_right _ _

theorem congruent_mod (offset : Nat) (a : Address) :
    congruent offset a % pageSize = a.toNat % pageSize := by
  simp only [congruent, pageSize]
  omega

/-- The segments with their places in a file that has `offset` bytes before them. -/
def placed (offset : Nat) : List LoadSegment → List (Nat × LoadSegment)
  | [] => []
  | s :: rest =>
    let start := congruent offset s.address
    (start, s) :: placed (start + s.data.length) rest

def layout (segments : List LoadSegment) : List (Nat × LoadSegment) :=
  placed (pageUp (headersEnd segments.length)) segments

def half (n : Nat) : List UInt8 := littleEndian 2 n

def word (n : Nat) : List UInt8 := littleEndian 4 n

def header (count : Nat) (entry : Address) (machine : Nat) : List UInt8 :=
  [0x7f, 0x45, 0x4c, 0x46, 1, 1, 1] ++ List.replicate 9 0
    ++ half 2 ++ half machine ++ word 1 ++ word entry.toNat ++ word headerSize ++ word 0 ++ word 0
    ++ half headerSize ++ half programHeaderSize ++ half count ++ half 0 ++ half 0 ++ half 0

@[simp]
theorem length_header (count : Nat) (entry : Address) (machine : Nat) :
    (header count entry machine).length = headerSize := by
  simp [header, half, word, headerSize]

/-- Readable, and executable or writable. -/
def flags (s : LoadSegment) : Nat := if s.executable then 5 else 6

def programHeader (offset : Nat) (s : LoadSegment) : List UInt8 :=
  word 1 ++ word offset ++ word s.address.toNat ++ word s.address.toNat ++ word s.data.length
    ++ word s.data.length ++ word (flags s) ++ word pageSize

@[simp]
theorem length_programHeader (offset : Nat) (s : LoadSegment) :
    (programHeader offset s).length = programHeaderSize := by
  simp [programHeader, word, programHeaderSize]

/-- The bytes of the placed segments after the first `done` bytes of the file. -/
def contents (done : Nat) : List (Nat × LoadSegment) → List UInt8
  | [] => []
  | (offset, s) :: rest =>
    List.replicate (offset - done) 0 ++ s.data ++ contents (offset + s.data.length) rest

/-- The file that loads the segments. -/
def file (segments : List LoadSegment) (entry : Address) (machine : Nat) : List UInt8 :=
  let placedSegments := layout segments
  header segments.length entry machine
    ++ placedSegments.flatMap (fun (offset, s) => programHeader offset s)
    ++ contents (headersEnd segments.length) placedSegments

end Rv32Assembler.Elf
