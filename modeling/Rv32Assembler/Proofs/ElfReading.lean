import Mathlib.Data.List.Forall2
import Rv32Assembler.Container.Elf
import Rv32Assembler.Proofs.Memory
import Rv32Assembler.Proofs.Spans
/-!
# ELF files read back

A reader of 32-bit little-endian ELF files, which goes by the fields of the headers and not by how a
file was built. In the file that loads some segments it finds the entry, the machine and, for each
segment in turn, a program header that leads to the segment's bytes (`exists_read?_file`). The bytes of
the segments follow one another behind the headers; only the gaps between them, which bring every
segment to the right place of its page, are not read.
-/

namespace Rv32Assembler.Elf

/-! ### The reader -/

/-- The little-endian numbers of the given widths that stand one after the other. -/
def fields? : List Nat → List UInt8 → Option (List Nat)
  | [], _ => some []
  | width :: widths, bytes =>
    if bytes.length < width then none
    else (fields? widths (bytes.drop width)).map (ofLittleEndian (bytes.take width) :: ·)

/-- The magic number, then: 32 bits, little-endian, the current version. -/
def identification : List UInt8 := [0x7f, 0x45, 0x4c, 0x46, 1, 1, 1]

/-- What the header of a file says. -/
structure Header where
  type : Nat
  machine : Nat
  version : Nat
  entry : Nat
  programHeaderOffset : Nat
  sectionHeaderOffset : Nat
  flags : Nat
  size : Nat
  programHeaderSize : Nat
  programHeaderCount : Nat
  sectionHeaderSize : Nat
  sectionHeaderCount : Nat
  sectionNameIndex : Nat
  deriving DecidableEq, Repr

def Header.read? (bytes : List UInt8) : Option Header :=
  if bytes.take 7 = identification then
    match fields? [2, 2, 4, 4, 4, 4, 4, 2, 2, 2, 2, 2, 2] (bytes.drop 16) with
    | some [type, machine, version, entry, phoff, shoff, flags, ehsize, phentsize, phnum, shentsize,
        shnum, shstrndx] =>
      some ⟨type, machine, version, entry, phoff, shoff, flags, ehsize, phentsize, phnum, shentsize,
        shnum, shstrndx⟩
    | _ => none
  else none

/-- What a program header says. -/
structure ProgramHeader where
  type : Nat
  offset : Nat
  virtualAddress : Nat
  physicalAddress : Nat
  fileSize : Nat
  memorySize : Nat
  flags : Nat
  alignment : Nat
  deriving DecidableEq, Repr

def ProgramHeader.read? (bytes : List UInt8) : Option ProgramHeader :=
  match fields? [4, 4, 4, 4, 4, 4, 4, 4] bytes with
  | some [type, offset, vaddr, paddr, filesz, memsz, flags, align] =>
    some ⟨type, offset, vaddr, paddr, filesz, memsz, flags, align⟩
  | _ => none

/-- The program headers of 32 bytes that stand one after the other. -/
def ProgramHeader.readTable? : Nat → List UInt8 → Option (List ProgramHeader)
  | 0, _ => some []
  | count + 1, bytes => do
    let first ← read? bytes
    let rest ← readTable? count (bytes.drop 32)
    return first :: rest

/-- The headers of a file. -/
structure Headers where
  header : Header
  segments : List ProgramHeader
  deriving DecidableEq, Repr

/-- Reads the header, and from it the number and the place of the program headers. -/
def Headers.read? (file : List UInt8) : Option Headers := do
  let header ← Header.read? file
  if header.programHeaderSize ≠ 32 then none
  let segments ← ProgramHeader.readTable? header.programHeaderCount
    (file.drop header.programHeaderOffset)
  return ⟨header, segments⟩

/-- The program header loads the segment: readable, and executable or writable, at its address and
from its bytes in the file. -/
structure ProgramHeader.Loads (p : ProgramHeader) (file : List UInt8) (s : LoadSegment) : Prop where
  type : p.type = 1
  virtualAddress : p.virtualAddress = s.address.toNat
  physicalAddress : p.physicalAddress = s.address.toNat
  fileSize : p.fileSize = s.data.length
  memorySize : p.memorySize = s.data.length
  flags : p.flags = if s.executable then 4 + 1 else 4 + 2
  aligned : p.offset % 4096 = p.virtualAddress % 4096
  content : Text.slice? file p.offset (p.offset + p.fileSize) = some s.data

/-- The headers of the file say that it loads the segments, in order, from places behind the headers
and behind one another. -/
structure Headers.Load (h : Headers) (file : List UInt8) (segments : List LoadSegment)
    (entry : Address) (machine : UInt16) : Prop where
  entry : h.header.entry = entry.toNat
  machine : h.header.machine = machine.toNat
  loads : List.Forall₂ (fun p s => ProgramHeader.Loads p file s) h.segments segments
  ordered : h.segments.Pairwise fun p q => p.offset + p.fileSize ≤ q.offset
  behind : ∀ p ∈ h.segments, h.header.size ≤ p.offset ∧
    h.header.programHeaderOffset + h.header.programHeaderCount * 32 ≤ p.offset

/-! ### Fields -/

theorem fields?_append {fields : List (Nat × Nat)} (h : ∀ f ∈ fields, f.2 < 256 ^ f.1)
    (rest : List UInt8) :
    fields? (fields.map Prod.fst) ((fields.flatMap fun f => littleEndian f.1 f.2) ++ rest)
      = some (fields.map Prod.snd) := by
  induction fields with
  | nil => rfl
  | cons f fields ih =>
    obtain ⟨width, value⟩ := f
    have hlength : (littleEndian width value).length = width := length_littleEndian ..
    have hvalue : ofLittleEndian (littleEndian width value) = value := by
      have hread := ofLittleEndian_littleEndian width value
      have hfits : value < 256 ^ width := h _ (List.mem_cons_self ..)
      rw [Int.emod_eq_of_lt (Int.natCast_nonneg _) (by exact_mod_cast hfits)] at hread
      exact_mod_cast hread
    rw [List.map_cons, List.flatMap_cons, List.append_assoc, fields?, if_neg (by simp),
      List.drop_left' hlength, List.take_left' hlength, hvalue,
      ih fun f hf => h f (List.mem_cons_of_mem _ hf)]
    rfl

/-- The fields of the header after the identification, each with its width. -/
def headerFields (count : Nat) (entry : Address) (machine : Nat) : List (Nat × Nat) :=
  [(2, 2), (2, machine), (4, 1), (4, entry.toNat), (4, headerSize), (4, 0), (4, 0), (2, headerSize),
   (2, programHeaderSize), (2, count), (2, 0), (2, 0), (2, 0)]

/-- The fields of the program header of a segment, each with its width. -/
def programHeaderFields (offset : Nat) (s : LoadSegment) : List (Nat × Nat) :=
  [(4, 1), (4, offset), (4, s.address.toNat), (4, s.address.toNat), (4, s.data.length),
   (4, s.data.length), (4, flags s), (4, pageSize)]

theorem header_eq (count : Nat) (entry : Address) (machine : Nat) :
    header count entry machine = identification ++ List.replicate 9 0 ++
      (headerFields count entry machine).flatMap fun f => littleEndian f.1 f.2 := by
  simp [header, headerFields, half, word, identification]

theorem programHeader_eq (offset : Nat) (s : LoadSegment) :
    programHeader offset s = (programHeaderFields offset s).flatMap fun f => littleEndian f.1 f.2 := by
  simp [programHeader, programHeaderFields, word]

def headerOf (count : Nat) (entry : Address) (machine : Nat) : Header :=
  ⟨2, machine, 1, entry.toNat, headerSize, 0, 0, headerSize, programHeaderSize, count, 0, 0, 0⟩

theorem read?_header {count : Nat} (hcount : count < 65536) (entry : Address) (machine : UInt16)
    (rest : List UInt8) :
    Header.read? (header count entry machine.toNat ++ rest)
      = some (headerOf count entry machine.toNat) := by
  have hwidths : ∀ f ∈ headerFields count entry machine.toNat, f.2 < 256 ^ f.1 := by
    have hmachine : machine.toNat < 65536 := machine.toNat_lt
    have hentry : entry.toNat < 4294967296 := entry.isLt
    simpa [headerFields, headerSize, programHeaderSize] using ⟨hmachine, hentry, hcount⟩
  have hfields := fields?_append hwidths rest
  have hdrop : (header count entry machine.toNat ++ rest).drop 16
      = (headerFields count entry machine.toNat).flatMap (fun f => littleEndian f.1 f.2) ++ rest := by
    rw [header_eq, List.append_assoc]
    exact List.drop_left' rfl
  have htake : (header count entry machine.toNat ++ rest).take 7 = identification := by
    rw [header_eq]
    rfl
  simp only [headerFields, List.map_cons, List.map_nil] at hfields
  rw [Header.read?, if_pos htake, hdrop, headerFields, hfields]
  rfl

def rowOf (p : Nat × LoadSegment) : ProgramHeader :=
  ⟨1, p.1, p.2.address.toNat, p.2.address.toNat, p.2.data.length, p.2.data.length, flags p.2, pageSize⟩

theorem read?_programHeader {offset : Nat} (hoffset : offset < 2 ^ 32) {s : LoadSegment}
    (hdata : s.data.length < 2 ^ 32) (rest : List UInt8) :
    ProgramHeader.read? (programHeader offset s ++ rest) = some (rowOf (offset, s)) := by
  have hwidths : ∀ f ∈ programHeaderFields offset s, f.2 < 256 ^ f.1 := by
    have haddress : s.address.toNat < 4294967296 := s.address.isLt
    have hflags : flags s < 4294967296 := by
      unfold flags
      split <;> decide
    simpa [programHeaderFields, pageSize] using ⟨hoffset, haddress, hdata, hflags⟩
  have hfields := fields?_append hwidths rest
  simp only [programHeaderFields, List.map_cons, List.map_nil] at hfields
  rw [ProgramHeader.read?, programHeader_eq, programHeaderFields, hfields]
  rfl

theorem readTable?_append {placedSegments : List (Nat × LoadSegment)}
    (h : ∀ p ∈ placedSegments, p.1 + p.2.data.length < 2 ^ 32) (rest : List UInt8) :
    ProgramHeader.readTable? placedSegments.length
        (placedSegments.flatMap (fun (offset, s) => programHeader offset s) ++ rest)
      = some (placedSegments.map rowOf) := by
  induction placedSegments with
  | nil => rfl
  | cons p later ih =>
    obtain ⟨offset, s⟩ := p
    have hfits : offset + s.data.length < 2 ^ 32 := h _ (List.mem_cons_self ..)
    have hlength : (programHeader offset s).length = 32 := length_programHeader offset s
    rw [List.flatMap_cons, List.append_assoc, List.length_cons, ProgramHeader.readTable?,
      read?_programHeader (by omega) (by omega), List.drop_left' hlength,
      ih fun q hq => h q (List.mem_cons_of_mem _ hq)]
    rfl

/-! ### Places in the file -/

@[simp]
theorem map_snd_placed (offset : Nat) (segments : List LoadSegment) :
    (placed offset segments).map Prod.snd = segments := by
  induction segments generalizing offset with
  | nil => rfl
  | cons s rest ih => rw [placed, List.map_cons, ih]

theorem le_of_mem_placed {offset : Nat} {segments : List LoadSegment} {p : Nat × LoadSegment}
    (h : p ∈ placed offset segments) : offset ≤ p.1 := by
  induction segments generalizing offset with
  | nil => cases h
  | cons s rest ih =>
    have hstart := le_congruent offset s.address
    rcases List.mem_cons.1 h with rfl | h
    · exact hstart
    · have hlater := ih h
      omega

theorem pairwise_placed (offset : Nat) (segments : List LoadSegment) :
    (placed offset segments).Pairwise fun p q => p.1 + p.2.data.length ≤ q.1 := by
  induction segments generalizing offset with
  | nil => exact .nil
  | cons s rest ih => exact .cons (fun q hq => le_of_mem_placed hq) (ih _)

theorem mod_of_mem_placed {offset : Nat} {segments : List LoadSegment} {p : Nat × LoadSegment}
    (h : p ∈ placed offset segments) : p.1 % pageSize = p.2.address.toNat % pageSize := by
  induction segments generalizing offset with
  | nil => cases h
  | cons s rest ih =>
    rcases List.mem_cons.1 h with rfl | h
    · exact congruent_mod offset s.address
    · exact ih h

/-- The bytes of each segment are at its place in the file. -/
theorem slice?_contents {front : List UInt8} {offset : Nat} (hfront : front.length ≤ offset)
    {segments : List LoadSegment} {p : Nat × LoadSegment} (h : p ∈ placed offset segments) :
    Text.slice? (front ++ contents front.length (placed offset segments)) p.1
        (p.1 + p.2.data.length) = some p.2.data := by
  induction segments generalizing front offset with
  | nil => cases h
  | cons s rest ih =>
    have hstart := le_congruent offset s.address
    have hpadded : (front ++ List.replicate (congruent offset s.address - front.length) 0).length
        = congruent offset s.address := by
      rw [List.length_append, List.length_replicate]
      omega
    have hdone : (front ++ List.replicate (congruent offset s.address - front.length) 0
        ++ s.data).length = congruent offset s.address + s.data.length := by
      rw [List.length_append, hpadded]
    rw [placed, contents]
    simp only [← List.append_assoc]
    rcases List.mem_cons.1 h with rfl | h
    · have hslice := Text.slice?_append
        (front ++ List.replicate (congruent offset s.address - front.length) 0) s.data
        (contents (congruent offset s.address + s.data.length)
          (placed (congruent offset s.address + s.data.length) rest))
      rwa [hpadded] at hslice
    · have hrest := ih (Nat.le_of_eq hdone) h
      rwa [hdone] at hrest

/-! ### The file read back -/

theorem length_layout (segments : List LoadSegment) : (layout segments).length = segments.length := by
  rw [← List.length_map (f := Prod.snd), layout, map_snd_placed]

theorem headersEnd_le_pageUp (count : Nat) : headersEnd count ≤ pageUp (headersEnd count) := by
  unfold pageUp pageSize
  omega

theorem length_table (placedSegments : List (Nat × LoadSegment)) :
    (placedSegments.flatMap fun (offset, s) => programHeader offset s).length
      = placedSegments.length * 32 := by
  induction placedSegments with
  | nil => rfl
  | cons p later ih =>
    rw [List.flatMap_cons, List.length_append, ih, List.length_cons, length_programHeader,
      programHeaderSize]
    omega

theorem slice?_file (segments : List LoadSegment) (entry : Address) (machine : Nat)
    {p : Nat × LoadSegment} (h : p ∈ layout segments) :
    Text.slice? (file segments entry machine) p.1 (p.1 + p.2.data.length) = some p.2.data := by
  have hfront : (header segments.length entry machine
      ++ (layout segments).flatMap fun (offset, s) => programHeader offset s).length
        = headersEnd segments.length := by
    rw [List.length_append, length_header, length_table, length_layout]
    rfl
  have hslice := slice?_contents (hfront.trans_le (headersEnd_le_pageUp _)) h
  rw [hfront] at hslice
  exact hslice

/-- Reading the file that loads some segments gives back the entry, the machine and the segments. -/
theorem exists_read?_file {segments : List LoadSegment} (entry : Address) (machine : UInt16)
    (hcount : segments.length < 65536)
    (hsize : (file segments entry machine.toNat).length < 2 ^ 32) :
    ∃ h, Headers.read? (file segments entry machine.toNat) = some h ∧
      h.Load (file segments entry machine.toNat) segments entry machine := by
  have hslice {p : Nat × LoadSegment} (hp : p ∈ layout segments) :=
    slice?_file segments entry machine.toNat hp
  have hfits : ∀ p ∈ layout segments, p.1 + p.2.data.length < 2 ^ 32 := by
    intro p hp
    have hstop := (Text.le_of_slice? (hslice hp)).2
    omega
  have hparts : file segments entry machine.toNat = header segments.length entry machine.toNat
      ++ ((layout segments).flatMap (fun (offset, s) => programHeader offset s)
        ++ contents (headersEnd segments.length) (layout segments)) := List.append_assoc ..
  have htable : ProgramHeader.readTable? segments.length
      ((file segments entry machine.toNat).drop headerSize) = some ((layout segments).map rowOf) := by
    rw [hparts, List.drop_left' (length_header ..), ← length_layout segments]
    exact readTable?_append hfits _
  have hread : Headers.read? (file segments entry machine.toNat)
      = some ⟨headerOf segments.length entry machine.toNat, (layout segments).map rowOf⟩ := by
    have hheader := read?_header hcount entry machine
      ((layout segments).flatMap (fun (offset, s) => programHeader offset s)
        ++ contents (headersEnd segments.length) (layout segments))
    rw [← hparts] at hheader
    rw [Headers.read?, hheader]
    simp only [Option.bind_eq_bind, Option.bind_some, headerOf, programHeaderSize, htable]
    rfl
  refine ⟨_, hread, rfl, rfl, ?_, ?_, ?_⟩
  · have hsegments : (layout segments).map Prod.snd = segments := map_snd_placed _ segments
    conv => arg 3; rw [← hsegments]
    rw [List.forall₂_map_left_iff, List.forall₂_map_right_iff, List.forall₂_same]
    intro p hp
    exact ⟨rfl, rfl, rfl, rfl, rfl, rfl, mod_of_mem_placed hp, hslice hp⟩
  · exact List.pairwise_map.2 (pairwise_placed _ segments)
  · intro p hp
    obtain ⟨q, hq, rfl⟩ := List.mem_map.1 hp
    have hbehind := Nat.le_trans (headersEnd_le_pageUp segments.length) (le_of_mem_placed hq)
    exact ⟨Nat.le_trans (Nat.le_add_right ..) hbehind, hbehind⟩

/-- Segments at addresses that no page starts at; one of them is empty, and one crosses a page. -/
def scatteredSegments : List LoadSegment :=
  [⟨".text", 0x00400002, [0x93, 0x82, 0x12, 0], true⟩, ⟨".data", 0x10010ffe, [1, 2, 3, 4], false⟩,
   ⟨".ktext", 0x80000004, [], true⟩, ⟨".kdata", 0xfffffffc, [5, 6, 7], false⟩]

theorem exists_read?_scatteredSegments :
    (file scatteredSegments 0x00400002 (243 : UInt16).toNat).length = 12287 ∧
      ∃ h, Headers.read? (file scatteredSegments 0x00400002 (243 : UInt16).toNat) = some h ∧
        h.Load (file scatteredSegments 0x00400002 (243 : UInt16).toNat) scatteredSegments 0x00400002
          243 := by
  have hlayout : layout scatteredSegments = [(4098, ⟨".text", 0x00400002, [0x93, 0x82, 0x12, 0], true⟩),
      (8190, ⟨".data", 0x10010ffe, [1, 2, 3, 4], false⟩), (8196, ⟨".ktext", 0x80000004, [], true⟩),
      (12284, ⟨".kdata", 0xfffffffc, [5, 6, 7], false⟩)] := by decide
  have hlength : (file scatteredSegments 0x00400002 (243 : UInt16).toNat).length = 12287 := by
    simp only [file, hlayout, contents, List.length_append, List.length_replicate, length_header,
      length_table]
    rfl
  exact ⟨hlength, exists_read?_file 0x00400002 243 (by decide) (by rw [hlength]; decide)⟩

end Rv32Assembler.Elf
