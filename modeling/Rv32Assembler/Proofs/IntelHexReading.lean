import Mathlib.Data.List.Basic
import Rv32Assembler.Container.IntelHex
import Rv32Assembler.Proofs.Memory
/-!
# Intel HEX files read back

A reader of Intel HEX files: lines of hexadecimal digits, records with a length and a checksum, and
the bytes that the records put at addresses. It reads the file of some segments without complaint and
finds their bytes, in order, and the entry (`read?_file`). The records of a segment are cut where
sixteen bytes are full or a block of 64 KiB ends, and the upper half of the address is given anew
whenever it changes, also where the address space starts over.
-/

namespace Rv32Assembler.IntelHex

/-! ### The reader -/

/-- The value of a hexadecimal digit, of either case. -/
def digitValue? (b : UInt8) : Option Nat :=
  if 0x30 ≤ b ∧ b ≤ 0x39 then some (b.toNat - 0x30)
  else if 0x41 ≤ b ∧ b ≤ 0x46 then some (b.toNat - 0x41 + 10)
  else if 0x61 ≤ b ∧ b ≤ 0x66 then some (b.toNat - 0x61 + 10)
  else none

def pairs? : Text → Option (List UInt8)
  | [] => some []
  | [_] => none
  | high :: low :: rest => do
    let upper ← digitValue? high
    let lower ← digitValue? low
    let bytes ← pairs? rest
    return UInt8.ofNat (16 * upper + lower) :: bytes

/-- The bytes of a line: a colon, then pairs of digits. -/
def row? : Text → Option (List UInt8)
  | 0x3a :: digits => pairs? digits
  | _ => none

/-- The bytes of each line that is not empty. -/
def rows? (text : Text) : Option (List (List UInt8)) :=
  ((text.splitOn 0x0a).filter fun line => !line.isEmpty).mapM row?

def RecordType.ofCode? (code : UInt8) : Option RecordType :=
  if code = 0 then some data
  else if code = 1 then some endOfFile
  else if code = 4 then some extendedAddress
  else if code = 5 then some startAddress
  else none

/-- The record of a line: a length, two bytes of offset, a type, as many data bytes as the length
says, and a checksum. -/
def Record.ofRow? (row : List UInt8) : Option Record :=
  match row with
  | length :: high :: low :: code :: rest =>
    if rest.length = length.toNat + 1 ∧ (row.map UInt8.toNat).sum % 256 = 0 then
      (RecordType.ofCode? code).map fun type =>
        ⟨type, BitVec.ofNat 16 (256 * high.toNat + low.toNat), rest.dropLast⟩
    else none
  | _ => none

/-- Bytes at consecutive addresses, which go on at zero after the last. -/
def bytesAt (a : Address) (data : List UInt8) : List (Address × UInt8) :=
  data.zipIdx.map fun (b, i) => (a + BitVec.ofNat 32 i, b)

structure Contents where
  bytes : List (Address × UInt8) := []
  starts : List Address := []
  deriving DecidableEq, Repr

/-- What the records say where `upper` is the upper half of the addresses. The record that ends the
file is the last and there is no other of its type. -/
def load? (upper : BitVec 16) : List Record → Option Contents
  | [] => none
  | r :: rest =>
    match r.type, r.data with
    | .endOfFile, [] => if rest.isEmpty then some {} else none
    | .data, data =>
      (load? upper rest).map fun c => { c with bytes := bytesAt (upper ++ r.offset) data ++ c.bytes }
    | .extendedAddress, [high, low] => load? (BitVec.ofNat 16 (256 * high.toNat + low.toNat)) rest
    | .startAddress, [b₃, b₂, b₁, b₀] =>
      (load? upper rest).map fun c =>
        { c with starts := BitVec.ofNat 32 (ofLittleEndian [b₀, b₁, b₂, b₃]) :: c.starts }
    | _, _ => none

def read? (text : Text) : Option Contents := do
  let rows ← rows? text
  let records ← rows.mapM Record.ofRow?
  load? 0 records

/-- A line with as many data bytes as its first byte says, at most sixteen, and with a sum of zero. -/
structure IsSound (row : List UInt8) : Prop where
  length : row.length = (row.headD 0).toNat + 5
  short : (row.headD 0).toNat ≤ 16
  sum : (row.map UInt8.toNat).sum % 256 = 0

/-- A record of at most sixteen bytes, which stay in one block of 64 KiB. -/
structure Record.IsShort (r : Record) : Prop where
  length : r.data.length ≤ 16
  block : r.type = .data → r.offset.toNat + r.data.length ≤ 0x10000

/-! ### Digits -/

theorem pairs?_upperHex (b : UInt8) (rest : Text) :
    pairs? (Record.upperHex b ++ rest) = (pairs? rest).map (b :: ·) := by
  have hdigit : ∀ n < 16, digitValue? (if n < 10 then UInt8.ofNat (48 + n) else UInt8.ofNat (55 + n))
      = some n := by decide
  have hlt : b.toNat < 256 := b.toNat_lt
  have hjoined : UInt8.ofNat (16 * (b.toNat / 16) + b.toNat % 16) = b := by
    rw [Nat.div_add_mod, UInt8.ofNat_toNat]
  simp only [Record.upperHex, List.cons_append, List.nil_append, pairs?,
    hdigit (b.toNat / 16) (by omega), hdigit (b.toNat % 16) (by omega), Option.bind_eq_bind,
    Option.bind_some, hjoined]
  cases pairs? rest <;> rfl

theorem pairs?_flatMap (bytes : List UInt8) : pairs? (bytes.flatMap Record.upperHex) = some bytes := by
  induction bytes with
  | nil => rfl
  | cons b bytes ih => rw [List.flatMap_cons, pairs?_upperHex, ih, Option.map_some]

theorem not_mem_upperHex (b : UInt8) : (0x0a : UInt8) ∉ Record.upperHex b := by
  have hdigit : ∀ n < 16, (if n < 10 then UInt8.ofNat (48 + n) else UInt8.ofNat (55 + n)) ≠ 0x0a := by
    decide
  have hlt : b.toNat < 256 := b.toNat_lt
  simp only [Record.upperHex, List.mem_cons, List.not_mem_nil, or_false, not_or]
  exact ⟨(hdigit _ (by omega)).symm, (hdigit _ (by omega)).symm⟩

/-! ### Lines -/

theorem splitOn_append {separator : UInt8} {line : Text} (h : separator ∉ line) (rest : Text) :
    Text.splitOn separator (line ++ separator :: rest) = line :: Text.splitOn separator rest := by
  induction line with
  | nil => rw [List.nil_append, Text.splitOn, if_pos (beq_self_eq_true separator)]
  | cons b line ih =>
    rw [List.mem_cons, not_or] at h
    rw [List.cons_append, Text.splitOn, if_neg (by simpa using Ne.symm h.1), ih h.2]

def Record.row (r : Record) : List UInt8 := r.body ++ [r.checksum]

theorem render_eq (r : Record) :
    r.render = (0x3a :: r.row.flatMap Record.upperHex) ++ [0x0a] := rfl

theorem splitOn_render (records : List Record) :
    Text.splitOn 0x0a (records.flatMap Record.render)
      = records.map (fun r => 0x3a :: r.row.flatMap Record.upperHex) ++ [[]] := by
  induction records with
  | nil => rfl
  | cons r records ih =>
    have hline : (0x0a : UInt8) ∉ 0x3a :: r.row.flatMap Record.upperHex := by
      rw [List.mem_cons, not_or, List.mem_flatMap]
      refine ⟨by decide, ?_⟩
      rintro ⟨b, -, hb⟩
      exact not_mem_upperHex b hb
    rw [List.flatMap_cons, render_eq, List.append_assoc, List.singleton_append, splitOn_append hline,
      ih, List.map_cons, List.cons_append]

theorem rows?_flatMap (records : List Record) :
    rows? (records.flatMap Record.render) = some (records.map Record.row) := by
  have hlines : (records.map fun r => 0x3a :: r.row.flatMap Record.upperHex).filter
      (fun line => !line.isEmpty) = records.map fun r => 0x3a :: r.row.flatMap Record.upperHex := by
    apply List.filter_eq_self.2
    intro line hline
    obtain ⟨r, -, rfl⟩ := List.mem_map.1 hline
    rfl
  rw [rows?, splitOn_render, List.filter_append, hlines, List.filter_cons_of_neg (by simp),
    List.filter_nil, List.append_nil, List.mapM_map]
  have hrow : (row? ∘ fun r => 0x3a :: r.row.flatMap Record.upperHex)
      = fun r : Record => pure r.row := by
    funext r
    exact pairs?_flatMap r.row
  rw [hrow, List.mapM_pure]
  rfl

/-! ### Records -/

theorem toNat_foldl_add (bytes : List UInt8) (b : UInt8) :
    (bytes.foldl (· + ·) b).toNat = (b.toNat + (bytes.map UInt8.toNat).sum) % 256 := by
  induction bytes generalizing b with
  | nil => simp
  | cons x bytes ih =>
    rw [List.foldl_cons, ih, UInt8.toNat_add, List.map_cons, List.sum_cons]
    omega

theorem sum_row (r : Record) : (r.row.map UInt8.toNat).sum % 256 = 0 := by
  have hsum := toNat_foldl_add r.body 0
  have hsize : UInt8.size = 256 := rfl
  rw [Record.row, List.map_append, List.sum_append, List.map_singleton, List.sum_singleton,
    Record.checksum, UInt8.toNat_neg, hsum, hsize, UInt8.toNat_zero]
  omega

theorem ofCode?_code (type : RecordType) : RecordType.ofCode? type.code = some type := by
  cases type <;> rfl

theorem ofNat_bytes (half : BitVec 16) :
    BitVec.ofNat 16 (256 * (UInt8.ofNat (half.toNat / 256)).toNat + (UInt8.ofNat half.toNat).toNat)
      = half := by
  have hlt : half.toNat < 65536 := half.isLt
  apply BitVec.eq_of_toNat_eq
  rw [BitVec.toNat_ofNat, UInt8.toNat_ofNat', UInt8.toNat_ofNat']
  omega

theorem isSound_row {r : Record} (h : r.IsShort) : IsSound r.row := by
  have hlength : (UInt8.ofNat r.data.length).toNat = r.data.length :=
    UInt8.toNat_ofNat_of_lt (Nat.lt_of_le_of_lt h.length (by decide))
  refine ⟨?_, ?_, sum_row r⟩
  · simp [Record.row, Record.body, hlength]
  · exact Nat.le_trans (Nat.le_of_eq hlength) h.length

theorem ofRow?_row {r : Record} (h : r.data.length < 256) : Record.ofRow? r.row = some r := by
  have hsum := sum_row r
  have hlength : (UInt8.ofNat r.data.length).toNat = r.data.length := UInt8.toNat_ofNat_of_lt h
  rw [Record.row, Record.body, List.append_assoc] at hsum ⊢
  simp only [List.cons_append, List.nil_append] at hsum ⊢
  rw [Record.ofRow?, if_pos ⟨by rw [hlength]; simp, hsum⟩, ofCode?_code, ofNat_bytes,
    List.dropLast_concat]
  rfl

theorem mapM_ofRow? {records : List Record} (h : ∀ r ∈ records, r.IsShort) :
    (records.map Record.row).mapM Record.ofRow? = some records := by
  induction records with
  | nil => rfl
  | cons r records ih =>
    have hlength := (h r (List.mem_cons_self ..)).length
    rw [List.map_cons, List.mapM_cons, ofRow?_row (by omega),
      ih fun x hx => h x (List.mem_cons_of_mem _ hx)]
    rfl

/-! ### Data -/

theorem bytesAt_append (a : Address) (xs ys : List UInt8) :
    bytesAt a (xs ++ ys) = bytesAt a xs ++ bytesAt (a + BitVec.ofNat 32 xs.length) ys := by
  have hlater : ys.zipIdx xs.length = ys.zipIdx.map fun (b, i) => (b, xs.length + i) :=
    List.zipIdx_eq_map_add
  unfold bytesAt
  rw [List.zipIdx_append, List.map_append, Nat.zero_add, hlater, List.map_map]
  congr 1
  apply List.map_congr_left
  intro p _
  simp [BitVec.ofNat_add, BitVec.add_assoc]

theorem extractLsb'_append (a : Address) : a.extractLsb' 16 16 ++ a.extractLsb' 0 16 = a := by
  rw [BitVec.extractLsb'_append_extractLsb'_eq_extractLsb' (by rfl)]
  simp

theorem load?_extension {upper : Option (BitVec 16)} {current : BitVec 16}
    (h : ∀ u, upper = some u → u = current) (a : Address) (rest : List Record) :
    load? current (extension upper a ++ rest) = load? (a.extractLsb' 16 16) rest := by
  unfold extension
  simp only
  split
  · rename_i hsame
    rw [h _ (eq_of_beq hsame)]
    rfl
  · rw [List.singleton_append, load?]
    simp only [ofNat_bytes]

/-- The records of data put it where it belongs, whatever stands in force before and after them. -/
theorem load?_dataRecords {upper : Option (BitVec 16)} {current : BitVec 16}
    (h : ∀ u, upper = some u → u = current) (a : Address) (data : List UInt8) {rest : List Record}
    {c : Contents} (hrest : ∀ current, load? current rest = some c) :
    load? current (dataRecords upper a data ++ rest)
      = some { c with bytes := bytesAt a data ++ c.bytes } := by
  fun_induction dataRecords upper a data generalizing current with
  | case1 upper a => exact hrest current
  | case2 upper a b more n =>
    rename_i ih
    have hpos : 0 < n := chunk_pos a (Nat.succ_pos _)
    have hle : n ≤ (b :: more).length := chunk_le_length a _
    have hsplit : bytesAt a (b :: more) = bytesAt a ((b :: more).take n)
        ++ bytesAt (a + BitVec.ofNat 32 n) (more.drop (n - 1)) := by
      have hdrop : (b :: more).drop n = more.drop (n - 1) := by
        obtain ⟨k, hk⟩ := Nat.exists_eq_succ_of_ne_zero (Nat.ne_of_gt hpos)
        rw [hk]
        rfl
      have hjoined := bytesAt_append a ((b :: more).take n) ((b :: more).drop n)
      rwa [List.take_append_drop, List.length_take_of_le hle, hdrop] at hjoined
    have hcurrent : ∀ u, some (a.extractLsb' 16 16) = some u → u = a.extractLsb' 16 16 :=
      fun u hu => (Option.some.inj hu).symm
    have hlater := ih hcurrent
    rw [List.append_assoc, load?_extension h, List.cons_append, load?]
    simp only [hlater, Option.map_some, extractLsb'_append, hsplit, List.append_assoc]

/-- The records of all segments, one after the other. -/
theorem load?_flatMap (segments : List LoadSegment) {rest : List Record} {c : Contents}
    (hrest : ∀ current, load? current rest = some c) (current : BitVec 16) :
    load? current ((segments.flatMap fun s => dataRecords none s.address s.data) ++ rest)
      = some { c with bytes := (segments.flatMap fun s => bytesAt s.address s.data) ++ c.bytes } := by
  induction segments generalizing current with
  | nil => exact hrest current
  | cons s segments ih =>
    rw [List.flatMap_cons, List.append_assoc,
      load?_dataRecords (fun u hu => by cases hu) s.address s.data ih, List.flatMap_cons,
      List.append_assoc]

theorem load?_start (entry : Address) (current : BitVec 16) :
    load? current [start entry, { type := .endOfFile, data := [] }] = some ⟨[], [entry]⟩ := by
  have hbytes : ofLittleEndian (littleEndian 4 entry.toNat) = entry.toNat := by
    have hread := ofLittleEndian_littleEndian 4 entry.toNat
    have hlt := entry.isLt
    omega
  have hentry : BitVec.ofNat 32 (ofLittleEndian (littleEndian 4 entry.toNat)) = entry := by
    rw [hbytes, BitVec.ofNat_toNat, BitVec.setWidth_eq]
  exact congrArg (fun a => some (Contents.mk [] [a])) hentry

theorem isShort_of_mem_extension {upper : Option (BitVec 16)} {a : Address} {r : Record}
    (h : r ∈ extension upper a) : r.IsShort ∧ r.type ≠ .endOfFile := by
  unfold extension at h
  simp only at h
  split at h
  · cases h
  · obtain rfl := List.mem_singleton.1 h
    exact ⟨⟨by simp, nofun⟩, nofun⟩

theorem isShort_of_mem_dataRecords {upper : Option (BitVec 16)} {a : Address} {data : List UInt8}
    {r : Record} (h : r ∈ dataRecords upper a data) : r.IsShort ∧ r.type ≠ .endOfFile := by
  fun_induction dataRecords upper a data with
  | case1 => cases h
  | case2 upper a b more n ih =>
    rcases List.mem_append.1 h with h | h
    · exact isShort_of_mem_extension h
    · rcases List.mem_cons.1 h with rfl | h
      · have hlength : ((b :: more).take n).length ≤ n := List.length_take_le ..
        have hfits : a.toNat % 0x10000 + n ≤ 0x10000 := chunk_fits a _
        have hshort : n ≤ 16 := Nat.le_trans (Nat.min_le_left ..) (Nat.min_le_left ..)
        have hoffset : (a.extractLsb' 0 16).toNat = a.toNat % 0x10000 := by
          simp
        refine ⟨⟨Nat.le_trans hlength hshort, fun _ => ?_⟩, nofun⟩
        simp only [hoffset]
        omega
      · exact ih h

/-- Reading the file of some segments gives their bytes at their addresses, in order, and the entry.
Its lines are sound, its records are short, and the record that ends it is the last and the only one of
its type. -/
theorem read?_file (segments : List LoadSegment) (entry : Address) :
    read? (file segments entry) = some ⟨segments.flatMap fun s => bytesAt s.address s.data, [entry]⟩ ∧
      ∃ rows body, rows? (file segments entry) = some rows ∧
        rows.mapM Record.ofRow? = some (body ++ [{ type := .endOfFile, data := [] }]) ∧
        (∀ row ∈ rows, IsSound row) ∧ ∀ r ∈ body, r.IsShort ∧ r.type ≠ .endOfFile := by
  have hbody : ∀ r ∈ (segments.flatMap fun s => dataRecords none s.address s.data) ++ [start entry],
      r.IsShort ∧ r.type ≠ .endOfFile := by
    intro r hr
    rcases List.mem_append.1 hr with hr | hr
    · obtain ⟨s, -, hs⟩ := List.mem_flatMap.1 hr
      exact isShort_of_mem_dataRecords hs
    · obtain rfl := List.mem_singleton.1 hr
      exact ⟨⟨by simp [start], nofun⟩, nofun⟩
  have hsplit : records segments entry
      = ((segments.flatMap fun s => dataRecords none s.address s.data) ++ [start entry])
        ++ [{ type := .endOfFile, data := [] }] := by
    rw [records, List.append_assoc]
    rfl
  have hshort : ∀ r ∈ records segments entry, r.IsShort := by
    intro r hr
    rw [hsplit] at hr
    rcases List.mem_append.1 hr with hr | hr
    · exact (hbody r hr).1
    · obtain rfl := List.mem_singleton.1 hr
      exact ⟨Nat.zero_le _, nofun⟩
  have hrows : rows? (file segments entry) = some ((records segments entry).map Record.row) :=
    rows?_flatMap _
  have hrecords := mapM_ofRow? hshort
  refine ⟨?_, _, _, hrows, by rw [← hsplit]; exact hrecords, ?_, hbody⟩
  · have hload := load?_flatMap segments (load?_start entry) 0
    rw [List.append_nil] at hload
    rw [read?, hrows]
    simp only [Option.bind_eq_bind, Option.bind_some, hrecords]
    exact hload
  · intro row hrow
    obtain ⟨r, hr, rfl⟩ := List.mem_map.1 hrow
    exact isSound_row (hshort r hr)

end Rv32Assembler.IntelHex
