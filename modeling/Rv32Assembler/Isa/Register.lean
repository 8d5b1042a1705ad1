import Rv32Assembler.Text.Basic
/-!
# Registers

Each of the 32 integer registers has a number spelling, `x0` to `x31`, and a name by its role in the
calling convention; `fp` is a second name of `s0`. Expanded instructions use the number spelling.
-/

namespace Rv32Assembler

/-- An integer register. -/
abbrev Register := Fin 32

namespace Register

def names : List Text :=
  ["zero", "ra", "sp", "gp", "tp", "t0", "t1", "t2", "s0", "s1", "a0", "a1", "a2", "a3", "a4", "a5",
   "a6", "a7", "s2", "s3", "s4", "s5", "s6", "s7", "s8", "s9", "s10", "s11", "t3", "t4", "t5", "t6"]

/-- The register that always holds zero. -/
def zero : Register := 0

def spelling (r : Register) : Text := "x" ++ Text.decimal r.val

def all : List Register := List.finRange 32

def ofName? (s : Text) : Option Register :=
  if s == "fp" then some 8 else all.find? fun r => names[r.val]? == some s

def ofSpelling? (s : Text) : Option Register := all.find? fun r => r.spelling == s

def ofText? (s : Text) : Option Register := (ofName? s).or (ofSpelling? s)

end Register

/-- A register file: the numbers of its registers by their names and by their number spellings. -/
structure RegisterFile where
  ofName? : Text → Option Int
  ofSpelling? : Text → Option Int

namespace RegisterFile

/-- The number of a register with either spelling. -/
def ofText? (f : RegisterFile) (s : Text) : Option Int := (f.ofName? s).or (f.ofSpelling? s)

/-- The number spelling that expanded instructions use. -/
def spelling (n : Int) : Text := "x" ++ Text.decimal n

/-- The registers with the given names in the order of their numbers, and further names of them. The
last of several registers with one name has it. -/
def ofNames (names : List Text) (further : List (Text × Int)) : RegisterFile where
  ofName? s :=
    (further.lookup s).or
      (((List.range names.length).reverse.find? fun i => names[i]? == some s).map Int.ofNat)
  ofSpelling? s := ((List.range names.length).find? fun i => spelling (Int.ofNat i) == s).map Int.ofNat

/-- The integer registers. -/
def rv32 : RegisterFile := ofNames Register.names [("fp", 8)]

theorem ofName?_rv32 (s : Text) :
    rv32.ofName? s = (Register.ofName? s).map fun r => (r.val : Int) := by
  by_cases hs : s ∈ ("fp" : Text) :: Register.names
  · have hall : ∀ s ∈ ("fp" : Text) :: Register.names,
        rv32.ofName? s = (Register.ofName? s).map fun r => (r.val : Int) := by decide +kernel
    exact hall s hs
  · obtain ⟨hfp, hname⟩ := not_or.1 (mt List.mem_cons.2 hs)
    have hother : (s == ("fp" : Text)) = false := by simpa using hfp
    have hat (i : Nat) : (Register.names[i]? == some s) = false := by
      simpa using fun h => hname (List.mem_of_getElem? h)
    simp only [rv32, ofNames, Register.ofName?, List.lookup_cons, List.lookup_nil, hother, hat, Bool.false_eq_true, if_false,
      Option.none_or]
    rw [List.find?_eq_none.2 (by simp), List.find?_eq_none.2 (by simp)]
    rfl

theorem ofSpelling?_rv32 (s : Text) :
    rv32.ofSpelling? s = (Register.ofSpelling? s).map fun r => (r.val : Int) := by
  by_cases hs : s ∈ Register.all.map Register.spelling
  · have hall : ∀ s ∈ Register.all.map Register.spelling,
        rv32.ofSpelling? s = (Register.ofSpelling? s).map fun r => (r.val : Int) := by
      decide +kernel
    exact hall s hs
  · have hregister (r : Register) : (r.spelling == s) = false := by
      simpa using fun h => hs (List.mem_map.2 ⟨r, List.mem_finRange r, h⟩)
    have hat (i : Nat) (hi : i < 32) : (spelling (Int.ofNat i) == s) = false := hregister ⟨i, hi⟩
    have hnumber : (List.range Register.names.length).find? (fun i => spelling (Int.ofNat i) == s)
        = none := by
      rw [List.find?_eq_none]
      exact fun i hi => Bool.eq_false_iff.1 (hat i (List.mem_range.1 hi))
    have hnone : Register.ofSpelling? s = none := by
      rw [Register.ofSpelling?, List.find?_eq_none]
      exact fun r _ => Bool.eq_false_iff.1 (hregister r)
    simp only [rv32, ofNames, hnumber, hnone, Option.map_none]

theorem ofText?_rv32 (s : Text) :
    rv32.ofText? s = (Register.ofText? s).map fun r => (r.val : Int) := by
  rw [ofText?, ofName?_rv32, ofSpelling?_rv32, Register.ofText?]
  cases Register.ofName? s <;> rfl

end RegisterFile

end Rv32Assembler
