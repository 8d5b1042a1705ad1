import Rv32Assembler.Text.Quoted
/-!
# Symbol tables

A table maps names to addresses. Each file has a table of its own; the run has one global table, to
which a look-up in a file's table falls back.
-/

namespace Rv32Assembler

/-- A place in the 32-bit address space. -/
abbrev Address := BitVec 32

structure Symbol where
  name : Text
  address : Address
  isData : Bool
  deriving DecidableEq, Repr

/-- The symbols in the order in which they were added; no two have the same name. -/
structure SymbolTable where
  entries : List Symbol := []
  distinct : (entries.map Symbol.name).Nodup := by decide
  deriving DecidableEq

namespace SymbolTable

/-- An attempt to add a name that the table has. -/
structure DuplicateError where
  existing : Symbol
  deriving DecidableEq, Repr

def DuplicateError.message (e : DuplicateError) : Text :=
  "label " ++ e.existing.name.quote ++ " already defined at " ++ Text.word e.existing.address

def empty : SymbolTable := {}

instance : Inhabited SymbolTable := ⟨empty⟩

def size (t : SymbolTable) : Nat := t.entries.length

def lookup (t : SymbolTable) (name : Text) : Option Symbol :=
  t.entries.find? fun s => s.name == name

/-- Looks a name up here and then in the global table. -/
def lookupOr (t global : SymbolTable) (name : Text) : Option Symbol :=
  (t.lookup name).or (global.lookup name)

/-- The message about a name that a table does not have. -/
def notFoundMessage (name : Text) : Text := "symbol not found: " ++ name

theorem lookup_eq_none_iff {t : SymbolTable} {name : Text} :
    t.lookup name = none ↔ name ∉ t.entries.map Symbol.name := by
  simp [lookup]

def add (t : SymbolTable) (s : Symbol) : Except DuplicateError SymbolTable :=
  match h : t.lookup s.name with
  | some existing => .error ⟨existing⟩
  | none =>
    .ok ⟨t.entries ++ [s], by
      rw [lookup_eq_none_iff] at h
      simp only [List.map_append, List.map_cons, List.map_nil]
      exact List.nodup_append.2 ⟨t.distinct, by simp, by
        intro a ha b hb
        simp only [List.mem_singleton] at hb
        subst hb
        intro heq
        exact h (heq ▸ ha)⟩⟩

theorem isOk_add_iff {t : SymbolTable} {s : Symbol} :
    (t.add s).isOk = true ↔ t.lookup s.name = none := by
  unfold add
  split <;> rename_i h <;> simp [h, Except.isOk, Except.toBool]

theorem lookup_eq_none_of_add {t new : SymbolTable} {s : Symbol} (h : t.add s = .ok new) :
    t.lookup s.name = none :=
  isOk_add_iff.1 (by rw [h]; rfl)

theorem entries_of_add {t new : SymbolTable} {s : Symbol} (h : t.add s = .ok new) :
    new.entries = t.entries ++ [s] := by
  unfold add at h
  split at h <;> cases h
  rfl

/-- A new name is found, and nothing else changes. -/
theorem lookup_of_add {t new : SymbolTable} {s : Symbol} (h : t.add s = .ok new) (name : Text) :
    new.lookup name = if name = s.name then some s else t.lookup name := by
  have hfree : t.lookup s.name = none := lookup_eq_none_of_add h
  have hlast : new.lookup name = (t.lookup name).or (if name = s.name then some s else none) := by
    simp only [lookup, entries_of_add h, List.find?_append, List.find?_cons, List.find?_nil]
    by_cases hname : name = s.name
    · simp [hname]
    · have hother : (s.name == name) = false := by simpa using Ne.symm hname
      simp [hname, hother]
  rw [hlast]
  by_cases hname : name = s.name
  · simp [hname, hfree]
  · simp [hname]

def remove (t : SymbolTable) (name : Text) : SymbolTable :=
  ⟨t.entries.filter fun s => s.name != name,
   t.distinct.sublist (List.filter_sublist.map Symbol.name)⟩

theorem lookup_remove (t : SymbolTable) (removed name : Text) :
    (t.remove removed).lookup name = if name = removed then none else t.lookup name := by
  simp only [lookup, remove, List.find?_filter]
  by_cases hname : name = removed
  · subst hname
    simp
  · rw [if_neg hname]
    congr 1
    funext s
    by_cases hs : s.name = name <;> simp_all

/-- Moves every symbol at one address to another. -/
def move (t : SymbolTable) (old new : Address) : SymbolTable :=
  ⟨t.entries.map fun s => if s.address = old then { s with address := new } else s, by
    have h : (t.entries.map fun s => if s.address = old then { s with address := new } else s).map
        Symbol.name = t.entries.map Symbol.name := by
      rw [List.map_map]
      apply List.map_congr_left
      intro s _
      simp only [Function.comp_apply]
      split <;> rfl
    rw [h]
    exact t.distinct⟩

/-- The order of a listing: by address, then by name. -/
def listedBefore (a b : Symbol) : Bool :=
  if a.address = b.address then !b.name.before a.name else a.address.ult b.address

/-- The symbols by address, then by name. -/
def sorted (t : SymbolTable) : List Symbol := t.entries.mergeSort listedBefore

def dataSymbols (t : SymbolTable) : List Symbol := t.sorted.filter fun s => s.isData

def textSymbols (t : SymbolTable) : List Symbol := t.sorted.filter fun s => !s.isData

end SymbolTable

end Rv32Assembler
