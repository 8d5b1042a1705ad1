import Rv32Assembler.Source.Path
/-!
# File stores

A finite collection of named texts, with an account of why any other name cannot be read.
-/

namespace Rv32Assembler

/-- A failed access to a file. -/
structure FileError where
  operation : Text
  path : Text
  cause : Text
  deriving DecidableEq, Repr

def FileError.message (e : FileError) : Text := e.operation ++ " " ++ e.path ++ ": " ++ e.cause

/-- The readable files, and the error for every other path. -/
structure FileStore where
  files : List (Text × Text)
  refuse : Text → FileError

namespace FileStore

def read (s : FileStore) (path : Text) : Except FileError Text :=
  match s.files.find? fun f => f.1 == path with
  | some (_, text) => .ok text
  | none => .error (s.refuse path)

/-- Some file lies below the path. -/
def isDirectory (files : List (Text × Text)) (path : Text) : Bool :=
  path == "." || files.any fun f => (path ++ [Path.slash]).isPrefixOf f.1

/-- The files as a tree of its own; their paths are relative to its root. -/
def tree (files : List (Text × Text)) : FileStore where
  files := files.filter fun f => Path.isValid f.1
  refuse path :=
    if Path.isValid path && isDirectory files path then ⟨"read", path, "invalid argument"⟩
    else ⟨"open", path, "file does not exist"⟩

/-- The number of files whose paths are not in a list. -/
def unseen (s : FileStore) (chain : List Text) : Nat :=
  (s.files.filter fun f => !chain.contains f.1).length

theorem unseen_cons_lt {s : FileStore} {chain : List Text} {path text : Text}
    (hread : s.read path = .ok text) (hnew : ¬ chain.contains path = true) :
    s.unseen (path :: chain) < s.unseen chain := by
  have hmem : ∃ f ∈ s.files, f.1 = path := by
    unfold read at hread
    split at hread
    · rename_i t hfind
      have := List.mem_of_find?_eq_some hfind
      have heq := List.find?_some hfind
      exact ⟨_, this, by simpa using heq⟩
    · cases hread
  obtain ⟨f, hf, rfl⟩ := hmem
  have hsplit : (s.files.filter fun g => !(f.1 :: chain).contains g.1)
      = (s.files.filter fun g => !chain.contains g.1).filter fun g => decide (g.1 ≠ f.1) := by
    rw [List.filter_filter]
    congr 1
    funext g
    simp
  unfold unseen
  rw [hsplit]
  apply List.length_filter_lt_length_iff_exists.2
  exact ⟨f, by simp_all, by simp⟩

end FileStore

end Rv32Assembler
