import Rv32Assembler.Source.Include
/-!
# Included files

What an include line is can be said without the reader of such lines (`Includes`), and what loading makes
of a file without the order in which files are read: every line of a file stays, is refused, or gives way
to what becomes of the lines of another file. This is a tree (`Expansion`), and which tree it is follows
from the files alone. Loading a file finds it (`load_flattens`), because a file that is being included is
never opened again (`Expansion.depth_le`).
-/

namespace Rv32Assembler

namespace SourceFile

/-! ### Include lines -/

/-- The line is `.include "target"`, in letters of either case, with white space and a comment. -/
structure Includes (line target : Text) : Prop where
  nonempty : target ≠ []
  unquoted : 0x22 ∉ target
  spelled : ∃ before keyword gap after comment : Text,
    line = before ++ (keyword ++ (gap ++ 0x22 :: (target ++ 0x22 :: (after ++ comment)))) ∧
    Literal.lowerAscii keyword = ".include" ∧ gap ≠ [] ∧
    (∀ b ∈ before ++ gap ++ after, isSpace b = true) ∧
    (comment = [] ∨ ∃ rest : Text, comment = 0x23 :: rest ∧ 0x0a ∉ rest)

theorem dropWhile_isSpace_append {front rest : Text} (hfront : ∀ b ∈ front, isSpace b = true)
    (hrest : ∀ b ∈ rest.head?, isSpace b = false) : (front ++ rest).dropWhile isSpace = rest := by
  rw [List.dropWhile_append_of_pos hfront]
  cases rest with
  | nil => rfl
  | cons b rest => rw [List.dropWhile_cons_of_neg (by simp [hrest b rfl])]

theorem isLineEnd_iff {s : Text} : isLineEnd s = true ↔ ∃ after comment : Text, s = after ++ comment ∧
    (∀ b ∈ after, isSpace b = true) ∧
    (comment = [] ∨ ∃ rest : Text, comment = 0x23 :: rest ∧ 0x0a ∉ rest) := by
  constructor
  · intro h
    refine ⟨s.takeWhile isSpace, s.dropWhile isSpace, List.takeWhile_append_dropWhile.symm,
      fun b hb => List.all_eq_true.1 List.all_takeWhile b hb, ?_⟩
    unfold isLineEnd at h
    split at h
    · rename_i hnil
      exact .inl hnil
    · rename_i b rest hcons
      simp only [Bool.and_eq_true, beq_iff_eq, Bool.not_eq_true', List.contains_eq_mem,
        decide_eq_false_iff_not] at h
      exact .inr ⟨rest, by rw [hcons, h.1], h.2⟩
  · rintro ⟨after, comment, rfl, hafter, rfl | ⟨rest, rfl, hrest⟩⟩
    · rw [isLineEnd, dropWhile_isSpace_append hafter (by simp)]
    · rw [isLineEnd, dropWhile_isSpace_append hafter (by rintro b ⟨⟩; rfl)]
      simpa using hrest

theorem not_isSpace_of_lowerAscii {keyword : Text} (h : Literal.lowerAscii keyword = ".include") :
    ∀ b ∈ keyword.head?, isSpace b = false := by
  cases keyword with
  | nil => simp
  | cons b rest =>
    have hfirst : (if 0x41 ≤ b && b ≤ 0x5a then b + 0x20 else b) = 0x2e := (List.cons.inj h).1
    rintro _ ⟨⟩
    rw [Bool.eq_false_iff]
    intro hspace
    simp only [isSpace, Bool.or_eq_true, beq_iff_eq, or_assoc] at hspace
    rcases hspace with rfl | rfl | rfl | rfl | rfl <;>
    · revert hfirst
      decide

theorem length_of_lowerAscii {keyword : Text} (h : Literal.lowerAscii keyword = ".include") :
    keyword.length = (".include" : Text).length := by
  rw [← h, Literal.lowerAscii, List.length_map]

theorem includeTarget?_of_includes {line target : Text} (h : Includes line target) :
    includeTarget? line = some target := by
  obtain ⟨hnonempty, hunquoted, before, keyword, gap, after, comment, rfl, hkeyword, hgap, hspace,
    hcomment⟩ := h
  simp only [List.forall_mem_append] at hspace
  obtain ⟨⟨hbefore, hgapSpace⟩, hafter⟩ := hspace
  obtain ⟨x, gap, rfl⟩ := List.exists_cons_of_ne_nil hgap
  have hlength := length_of_lowerAscii hkeyword
  have hend : isLineEnd (after ++ comment) = true :=
    isLineEnd_iff.2 ⟨after, comment, rfl, hafter, hcomment⟩
  have hmark : ∀ b ∈ target, (b != 0x22) = true := by
    intro b hb
    rw [bne_iff_ne]
    rintro rfl
    exact hunquoted hb
  have htake : (target ++ 0x22 :: (after ++ comment)).takeWhile (fun b => b != 0x22) = target := by
    rw [List.takeWhile_append_of_pos hmark]
    simp
  have hdrop : (target ++ 0x22 :: (after ++ comment)).dropWhile (fun b => b != 0x22)
      = 0x22 :: (after ++ comment) := by
    rw [List.dropWhile_append_of_pos hmark]
    simp
  have hempty : target.isEmpty = false := by simpa using hnonempty
  have hline : (before ++ (keyword ++ (x :: gap ++ 0x22 :: (target ++ 0x22 :: (after ++
      comment))))).dropWhile isSpace
      = keyword ++ (x :: gap ++ 0x22 :: (target ++ 0x22 :: (after ++ comment))) := by
    refine dropWhile_isSpace_append hbefore fun b hb => not_isSpace_of_lowerAscii hkeyword b ?_
    cases keyword with
    | nil => cases hlength
    | cons k keyword => exact hb
  have hrest : (x :: gap ++ 0x22 :: (target ++ 0x22 :: (after ++ comment))).dropWhile isSpace
      = 0x22 :: (target ++ 0x22 :: (after ++ comment)) :=
    dropWhile_isSpace_append hgapSpace (by rintro b ⟨⟩; rfl)
  simp only [includeTarget?, hline, List.take_left' hlength, List.drop_left' hlength, hkeyword,
    hrest]
  simp only [List.cons_append, htake, hdrop, hempty, hend, hgapSpace x (List.mem_cons_self ..),
    beq_self_eq_true, if_true, Bool.not_false, Bool.and_self]

theorem includes_of_includeTarget? {line target : Text} (h : includeTarget? line = some target) :
    Includes line target := by
  unfold includeTarget? at h
  simp only at h
  split at h
  · rename_i hkeyword
    split at h
    · rename_i x rest quoted hrest hquoted
      split at h
      · rename_i mark tail htail
        split at h
        · rename_i hall
          obtain rfl := Option.some_inj.1 h
          simp only [Bool.and_eq_true, Bool.not_eq_true', List.isEmpty_eq_false_iff] at hall
          obtain ⟨⟨hgap, hnonempty⟩, hend⟩ := hall
          obtain ⟨after, comment, htail', hafter, hcomment⟩ := isLineEnd_iff.1 hend
          obtain rfl : mark = 0x22 := by
            have hhead := List.head?_dropWhile_not (fun b => b != 0x22) quoted
            rw [htail] at hhead
            simpa using hhead
          have hunquoted : 0x22 ∉ quoted.takeWhile fun b => b != 0x22 := by
            intro hmem
            have hne := List.all_eq_true.1 List.all_takeWhile _ hmem
            cases hne
          have hsplit := List.take_append_drop (".include" : Text).length (line.dropWhile isSpace)
          generalize (line.dropWhile isSpace).drop (".include" : Text).length = behind
            at hrest hquoted hsplit
          refine ⟨hnonempty, hunquoted, line.takeWhile isSpace, _, behind.takeWhile isSpace, after,
            comment, ?_, eq_of_beq hkeyword, ?_, ?_, hcomment⟩
          · rw [← htail', ← htail, List.takeWhile_append_dropWhile, ← hquoted,
              List.takeWhile_append_dropWhile, hsplit, List.takeWhile_append_dropWhile]
          · rw [hrest, List.takeWhile_cons_of_pos hgap]
            exact List.cons_ne_nil _ _
          · simp only [List.forall_mem_append]
            exact ⟨⟨List.all_eq_true.1 List.all_takeWhile,
              List.all_eq_true.1 List.all_takeWhile⟩, hafter⟩
        · cases h
      · cases h
    · cases h
  · cases h

theorem includeTarget?_eq_some_iff {line target : Text} :
    includeTarget? line = some target ↔ Includes line target :=
  ⟨includes_of_includeTarget?, includeTarget?_of_includes⟩

theorem includeTarget?_eq_none_iff {line : Text} :
    includeTarget? line = none ↔ ∀ target, ¬Includes line target := by
  simp only [Option.eq_none_iff_forall_ne_some, Ne, includeTarget?_eq_some_iff]

instance (line : Text) : Decidable (∀ target, ¬Includes line target) :=
  decidable_of_iff _ includeTarget?_eq_none_iff

/-! ### What becomes of lines -/

/-- What becomes of the lines of a file, one after the other. -/
inductive Expansion where
  | done
  /-- The line stays. -/
  | kept (l : SourceLine) (rest : Expansion)
  /-- The line names a file that is being included, or one that cannot be read and why. -/
  | refused (l : SourceLine) (path : Text) (cause : Option FileError) (rest : Expansion)
  /-- The line gives way to what becomes of the lines of a file. -/
  | opened (l : SourceLine) (path : Text) (body rest : Expansion)

def refusal (path : Text) : Option FileError → Text
  | none => "recursive include of " ++ path
  | some e => "cannot open include file " ++ path ++ ": " ++ e.message

/-- The line of the file `name` includes the file at the path. -/
def Names (name : Text) (l : SourceLine) (path : Text) : Prop :=
  ∃ target, Includes l.text target ∧ path = Path.resolve (Path.directory name) target

theorem names_iff {name path : Text} {l : SourceLine} :
    (includeTarget? l.text).map (Path.resolve (Path.directory name)) = some path ↔ Names name l path := by
  simp only [Option.map_eq_some_iff, includeTarget?_eq_some_iff, Names, eq_comm (a := path)]

instance (name path : Text) (l : SourceLine) : Decidable (Names name l path) :=
  decidable_of_iff _ names_iff

instance (store : FileStore) (path : Text) (e : FileError) : Decidable (store.read path = .error e) :=
  match h : store.read path with
  | .error other => decidable_of_iff (other = e) (by simp)
  | .ok _ => isFalse (by simp)

instance (store : FileStore) (path : Text) (p : Text → Prop) [DecidablePred p] :
    Decidable (∃ text, store.read path = .ok text ∧ p text) :=
  match h : store.read path with
  | .error _ => isFalse (by simp)
  | .ok text => decidable_of_iff (p text) (by simp)

namespace Expansion

def own : Expansion → List SourceLine
  | done => []
  | kept l rest => l :: rest.own
  | refused l _ _ rest => l :: rest.own
  | opened l _ _ rest => l :: rest.own

def lines : Expansion → List SourceLine
  | done => []
  | kept l rest => l :: rest.lines
  | refused _ _ _ rest => rest.lines
  | opened _ _ body rest => body.lines ++ rest.lines

/-- One message for each line that is refused. -/
def messages : Expansion → List Message
  | done => []
  | kept _ rest => rest.messages
  | refused l path cause rest => lineMessage l (refusal path cause) :: rest.messages
  | opened _ _ body rest => body.messages ++ rest.messages

/-- How many files lie inside one another. -/
def depth : Expansion → Nat
  | done => 0
  | kept _ rest => rest.depth
  | refused _ _ _ rest => rest.depth
  | opened _ _ body rest => max (body.depth + 1) rest.depth

/-- What becomes of each line is what has to: `chain` holds the files that are being included, `name` the
one that the lines belong to. -/
def Follows (store : FileStore) (chain : List Text) (name : Text) : Expansion → Prop
  | done => True
  | kept l rest => (∀ target, ¬Includes l.text target) ∧ rest.Follows store chain name
  | refused l path cause rest =>
    Names name l path ∧
      (match cause with
        | none => path ∈ chain
        | some e => path ∉ chain ∧ store.read path = .error e) ∧
      rest.Follows store chain name
  | opened l path body rest =>
    Names name l path ∧ path ∉ chain ∧
      (∃ text, store.read path = .ok text ∧ body.own = splitLines path text) ∧
      body.Follows store (path :: chain) path ∧ rest.Follows store chain name

instance decidableFollows (store : FileStore) :
    (e : Expansion) → (chain : List Text) → (name : Text) → Decidable (e.Follows store chain name)
  | done, _, _ => .isTrue trivial
  | kept l rest, chain, name =>
    have := decidableFollows store rest chain name
    inferInstanceAs (Decidable ((∀ target, ¬Includes l.text target) ∧ rest.Follows store chain name))
  | refused l path none rest, chain, name =>
    have := decidableFollows store rest chain name
    inferInstanceAs (Decidable (Names name l path ∧ path ∈ chain ∧ rest.Follows store chain name))
  | refused l path (some e) rest, chain, name =>
    have := decidableFollows store rest chain name
    inferInstanceAs (Decidable (Names name l path ∧ (path ∉ chain ∧ store.read path = .error e) ∧
      rest.Follows store chain name))
  | opened l path body rest, chain, name =>
    have := decidableFollows store body (path :: chain) path
    have := decidableFollows store rest chain name
    inferInstanceAs (Decidable (Names name l path ∧ path ∉ chain ∧
      (∃ text, store.read path = .ok text ∧ body.own = splitLines path text) ∧
      body.Follows store (path :: chain) path ∧ rest.Follows store chain name))

variable {store : FileStore} {chain : List Text} {name : Text} {e : Expansion}

/-- A file that is being included is not opened again, so there are no more of them than files. -/
theorem depth_le (h : e.Follows store chain name) : e.depth ≤ store.unseen chain := by
  induction e generalizing chain name with
  | done => exact Nat.zero_le _
  | kept l rest ih => exact ih h.2
  | refused l path cause rest ih => exact ih h.2.2
  | opened l path body rest ihbody ihrest =>
    obtain ⟨-, hnew, ⟨text, hread, -⟩, hbody, hrest⟩ := h
    have hless : store.unseen (path :: chain) < store.unseen chain :=
      FileStore.unseen_cons_lt hread (by simpa using hnew)
    have hinside := ihbody hbody
    exact Nat.max_le.2 ⟨by omega, ihrest hrest⟩

theorem flatten_own (h : e.Follows store chain name) :
    flatten store chain name e.own = (e.lines, e.messages) := by
  induction e generalizing chain name with
  | done =>
    rw [own, flatten]
    rfl
  | kept l rest ih =>
    obtain ⟨hplain, hrest⟩ := h
    rw [own, flatten, ih hrest]
    simp [includeTarget?_eq_none_iff.2 hplain, lines, messages]
  | refused l path cause rest ih =>
    obtain ⟨⟨target, hincludes, rfl⟩, hcause, hrest⟩ := h
    rw [own, flatten, ih hrest]
    cases cause with
    | none => simp [includeTarget?_of_includes hincludes, hcause, lines, messages, refusal]
    | some e =>
      obtain ⟨hnew, hread⟩ := hcause
      simp only [includeTarget?_of_includes hincludes, List.contains_eq_mem, hnew, decide_false,
        Bool.false_eq_true, dite_false]
      split
      · rename_i e' hread'
        obtain rfl : e' = e := Except.error.inj (hread'.symm.trans hread)
        rfl
      · rename_i text hread'
        cases hread'.symm.trans hread
  | opened l path body rest ihbody ihrest =>
    obtain ⟨⟨target, hincludes, rfl⟩, hnew, ⟨text, hread, hown⟩, hbody, hrest⟩ := h
    rw [own, flatten, ihrest hrest]
    simp only [includeTarget?_of_includes hincludes, List.contains_eq_mem, hnew, decide_false,
      Bool.false_eq_true, dite_false]
    split
    · rename_i e hread'
      cases hread'.symm.trans hread
    · rename_i text' hread'
      obtain rfl : text' = text := Except.ok.inj (hread'.symm.trans hread)
      rw [← hown, ihbody hbody]
      rfl

end Expansion

/-- There is something that becomes of every list of lines. -/
theorem exists_follows (store : FileStore) (chain : List Text) (name : Text) :
    (ls : List SourceLine) → ∃ e : Expansion, e.own = ls ∧ e.Follows store chain name
  | [] => ⟨.done, rfl, trivial⟩
  | l :: rest => by
    obtain ⟨after, hown, hafter⟩ := exists_follows store chain name rest
    cases htarget : includeTarget? l.text with
    | none => exact ⟨.kept l after, congrArg _ hown, includeTarget?_eq_none_iff.1 htarget, hafter⟩
    | some target =>
      have hnames : Names name l (Path.resolve (Path.directory name) target) :=
        ⟨target, includes_of_includeTarget? htarget, rfl⟩
      generalize Path.resolve (Path.directory name) target = path at hnames
      by_cases hnew : path ∈ chain
      · exact ⟨.refused l path none after, congrArg _ hown, hnames, hnew, hafter⟩
      · cases hread : store.read path with
        | error e =>
          exact ⟨.refused l path (some e) after, congrArg _ hown, hnames, ⟨hnew, hread⟩, hafter⟩
        | ok text =>
          have hless : store.unseen (path :: chain) < store.unseen chain :=
            FileStore.unseen_cons_lt hread (by simpa using hnew)
          obtain ⟨body, hbody, hinside⟩ :=
            exists_follows store (path :: chain) path (splitLines path text)
          exact ⟨.opened l path body after, congrArg _ hown, hnames, hnew, ⟨text, hread, hbody⟩,
            hinside, hafter⟩
termination_by ls => (store.unseen chain, ls.length)
decreasing_by
  · exact Prod.Lex.right _ (by simp)
  · exact Prod.Lex.left _ _ hless

/-- Loading a file finds what becomes of its lines. -/
theorem load_of_follows {store : FileStore} {name text : Text} (hread : store.read name = .ok text)
    {e : Expansion} (hown : e.own = splitLines name text) (hfollows : e.Follows store [name] name) :
    load store name = .ok ⟨name, e.lines, e.messages⟩ := by
  rw [load, hread, Except.map, ← hown, Expansion.flatten_own hfollows]

/-- The line stands in its file with this number and this text. -/
def Belongs (store : FileStore) (l : SourceLine) : Prop :=
  ∃ (text : Text) (i : Nat), store.read l.file = .ok text ∧ (textLines text)[i]? = some l.text ∧
    l.line = i + 1

theorem belongs_of_mem_splitLines {store : FileStore} {path text : Text}
    (hread : store.read path = .ok text) {l : SourceLine} (hl : l ∈ splitLines path text) :
    Belongs store l := by
  obtain ⟨⟨line, i⟩, hline, rfl⟩ := List.mem_map.1 hl
  exact ⟨text, i, hread, List.mk_mem_zipIdx_iff_getElem?.1 hline, rfl⟩

theorem Expansion.of_mem_lines {store : FileStore} {chain : List Text} {name : Text} {e : Expansion}
    (h : e.Follows store chain name) (hown : ∀ l ∈ e.own, Belongs store l) {l : SourceLine}
    (hl : l ∈ e.lines) : (∀ target, ¬Includes l.text target) ∧ Belongs store l := by
  induction e generalizing chain name with
  | done => cases hl
  | kept first rest ih =>
    obtain ⟨hfirst, hrest⟩ := List.forall_mem_cons.1 hown
    rcases List.mem_cons.1 hl with rfl | hl
    · exact ⟨h.1, hfirst⟩
    · exact ih h.2 hrest hl
  | refused first path cause rest ih => exact ih h.2.2 (List.forall_mem_cons.1 hown).2 hl
  | opened first path body rest ihbody ihrest =>
    obtain ⟨-, -, ⟨text, hread, hinside⟩, hbody, hrest⟩ := h
    rcases List.mem_append.1 hl with hl | hl
    · refine ihbody hbody (fun x hx => belongs_of_mem_splitLines hread ?_) hl
      rwa [← hinside]
    · exact ihrest hrest (List.forall_mem_cons.1 hown).2 hl

/-- What a loaded file says of the files that it comes from. -/
structure Flattens (store : FileStore) (text : Text) (f : SourceFile) : Prop where
  /-- Included files lie inside one another less deep than there are files. -/
  ends : ∃ e : Expansion, e.own = splitLines f.name text ∧ e.Follows store [f.name] f.name ∧
    e.depth < store.files.length
  /-- The lines and the messages are those of whatever becomes of the lines. -/
  follows : ∀ e : Expansion, e.own = splitLines f.name text → e.Follows store [f.name] f.name →
    f.lines = e.lines ∧ f.messages = e.messages
  line : ∀ l ∈ f.lines, (∀ target, ¬Includes l.text target) ∧ Belongs store l

/-- A file that can be read is loaded with what it includes. -/
theorem load_flattens {store : FileStore} {name text : Text} (hread : store.read name = .ok text) :
    ∃ f, load store name = .ok f ∧ f.name = name ∧ Flattens store text f := by
  obtain ⟨e, hown, hfollows⟩ := exists_follows store [name] name (splitLines name text)
  have hload := load_of_follows hread hown hfollows
  refine ⟨_, hload, rfl, ⟨e, hown, hfollows, ?_⟩, fun e' hown' hfollows' => ?_, fun l hl => ?_⟩
  · have hfiles : store.unseen [] = store.files.length := by simp [FileStore.unseen]
    have hless : store.unseen [name] < store.unseen [] := FileStore.unseen_cons_lt hread (by simp)
    have hdepth := Expansion.depth_le hfollows
    omega
  · have hsame := hload.symm.trans (load_of_follows hread hown' hfollows')
    simpa using hsame
  · refine Expansion.of_mem_lines hfollows (fun x hx => belongs_of_mem_splitLines hread ?_) hl
    rwa [← hown]

/-- A file that includes another twice. That one includes itself and the first, each with a path that
goes through directories, and one that does not exist. -/
def windingStore : FileStore :=
  .tree [("main.s", ".include \"lib/a.s\"\n.text\r\n\t.Include  \"lib/../lib/a.s\" # again\n"),
    ("lib/a.s", "nop\n.include \"./a.s\"\n.include \"../main.s\"\n.include \"none.s\"\n.include\n")]

def windingSource : SourceFile :=
  { name := "main.s"
    lines :=
      [⟨"nop", "lib/a.s", 1⟩, ⟨".include", "lib/a.s", 5⟩, ⟨".text", "main.s", 2⟩,
       ⟨"nop", "lib/a.s", 1⟩, ⟨".include", "lib/a.s", 5⟩]
    messages :=
      let refused : List Message :=
        [{ file := "lib/a.s", line := 2, text := "recursive include of lib/a.s" },
         { file := "lib/a.s", line := 3, text := "recursive include of main.s" },
         { file := "lib/a.s", line := 4,
           text := "cannot open include file lib/none.s: open lib/none.s: file does not exist" }]
      refused ++ refused }

/-- What becomes of the lines of the first file. -/
def windingExpansion : Expansion :=
  let body : Expansion :=
    .kept ⟨"nop", "lib/a.s", 1⟩ <|
    .refused ⟨".include \"./a.s\"", "lib/a.s", 2⟩ "lib/a.s" none <|
    .refused ⟨".include \"../main.s\"", "lib/a.s", 3⟩ "main.s" none <|
    .refused ⟨".include \"none.s\"", "lib/a.s", 4⟩ "lib/none.s"
      (some ⟨"open", "lib/none.s", "file does not exist"⟩) <|
    .kept ⟨".include", "lib/a.s", 5⟩ .done
  .opened ⟨".include \"lib/a.s\"", "main.s", 1⟩ "lib/a.s" body <|
  .kept ⟨".text", "main.s", 2⟩ <|
  .opened ⟨"\t.Include  \"lib/../lib/a.s\" # again", "main.s", 3⟩ "lib/a.s" body .done

theorem load_flattens_winding :
    ∃ text, windingStore.read "main.s" = .ok text ∧
      load windingStore "main.s" = .ok windingSource ∧ Flattens windingStore text windingSource := by
  obtain ⟨text, hread, hown⟩ : ∃ text, windingStore.read "main.s" = .ok text ∧
      windingExpansion.own = splitLines "main.s" text := by decide +kernel
  have hfollows : windingExpansion.Follows windingStore ["main.s"] "main.s" := by decide +kernel
  have hsource : windingSource = ⟨"main.s", windingExpansion.lines, windingExpansion.messages⟩ := by
    decide +kernel
  have hload : load windingStore "main.s" = .ok windingSource := by
    rw [hsource]
    exact load_of_follows hread hown hfollows
  obtain ⟨f, hf, -, hflattens⟩ := load_flattens hread
  obtain rfl : f = windingSource := Except.ok.inj (hf.symm.trans hload)
  exact ⟨text, hread, hload, hflattens⟩

end SourceFile

end Rv32Assembler
