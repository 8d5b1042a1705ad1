import Rv32Assembler.Assembly.FirstPass
import Rv32Assembler.Proofs.Step
/-!
# Promotion of labels

At its end a file exports labels: each leaves the file's table for the global one. An exported name
that the file does not define, or that is global already, is refused, and so is every repetition of
it; a repetition of a name that has moved is passed over. Whatever the order of the names, no symbol is
lost or made (`Reading.exportLabels_conserves`).
-/

namespace Rv32Assembler

namespace SymbolTable

theorem lookup_eq_some_iff {t : SymbolTable} {name : Text} {symbol : Symbol} :
    t.lookup name = some symbol ↔ symbol ∈ t.entries ∧ symbol.name = name := by
  constructor
  · intro h
    exact ⟨List.mem_of_find?_eq_some h, by simpa using List.find?_some h⟩
  · rintro ⟨hmem, rfl⟩
    cases hfound : t.lookup symbol.name with
    | none => exact absurd (List.mem_map_of_mem hmem) (lookup_eq_none_iff.1 hfound)
    | some other =>
      have hname : other.name = symbol.name := by simpa using List.find?_some hfound
      have hother : other ∈ t.entries := List.mem_of_find?_eq_some hfound
      rw [List.inj_on_of_nodup_map t.distinct hother hmem hname]

theorem perm_remove {t : SymbolTable} {name : Text} {symbol : Symbol}
    (h : t.lookup name = some symbol) : t.entries.Perm (symbol :: (t.remove name).entries) := by
  obtain ⟨hmem, hname⟩ := lookup_eq_some_iff.1 h
  have hkept : symbol ∉ (t.remove name).entries := by simp [remove, hname]
  have hdistinct : t.entries.Nodup := .of_map _ t.distinct
  refine (List.perm_ext_iff_of_nodup hdistinct
    (List.nodup_cons.2 ⟨hkept, hdistinct.filter _⟩)).2 fun other => ?_
  simp only [remove, List.mem_cons, List.mem_filter, bne_iff_ne]
  constructor
  · intro hother
    by_cases hsame : other.name = name
    · exact .inl (Option.some.inj ((lookup_eq_some_iff.2 ⟨hother, hsame⟩).symm.trans h))
    · exact .inr ⟨hother, hsame⟩
  · rintro (rfl | ⟨hother, -⟩)
    · exact hmem
    · exact hother

end SymbolTable

namespace Reading

/-- The error about an exported name that cannot become global, if it cannot. -/
def refusal? (labels global : SymbolTable) (t : Token) : Option Message :=
  if labels.lookup t.text = none then some ((Problem.undefinedGlobal t.text).about t [])
  else if global.lookup t.text = none then none
  else some ((Problem.duplicateGlobal t.text).about t [])

theorem refusal?_eq_none_iff {labels global : SymbolTable} {t : Token} :
    refusal? labels global t = none ↔
      labels.lookup t.text ≠ none ∧ global.lookup t.text = none := by
  unfold refusal?
  split <;> rename_i hlabel
  · simp [hlabel]
  · split <;> rename_i hglobal <;> simp [hlabel, hglobal]

theorem warning_of_refusal? {labels global : SymbolTable} {t : Token} {m : Message}
    (h : refusal? labels global t = some m) : m.warning = false := by
  unfold refusal? at h
  split at h
  · cases h
    rfl
  · split at h
    · cases h
    · cases h
      rfl

def refusals (r : Reading) : List Message := r.exported.filterMap (refusal? r.labels r.global)

/-- The names that have moved to the global table once the exported names have been read. -/
def promoted (r : Reading) : List Text := (r.exported.foldl exportLabel (r, [])).2

/-- The symbols of the names have moved from the one table to the other, the log has taken the
messages, and nothing else has changed. -/
structure Promotes (r : Reading) (names : List Text) (messages : List Message) (r' : Reading) :
    Prop where
  rest : r' = { r with labels := r'.labels, global := r'.global, log := r.log.addAll messages }
  perm : (r'.labels.entries ++ r'.global.entries).Perm (r.labels.entries ++ r.global.entries)
  movable : ∀ name ∈ names, r.labels.lookup name ≠ none ∧ r.global.lookup name = none
  labels : ∀ name, r'.labels.lookup name = if name ∈ names then none else r.labels.lookup name
  global : ∀ name,
    r'.global.lookup name = if name ∈ names then r.labels.lookup name else r.global.lookup name

namespace Promotes

variable {r r' : Reading} {names : List Text} {messages : List Message}

theorem refl (r : Reading) : r.Promotes [] [] r where
  rest := rfl
  perm := List.Perm.refl _
  movable := by simp
  labels := by simp
  global := by simp

theorem report (h : r.Promotes names messages r') (t : Token) (p : Problem) :
    r.Promotes names (messages ++ [p.about t []]) (r'.report [] t p) where
  rest := by
    rw [h.rest, ← Log.addAll_addAll]
    rfl
  perm := h.perm
  movable := h.movable
  labels := h.labels
  global := h.global

/-- A name that the file defines and that is not global yet moves. -/
theorem move (h : r.Promotes names messages r') {name : Text} (hnew : name ∉ names)
    {symbol : Symbol} (hlabel : r'.labels.lookup name = some symbol) {global : SymbolTable}
    (hadd : r'.global.add symbol = .ok global) :
    r.Promotes (name :: names) messages
      { r' with labels := r'.labels.remove name, global := global } := by
  have hname : symbol.name = name := (SymbolTable.lookup_eq_some_iff.1 hlabel).2
  have hfree : r'.global.lookup name = none := hname ▸ SymbolTable.lookup_eq_none_of_add hadd
  have hfirst : r.labels.lookup name = some symbol := by
    rw [← hlabel, h.labels, if_neg hnew]
  refine ⟨?_, ?_, ?_, fun other => ?_, fun other => ?_⟩
  · rw [h.rest]
  · rw [SymbolTable.entries_of_add hadd, ← List.append_assoc]
    refine List.perm_append_singleton .. |>.trans ?_
    exact ((SymbolTable.perm_remove hlabel).symm.append_right _).trans h.perm
  · rintro other (_ | ⟨_, hother⟩)
    · refine ⟨by simp [hfirst], ?_⟩
      rw [← hfree, h.global, if_neg hnew]
    · exact h.movable other hother
  · rw [SymbolTable.lookup_remove, h.labels]
    by_cases hsame : other = name <;> simp [hsame]
  · rw [SymbolTable.lookup_of_add hadd, h.global, hname]
    by_cases hsame : other = name <;> simp [hsame, hfirst]

/-- Whether a name that has not moved is refused shows in the tables at the start. -/
theorem refusal?_eq (h : r.Promotes names messages r') {t : Token} (hnew : t.text ∉ names) :
    refusal? r'.labels r'.global t = refusal? r.labels r.global t := by
  simp [refusal?, h.labels, h.global, hnew]

theorem refusal?_eq_none (h : r.Promotes names messages r') {t : Token} (hmoved : t.text ∈ names) :
    refusal? r.labels r.global t = none :=
  refusal?_eq_none_iff.2 (h.movable t.text hmoved)

/-- The next exported name moves, unless it has or is refused; only names that are refused bring an
error. -/
theorem exportLabel (h : r.Promotes names messages r') (t : Token) :
    r.Promotes (Reading.exportLabel (r', names) t).2
        (messages ++ (refusal? r.labels r.global t).toList) (Reading.exportLabel (r', names) t).1 ∧
      ∀ name, name ∈ (Reading.exportLabel (r', names) t).2 ↔
        name ∈ names ∨ name = t.text ∧ refusal? r.labels r.global t = none := by
  unfold Reading.exportLabel
  by_cases hmoved : t.text ∈ names
  · have hdone : names.contains t.text = true := by simpa using hmoved
    simp only [hdone, if_true, h.refusal?_eq_none hmoved, Option.toList_none, List.append_nil]
    refine ⟨h, fun name => ⟨.inl, ?_⟩⟩
    rintro (hname | ⟨rfl, -⟩)
    · exact hname
    · exact hmoved
  · have hdone : names.contains t.text = false := by simpa using hmoved
    simp only [hdone, Bool.false_eq_true, if_false, ← h.refusal?_eq hmoved]
    cases hlabel : r'.labels.lookup t.text with
    | none =>
      simp only [refusal?, hlabel, if_true, Option.toList_some]
      exact ⟨h.report t _, by simp⟩
    | some symbol =>
      have hname : symbol.name = t.text := (SymbolTable.lookup_eq_some_iff.1 hlabel).2
      cases hadd : r'.global.add symbol with
      | error e =>
        have hglobal : r'.global.lookup t.text ≠ none := fun hfree => by
          have hok : (r'.global.add symbol).isOk = true :=
            SymbolTable.isOk_add_iff.2 (by rw [hname, hfree])
          rw [hadd] at hok
          cases hok
        simp only [refusal?, hlabel, hglobal, reduceCtorEq, if_false, Option.toList_some, hadd]
        exact ⟨h.report t _, by simp⟩
      | ok global =>
        have hglobal : r'.global.lookup t.text = none :=
          hname ▸ SymbolTable.lookup_eq_none_of_add hadd
        simp only [refusal?, hlabel, hglobal, reduceCtorEq, if_false, if_true, Option.toList_none,
          List.append_nil, hadd, and_true]
        exact ⟨h.move hmoved hlabel hadd, fun name => by rw [List.mem_cons, or_comm]⟩

/-- What reading the exported names of a list brings about. -/
theorem foldl (tokens : List Token) (h : r.Promotes names messages r') :
    r.Promotes (tokens.foldl Reading.exportLabel (r', names)).2
        (messages ++ tokens.filterMap (refusal? r.labels r.global))
        (tokens.foldl Reading.exportLabel (r', names)).1 ∧
      ∀ name, name ∈ (tokens.foldl Reading.exportLabel (r', names)).2 ↔
        name ∈ names ∨ ∃ t ∈ tokens, name = t.text ∧ refusal? r.labels r.global t = none := by
  induction tokens generalizing r' names messages with
  | nil => simpa using h
  | cons t tokens ih =>
    obtain ⟨hstep, hnames⟩ := h.exportLabel t
    obtain ⟨hrest, hall⟩ := ih hstep
    rw [List.foldl_cons]
    refine ⟨?_, fun name => ?_⟩
    · have hmessages : messages ++ (t :: tokens).filterMap (refusal? r.labels r.global) =
          messages ++ (refusal? r.labels r.global t).toList ++
            tokens.filterMap (refusal? r.labels r.global) := by
        rw [List.append_assoc]
        cases hrefused : refusal? r.labels r.global t <;> simp [hrefused]
      rw [hmessages]
      exact hrest
    · rw [hall, hnames, List.exists_mem_cons_iff, or_assoc]

end Promotes

theorem promotes_exportLabels (r : Reading) : r.Promotes r.promoted r.refusals r.exportLabels :=
  ((Promotes.refl r).foldl r.exported).1

theorem mem_promoted_iff {r : Reading} {name : Text} :
    name ∈ r.promoted ↔ (∃ t ∈ r.exported, t.text = name) ∧
      r.labels.lookup name ≠ none ∧ r.global.lookup name = none := by
  rw [promoted, ((Promotes.refl r).foldl r.exported).2 name]
  constructor
  · rintro (hnil | ⟨t, ht, rfl, hfree⟩)
    · cases hnil
    · exact ⟨⟨t, ht, rfl⟩, refusal?_eq_none_iff.1 hfree⟩
  · rintro ⟨⟨t, ht, rfl⟩, hfree⟩
    exact .inr ⟨t, ht, rfl, refusal?_eq_none_iff.2 hfree⟩

/-- A promoted name is found where it was found before, now in the global table. -/
theorem lookupOr_exportLabels (r : Reading) (name : Text) :
    r.exportLabels.labels.lookupOr r.exportLabels.global name = r.labels.lookupOr r.global name := by
  have h := r.promotes_exportLabels
  rw [SymbolTable.lookupOr, SymbolTable.lookupOr, h.labels, h.global]
  by_cases hmoved : name ∈ r.promoted
  · simp [hmoved, (h.movable name hmoved).2]
  · simp [hmoved]

/-- Another file finds a name that it did not find: a promoted one, unless it has one of its own. -/
theorem lookupOr_exportLabels_ne_iff (r : Reading) (other : SymbolTable) (name : Text) :
    other.lookupOr r.exportLabels.global name ≠ other.lookupOr r.global name ↔
      name ∈ r.promoted ∧ other.lookup name = none := by
  have h := r.promotes_exportLabels
  rw [SymbolTable.lookupOr, SymbolTable.lookupOr, h.global]
  cases hown : other.lookup name with
  | some symbol => simp
  | none =>
    by_cases hmoved : name ∈ r.promoted
    · simp [hmoved, h.movable name hmoved]
    · simp [hmoved]

/-- The tables at the start refuse a token exactly if its name, when the token is reached, has not
moved and is undefined or already global. -/
theorem refusal?_ne_none_iff (r : Reading) (before : List Token) (t : Token) :
    let reached := { r with exported := before }
    refusal? r.labels r.global t ≠ none ↔ t.text ∉ reached.promoted ∧
      (reached.exportLabels.labels.lookup t.text = none ∨
        reached.exportLabels.global.lookup t.text ≠ none) := by
  intro reached
  have h := reached.promotes_exportLabels
  by_cases hmoved : t.text ∈ reached.promoted
  · have hfree : refusal? r.labels r.global t = none := h.refusal?_eq_none hmoved
    simp [hmoved, hfree]
  · have hsame : _ = refusal? r.labels r.global t := h.refusal?_eq hmoved
    rw [← hsame, ne_eq, refusal?_eq_none_iff, not_and_or, not_not]
    simp [hmoved]

/-- Whatever the tables and the exported names, an export only moves symbols from the file's table to
the global one. The file finds what it found before; another file finds in addition just the promoted
names that it does not define. There is one error for each token that, reached after `before`, has a
name that has not moved and is undefined or already global. -/
theorem exportLabels_conserves (r : Reading) :
    (r.exportLabels.labels.entries ++ r.exportLabels.global.entries).Perm
        (r.labels.entries ++ r.global.entries) ∧
      (r.exportLabels.labels.entries.map Symbol.name).Nodup ∧
      (r.exportLabels.global.entries.map Symbol.name).Nodup ∧
      (∀ name, r.exportLabels.labels.lookupOr r.exportLabels.global name =
        r.labels.lookupOr r.global name) ∧
      (∀ (other : SymbolTable) (name : Text),
        other.lookupOr r.exportLabels.global name ≠ other.lookupOr r.global name ↔
          name ∈ r.promoted ∧ other.lookup name = none) ∧
      (∀ name, name ∈ r.promoted ↔ (∃ t ∈ r.exported, t.text = name) ∧
        r.labels.lookup name ≠ none ∧ r.global.lookup name = none) ∧
      r.exportLabels = { r with
        labels := r.exportLabels.labels
        global := r.exportLabels.global
        log := r.log.addAll r.refusals } ∧
      (∀ m ∈ r.refusals, m.warning = false) ∧
      ∀ (before : List Token) (t : Token),
        let reached := { r with exported := before }
        refusal? r.labels r.global t ≠ none ↔ t.text ∉ reached.promoted ∧
          (reached.exportLabels.labels.lookup t.text = none ∨
            reached.exportLabels.global.lookup t.text ≠ none) := by
  refine ⟨r.promotes_exportLabels.perm, SymbolTable.distinct _, SymbolTable.distinct _,
    r.lookupOr_exportLabels, r.lookupOr_exportLabels_ne_iff, fun _ => mem_promoted_iff,
    r.promotes_exportLabels.rest, fun m hm => ?_, r.refusal?_ne_none_iff⟩
  obtain ⟨t, -, hrefused⟩ := List.mem_filterMap.1 hm
  exact warning_of_refusal? hrefused

end Reading

end Rv32Assembler
