import Mathlib.Data.List.Sort
import Rv32Assembler.Proofs.Readings
/-!
# Captured macros

A pool is told where a definition begins, which labels are met in its body, and where it ends or that it
is dropped. Other calls may come in between and are refused. The macros that come of it can be read off
the calls alone (`MacroPool.Captures`): a beginning outside any other definition, the calls up to the
first that ends it, and that one being a proper end. The labels of the macro are those that were noted in
between, each once and in the order of their bytes, so the search by halving finds just them
(`MacroPool.macros_ofCalls`).
-/

namespace Rv32Assembler

namespace Macro

/-- Labels that are noted once are in strict order when the definition ends. -/
theorem pairwise_before_sorted {labels : List Text} (h : labels.Nodup) :
    (labels.mergeSort fun a b => !b.before a).Pairwise fun a b => a.before b = true := by
  have hnodup : (labels.mergeSort fun a b => !b.before a).Nodup :=
    (List.mergeSort_perm _ _).nodup_iff.2 h
  refine (pairwise_sorted labels).imp₂ (fun a b hle hne => ?_) hnodup
  by_contra hbefore
  exact hne (Text.eq_of_not_before (by simpa using hbefore) hle)

theorem eq_of_pairwise_before {labels labels' : List Text}
    (h : labels.Pairwise fun a b => a.before b = true)
    (h' : labels'.Pairwise fun a b => a.before b = true) (hmem : ∀ x, x ∈ labels ↔ x ∈ labels') :
    labels = labels' := by
  have hirrefl : Std.Irrefl fun a b : Text => a.before b = true :=
    ⟨fun a => by simp [Text.before_irrefl]⟩
  have hantisymm : Std.Antisymm fun a b : Text => a.before b = true :=
    ⟨fun a b hab hba => by simp [Text.before_asymm hab] at hba⟩
  exact h.eq_of_mem_iff h' hmem

theorem ordered_of_pairwise_before {m : Macro}
    (h : m.labels.toList.Pairwise fun a b => a.before b = true) : m.Ordered :=
  h.imp Text.before_asymm

end Macro

namespace MacroPool

/-! ### Calls -/

/-- A call that is made on a pool. -/
inductive Call where
  | begin (operands : List Token) (index : Int)
  | addLabel (name : Text)
  | commit (index line : Int) (trailing : List Token)
  | abandon

/-- The call begins a definition if none is under way. -/
def Call.begins : Call → Bool
  | .begin operands _ => isHead operands
  | _ => false

/-- The call ends or drops a definition that is under way. -/
def Call.ends : Call → Bool
  | .commit _ _ trailing => trailing.isEmpty
  | .abandon => true
  | _ => false

/-- A definition is under way after the calls. -/
def isUnderWay (calls : List Call) : Bool :=
  calls.foldl (fun defining c => if defining then !c.ends else c.begins) false

/-- The call is not refused; `defining` says that a definition is under way. -/
def Call.isAccepted (defining : Bool) : Call → Bool
  | .begin operands _ => !defining && isHead operands
  | .commit _ _ trailing => defining && trailing.isEmpty
  | .addLabel _ | .abandon => true

def call (p : MacroPool) : Call → MacroPool × Option Macro.Error
  | .begin operands index => p.start operands index
  | .addLabel name => (p.addLabel name, none)
  | .commit index line trailing => p.finish index line trailing
  | .abandon => (p.abandon.2, none)

def ofCalls (file : Text) (calls : List Call) : MacroPool :=
  calls.foldl (fun p c => (p.call c).1) { file := file }

/-- The macro has been defined by the calls: some call that begins a definition, while none is under way,
calls that do not end it, and a call that does. The macro has the labels noted between the two. -/
def Captures (file : Text) (calls : List Call) (m : Macro) : Prop :=
  ∃ before name rest index body last line after,
    calls = before ++ .begin (name :: rest) index :: (body ++ .commit last line [] :: after) ∧
      isUnderWay before = false ∧ isHead (name :: rest) = true ∧ (∀ c ∈ body, c.ends = false) ∧
      { m with labels := #[] }
        = { headed file name rest index with last := last, lastLine := line } ∧
      m.labels.toList.Pairwise (fun a b => a.before b = true) ∧
      ∀ x, x ∈ m.labels ↔ .addLabel x ∈ body

/-- The definition that is under way after the calls, with the labels noted so far. -/
def Opens (file : Text) (calls : List Call) (m : Macro) (labels : List Text) : Prop :=
  ∃ before name rest index body, calls = before ++ .begin (name :: rest) index :: body ∧
    isUnderWay before = false ∧ isHead (name :: rest) = true ∧ (∀ c ∈ body, c.ends = false) ∧
    m = headed file name rest index ∧ labels.Nodup ∧ ∀ x, x ∈ labels ↔ .addLabel x ∈ body

variable {p : MacroPool} {file : Text} {calls : List Call} {c : Call} {m : Macro} {labels : List Text}

theorem isUnderWay_concat (calls : List Call) (c : Call) :
    isUnderWay (calls ++ [c]) = if isUnderWay calls then !c.ends else c.begins := by
  rw [isUnderWay, List.foldl_append]
  rfl

theorem ofCalls_append (file : Text) (calls more : List Call) :
    ofCalls file (calls ++ more) = more.foldl (fun p c => (p.call c).1) (ofCalls file calls) :=
  List.foldl_append

/-! ### What a call does -/

theorem call_of_not_accepted (h : c.isAccepted p.isDefining = false) : ∃ e, p.call c = (p, some e) := by
  cases c with
  | begin operands index =>
    cases hbegin : p.begin operands index with
    | error e => exact ⟨e, by rw [call, start_eq, hbegin]⟩
    | ok p' =>
      obtain ⟨hnone, hhead, -⟩ := begin_eq_ok_iff.1 hbegin
      simp [Call.isAccepted, isDefining_eq_false_iff.2 hnone, hhead] at h
  | commit index line trailing =>
    cases hcommit : p.commit index line trailing with
    | error e => exact ⟨e, by rw [call, finish_eq, hcommit]⟩
    | ok p' =>
      obtain ⟨rfl, d, hcurrent, -⟩ := commit_eq_ok_iff.1 hcommit
      simp [Call.isAccepted, isDefining, hcurrent] at h
  | addLabel name => cases h
  | abandon => cases h

theorem call_begin (h : p.current = none) {name : Token} {rest : List Token}
    (hhead : isHead (name :: rest) = true) (index : Int) :
    p.call (.begin (name :: rest) index)
      = ({ p with current := some (headed p.file name rest index, []) }, none) := by
  rw [call, start_eq, begin_eq_ok_iff.2 ⟨h, hhead, name, rest, rfl, rfl⟩]

theorem call_commit {d : Macro × List Text} (h : p.current = some d) (index line : Int) :
    p.call (.commit index line [])
      = ({ p with macros := p.macros ++ [closed d index line], current := none }, none) := by
  rw [call, finish_eq, commit_eq_ok_iff.2 ⟨rfl, d, h, rfl⟩]

theorem call_of_not_begins (h : p.current = none) (hc : c.begins = false) : (p.call c).1 = p := by
  have hdefining := isDefining_eq_false_iff.2 h
  cases c with
  | begin operands index =>
    obtain ⟨e, he⟩ := call_of_not_accepted (c := .begin operands index) (p := p)
      (by rw [Call.isAccepted, hdefining]; exact hc)
    rw [he]
  | addLabel name => rw [call, addLabel_of_none h]
  | commit index line trailing =>
    obtain ⟨e, he⟩ := call_of_not_accepted (c := .commit index line trailing) (p := p)
      (by rw [Call.isAccepted, hdefining]; rfl)
    rw [he]
  | abandon =>
    rw [call, abandon, ← h]

/-- In a definition a call that does not end it may note a label. -/
theorem call_of_not_ends (h : p.current = some (m, labels)) (hc : c.ends = false) :
    ∃ more, (p.call c).1 = { p with current := some (m, more) } ∧ (labels.Nodup → more.Nodup) ∧
      ∀ x, x ∈ more ↔ x ∈ labels ∨ .addLabel x = c := by
  have hdefining : p.isDefining = true := by rw [isDefining, h]; rfl
  have hsame : p = { p with current := some (m, labels) } := by rw [← h]
  cases c with
  | begin operands index =>
    obtain ⟨e, he⟩ := call_of_not_accepted (c := .begin operands index) (p := p)
      (by rw [Call.isAccepted, hdefining]; rfl)
    exact ⟨labels, by rw [he, ← hsame], id, by simp⟩
  | addLabel name =>
    obtain ⟨more, hmore, hnodup, hmem⟩ := exists_addLabel h name
    exact ⟨more, hmore, hnodup, by simpa using hmem⟩
  | commit index line trailing =>
    obtain ⟨e, he⟩ := call_of_not_accepted (c := .commit index line trailing) (p := p)
      (by rw [Call.isAccepted, hdefining]; exact hc)
    exact ⟨labels, by rw [he, ← hsame], id, by simp⟩
  | abandon => cases hc

theorem call_cases (p : MacroPool) (c : Call) :
    (p.current = none ∧ c.begins = false ∧ (p.call c).1 = p) ∨
    (p.current = none ∧ ∃ name rest index, c = .begin (name :: rest) index ∧
      isHead (name :: rest) = true ∧
      (p.call c).1 = { p with current := some (headed p.file name rest index, []) }) ∨
    (∃ m labels more, p.current = some (m, labels) ∧ c.ends = false ∧
      (p.call c).1 = { p with current := some (m, more) } ∧ (labels.Nodup → more.Nodup) ∧
      ∀ x, x ∈ more ↔ x ∈ labels ∨ .addLabel x = c) ∨
    (∃ d, p.current = some d ∧ c = .abandon ∧ (p.call c).1 = { p with current := none }) ∨
    ∃ d index line, p.current = some d ∧ c = .commit index line [] ∧
      (p.call c).1 = { p with macros := p.macros ++ [closed d index line], current := none } := by
  cases hcurrent : p.current with
  | none =>
    cases hbegins : c.begins with
    | false => exact .inl ⟨rfl, rfl, call_of_not_begins hcurrent hbegins⟩
    | true =>
      cases c with
      | begin operands index =>
        cases operands with
        | nil => cases hbegins
        | cons name rest =>
          have hcall := call_begin hcurrent hbegins index
          exact .inr (.inl ⟨rfl, name, rest, index, rfl, hbegins, congrArg Prod.fst hcall⟩)
      | addLabel name => cases hbegins
      | commit index line trailing => cases hbegins
      | abandon => cases hbegins
  | some d =>
    cases hends : c.ends with
    | false =>
      obtain ⟨more, hmore⟩ := call_of_not_ends hcurrent hends
      exact .inr (.inr (.inl ⟨d.1, d.2, more, rfl, rfl, hmore⟩))
    | true =>
      cases c with
      | begin operands index => cases hends
      | addLabel name => cases hends
      | commit index line trailing =>
        obtain rfl : trailing = [] := List.isEmpty_iff.1 hends
        have hcall := call_commit hcurrent index line
        exact .inr (.inr (.inr (.inr ⟨d, index, line, rfl, rfl, congrArg Prod.fst hcall⟩)))
      | abandon => exact .inr (.inr (.inr (.inl ⟨d, rfl, rfl, rfl⟩)))

/-- A call is refused just if it is not one that the pool accepts, and then the pool stays. -/
theorem call_refused_iff : (p.call c).2 = none ↔ c.isAccepted p.isDefining = true := by
  constructor
  · intro h
    by_contra hrefused
    obtain ⟨e, he⟩ := call_of_not_accepted (Bool.eq_false_iff.2 hrefused)
    rw [he] at h
    cases h
  · intro h
    cases c with
    | begin operands index =>
      rw [Call.isAccepted, Bool.and_eq_true, Bool.not_eq_true'] at h
      cases operands with
      | nil => cases h.2
      | cons name rest => rw [call_begin (isDefining_eq_false_iff.1 h.1) h.2]
    | addLabel name => rfl
    | commit index line trailing =>
      rw [Call.isAccepted, Bool.and_eq_true, List.isEmpty_iff] at h
      obtain ⟨hdefining, rfl⟩ := h
      obtain ⟨d, hd⟩ := Option.isSome_iff_exists.1 hdefining
      rw [call_commit hd]
    | abandon => rfl

/-! ### From the calls to the macros -/

theorem Captures.concat (h : Captures file calls m) (c : Call) : Captures file (calls ++ [c]) m := by
  obtain ⟨before, name, rest, index, body, last, line, after, rfl, hcaptures⟩ := h
  exact ⟨before, name, rest, index, body, last, line, after ++ [c], by simp, hcaptures⟩

theorem Opens.concat (h : Opens file calls m labels) (hc : c.ends = false) {more : List Text}
    (hnodup : labels.Nodup → more.Nodup) (hmem : ∀ x, x ∈ more ↔ x ∈ labels ∨ .addLabel x = c) :
    Opens file (calls ++ [c]) m more := by
  obtain ⟨before, name, rest, index, body, rfl, hbefore, hhead, hbody, hm, hlabels, hnoted⟩ := h
  refine ⟨before, name, rest, index, body ++ [c], by simp, hbefore, hhead, ?_, hm, hnodup hlabels, ?_⟩
  · rw [List.forall_mem_append, List.forall_mem_singleton]
    exact ⟨hbody, hc⟩
  · intro x
    rw [hmem, hnoted, List.mem_append, List.mem_singleton]

theorem Opens.captures (h : Opens file calls m labels) (last line : Int) :
    Captures file (calls ++ [.commit last line []]) (closed (m, labels) last line) := by
  obtain ⟨before, name, rest, index, body, rfl, hbefore, hhead, hbody, rfl, hlabels, hnoted⟩ := h
  refine ⟨before, name, rest, index, body, last, line, [], by simp, hbefore, hhead, hbody, rfl,
    Macro.pairwise_before_sorted hlabels, fun x => ?_⟩
  rw [← hnoted]
  simp [closed]

/-- The pool has what the calls define and nothing else. -/
structure Reflects (file : Text) (calls : List Call) (p : MacroPool) : Prop where
  source : p.file = file
  defining : p.isDefining = isUnderWay calls
  current : ∀ m labels, p.current = some (m, labels) → Opens file calls m labels
  macros : ∀ m ∈ p.macros, Captures file calls m

theorem Reflects.call (h : Reflects file calls p) (c : Call) :
    Reflects file (calls ++ [c]) (p.call c).1 := by
  have holder : ∀ m ∈ p.macros, Captures file (calls ++ [c]) m := fun m hm => (h.macros m hm).concat c
  have hidle (hnone : p.current = none) : isUnderWay (calls ++ [c]) = c.begins := by
    rw [isUnderWay_concat, ← h.defining, isDefining_eq_false_iff.2 hnone]
    rfl
  have hbusy {d : Macro × List Text} (hsome : p.current = some d) :
      isUnderWay (calls ++ [c]) = !c.ends := by
    have hdefining : p.isDefining = true := by rw [isDefining, hsome]; rfl
    rw [isUnderWay_concat, ← h.defining, hdefining]
    rfl
  rcases p.call_cases c with ⟨hnone, hbegins, hcall⟩ | ⟨hnone, name, rest, index, rfl, hhead, hcall⟩ |
    ⟨m, labels, more, hsome, hends, hcall, hnodup, hmem⟩ | ⟨d, hsome, rfl, hcall⟩ |
    ⟨d, last, line, hsome, rfl, hcall⟩ <;> rw [hcall]
  · refine ⟨h.source, ?_, fun m labels hcurrent => ?_, holder⟩
    · rw [hidle hnone, hbegins, isDefining_eq_false_iff.2 hnone]
    · rw [hnone] at hcurrent
      cases hcurrent
  · refine ⟨h.source, ?_, fun m labels hcurrent => ?_, holder⟩
    · rw [hidle hnone, Call.begins, hhead]
      rfl
    · cases hcurrent
      have hbefore : isUnderWay calls = false := by
        rw [← h.defining, isDefining_eq_false_iff.2 hnone]
      exact ⟨calls, name, rest, index, [], rfl, hbefore, hhead, by simp, by rw [h.source], List.nodup_nil,
        by simp⟩
  · refine ⟨h.source, ?_, fun m' labels' hcurrent => ?_, holder⟩
    · rw [hbusy hsome, hends]
      rfl
    · cases hcurrent
      exact (h.current m labels hsome).concat hends hnodup hmem
  · refine ⟨h.source, ?_, fun m labels hcurrent => (by cases hcurrent), holder⟩
    rw [hbusy hsome]
    rfl
  · refine ⟨h.source, ?_, fun m labels hcurrent => (by cases hcurrent), fun m hm => ?_⟩
    · rw [hbusy hsome]
      rfl
    · rcases List.mem_append.1 hm with hm | hm
      · exact holder m hm
      · obtain rfl := List.mem_singleton.1 hm
        exact (h.current d.1 d.2 hsome).captures last line

theorem reflects_ofCalls (file : Text) (calls : List Call) :
    Reflects file calls (ofCalls file calls) := by
  induction calls using List.reverseRecOn with
  | nil => exact ⟨rfl, rfl, fun m labels h => (by cases h), by simp [ofCalls]⟩
  | append_singleton calls c ih =>
    rw [ofCalls_append]
    exact ih.call c

/-! ### From the macros to the calls -/

theorem macros_call (p : MacroPool) (c : Call) : p.macros ⊆ (p.call c).1.macros := by
  rcases p.call_cases c with ⟨-, -, hcall⟩ | ⟨-, name, rest, index, -, -, hcall⟩ |
    ⟨m, labels, more, -, -, hcall, -⟩ | ⟨d, -, -, hcall⟩ | ⟨d, last, line, -, -, hcall⟩ <;> rw [hcall]
  · exact List.Subset.refl _
  · exact List.Subset.refl _
  · exact List.Subset.refl _
  · exact List.Subset.refl _
  · exact List.subset_append_left _ _

theorem macros_foldl_call (p : MacroPool) (calls : List Call) :
    p.macros ⊆ (calls.foldl (fun p c => (p.call c).1) p).macros := by
  induction calls generalizing p with
  | nil => exact List.Subset.refl _
  | cons c calls ih => exact fun m hm => ih _ (macros_call p c hm)

/-- The body of a definition notes its labels and does nothing else. -/
theorem foldl_call_of_not_ends (h : p.current = some (m, labels)) (hnodup : labels.Nodup)
    {body : List Call} (hbody : ∀ c ∈ body, c.ends = false) :
    ∃ more, body.foldl (fun p c => (p.call c).1) p = { p with current := some (m, more) } ∧
      more.Nodup ∧ ∀ x, x ∈ more ↔ x ∈ labels ∨ .addLabel x ∈ body := by
  induction body generalizing p labels with
  | nil => exact ⟨labels, by rw [← h]; rfl, hnodup, by simp⟩
  | cons c body ih =>
    obtain ⟨hc, hbody⟩ := List.forall_mem_cons.1 hbody
    obtain ⟨some', hcall, hsome, hnoted⟩ := call_of_not_ends h hc
    obtain ⟨more, hmore, hnodup', hmem⟩ := @ih (p.call c).1 some' (by rw [hcall]) (hsome hnodup) hbody
    refine ⟨more, ?_, hnodup', fun x => ?_⟩
    · rw [List.foldl_cons, hmore, hcall]
    · rw [hmem, hnoted, List.mem_cons, or_assoc]

theorem mem_macros_of_captures (h : Captures file calls m) : m ∈ (ofCalls file calls).macros := by
  obtain ⟨before, name, rest, index, body, last, line, after, rfl, hbefore, hhead, hbody, hfields,
    hordered, hnoted⟩ := h
  have hstart := reflects_ofCalls file before
  have hnone : (ofCalls file before).current = none :=
    isDefining_eq_false_iff.1 (hstart.defining.trans hbefore)
  obtain ⟨labels, hlabels, hnodup, hmem⟩ := foldl_call_of_not_ends
    (p := ((ofCalls file before).call (.begin (name :: rest) index)).1)
    (m := headed file name rest index) (by rw [call_begin hnone hhead, hstart.source]) List.nodup_nil
    hbody
  rw [ofCalls_append, List.foldl_cons, List.foldl_append, List.foldl_cons, hlabels]
  apply macros_foldl_call
  have hsame : m = closed (headed file name rest index, labels) last line := by
    have hsorted : m.labels = (closed (headed file name rest index, labels) last line).labels := by
      apply Array.toList_inj.1
      refine Macro.eq_of_pairwise_before hordered (Macro.pairwise_before_sorted hnodup) fun x => ?_
      rw [Array.mem_toList_iff, hnoted]
      simpa [closed] using (hmem x).symm
    obtain ⟨name', parameters, labels', first, last', firstLine, lastLine, file'⟩ := m
    simp only [headed, Macro.mk.injEq] at hfields
    obtain ⟨rfl, rfl, -, rfl, rfl, rfl, rfl, rfl⟩ := hfields
    simp only at hsorted
    rw [hsorted]
    rfl
  rw [call_commit rfl, hsame]
  simp

/-! ### The macro that a call finds -/

theorem foldl_later_eq_none_iff {ms : List Macro} {best : Option Macro} :
    ms.foldl later best = none ↔ best = none ∧ ms = [] := by
  induction ms generalizing best with
  | nil => simp
  | cons m ms ih =>
    have hlater : later best m ≠ none := by
      unfold later
      split
      · simp
      · split <;> simp
    simp [ih, hlater]

theorem exists_matching {call : List Token} (hm : m ∈ p.macros) (hanswers : m.Answers call) :
    ∃ n, p.matching call = some n := by
  obtain ⟨name, arguments, rfl, hname, hlength⟩ := hanswers
  rw [← Option.ne_none_iff_exists', matching, Ne, foldl_later_eq_none_iff, not_and]
  intro _ hnone
  have hmem : m ∈ p.macros.filter fun m =>
      m.name == name.text && m.parameters.length == arguments.length :=
    List.mem_filter.2 ⟨hm, by simp [hname, hlength]⟩
  rw [hnone] at hmem
  cases hmem

/-! ### Definitions -/

/-- After any calls, those that are refused leave the pool as it is. The macros are those that the calls
define; their labels are in strict order, and the search by halving finds just them. A call of a macro
finds one if some macro that was defined answers it, and then one of those that start last. -/
theorem macros_ofCalls (file : Text) (calls : List Call) :
    let p := ofCalls file calls
    (∀ c, ((p.call c).2 = none ↔ c.isAccepted (isUnderWay calls) = true) ∧
      ((p.call c).2 ≠ none → (p.call c).1 = p)) ∧
    (∀ m, m ∈ p.macros ↔ Captures file calls m) ∧
    (∀ m ∈ p.macros, m.labels.toList.Pairwise (fun a b => a.before b = true) ∧
      ∀ name, m.hasLabel name = true ↔ name ∈ m.labels) ∧
    ∀ call, ((∃ m, p.matching call = some m) ↔ ∃ m, Captures file calls m ∧ m.Answers call) ∧
      ∀ m, p.matching call = some m → Captures file calls m ∧ m.Answers call ∧
        ∀ n, Captures file calls n → n.Answers call → n.first ≤ m.first := by
  intro p
  have hreflects : Reflects file calls p := reflects_ofCalls file calls
  have hmacros : ∀ m, m ∈ p.macros ↔ Captures file calls m := fun m =>
    ⟨hreflects.macros m, mem_macros_of_captures⟩
  refine ⟨fun c => ⟨?_, fun hrefused => ?_⟩, hmacros, fun m hm => ?_, fun call => ⟨⟨?_, ?_⟩, ?_⟩⟩
  · rw [call_refused_iff, hreflects.defining]
  · obtain ⟨e, he⟩ := call_of_not_accepted (c := c) (p := p)
      (Bool.eq_false_iff.2 fun haccepted => hrefused (call_refused_iff.2 haccepted))
    rw [he]
  · obtain ⟨_, _, _, _, _, _, _, _, _, _, _, _, _, hordered, -⟩ := hreflects.macros m hm
    exact ⟨hordered, fun name => Macro.hasLabel_iff (Macro.ordered_of_pairwise_before hordered)⟩
  · rintro ⟨m, hm⟩
    obtain ⟨hmem, hanswers, -⟩ := of_matching hm
    exact ⟨m, hreflects.macros m hmem, hanswers⟩
  · rintro ⟨m, hcaptures, hanswers⟩
    exact exists_matching (mem_macros_of_captures hcaptures) hanswers
  · intro m hm
    obtain ⟨hmem, hanswers, hlast⟩ := of_matching hm
    exact ⟨hreflects.macros m hmem, hanswers, fun n hn => hlast n (mem_macros_of_captures hn)⟩

/-- The name and the parameter of a macro on a line. -/
def swapHead (line : Int) : List Token :=
  [{ kind := .identifier, text := "swap", file := "a.s", line := line, column := 8, offset := 7 },
    { kind := .macroParameter, text := "%a", file := "a.s", line := line, column := 13, offset := 12 }]

/-- A definition in which a label is met twice, another definition begins and the end is spoilt once;
then one of the same name; and one that is dropped. -/
def swapCalls : List Call :=
  [.addLabel "stray", .begin (swapHead 1) 0, .addLabel "loop", .begin (swapHead 2) 1, .addLabel "done",
    .addLabel "loop", .commit 2 3 (swapHead 3), .commit 3 4 [], .begin (swapHead 5) 4,
    .addLabel "again", .commit 5 6 [], .begin (swapHead 7) 6, .addLabel "loop", .abandon]

def swapMacro : Macro where
  name := "swap"
  parameters := ["%a"]
  labels := #["done", "loop"]
  first := 0
  last := 3
  firstLine := 1
  lastLine := 4
  file := "a.s"

theorem macros_of_swapCalls :
    let p := ofCalls "a.s" swapCalls
    ((p.call (.commit 7 8 [])).2 ≠ none ∧ (p.call (.commit 7 8 [])).1 = p) ∧
    (swapMacro ∈ p.macros ∧ ∀ name, swapMacro.hasLabel name = true ↔ name ∈ swapMacro.labels) ∧
    ∃ m, p.matching (swapHead 9) = some m ∧ swapMacro.Answers (swapHead 9) ∧
      swapMacro.first < m.first := by
  intro p
  obtain ⟨hrefused, hmacros, hlabels, hmatching⟩ := macros_ofCalls "a.s" swapCalls
  obtain ⟨haccepted, hunchanged⟩ := hrefused (.commit 7 8 [])
  have hend : (p.call (.commit 7 8 [])).2 ≠ none := mt haccepted.1 (by decide)
  have hanswers (m : Macro) (hname : m.name = "swap") (hlength : m.parameters.length = 1) :
      m.Answers (swapHead 9) := ⟨_, _, rfl, hname, hlength⟩
  have hfirst : Captures "a.s" swapCalls swapMacro := by
    refine ⟨swapCalls.take 1, _, _, _, (swapCalls.drop 2).take 5, _, _, _, rfl, by decide, by decide,
      by decide, rfl, by decide +kernel, fun x => ?_⟩
    have hbody : (swapCalls.drop 2).take 5 = [.addLabel "loop", .begin (swapHead 2) 1,
      .addLabel "done", .addLabel "loop", .commit 2 3 (swapHead 3)] := rfl
    rw [hbody]
    simpa [swapMacro] using Or.inr
  have hsecond : Captures "a.s" swapCalls { swapMacro with
      labels := #["again"], first := 4, last := 5, firstLine := 5, lastLine := 6 } := by
    refine ⟨swapCalls.take 8, _, _, _, [.addLabel "again"], _, _, _, rfl, by decide, by decide,
      by decide, rfl, by decide, fun x => ?_⟩
    simp
  have hmem : swapMacro ∈ p.macros := (hmacros swapMacro).2 hfirst
  obtain ⟨hfound, hlast⟩ := hmatching (swapHead 9)
  obtain ⟨m, hm⟩ := hfound.2 ⟨_, hsecond, hanswers _ rfl rfl⟩
  obtain ⟨-, -, hgreatest⟩ := hlast m hm
  have hfour : (4 : Int) ≤ m.first := hgreatest _ hsecond (hanswers _ rfl rfl)
  refine ⟨⟨hend, hunchanged hend⟩, ⟨hmem, (hlabels swapMacro hmem).2⟩, m, hm, hanswers _ rfl rfl, ?_⟩
  have hzero : swapMacro.first = 0 := rfl
  omega

end MacroPool

end Rv32Assembler
