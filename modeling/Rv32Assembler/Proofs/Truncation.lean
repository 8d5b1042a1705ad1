import Rv32Assembler.Proofs.Readings
/-!
# Runs with a smaller error limit

A log with a smaller limit holds the messages of one with a greater limit up to an error, and a notice
in place of that error (`Log.cut`). No step of the first pass looks into the log but to see whether it
is full. So of two runs that differ in the limit, the one with the smaller limit goes through the same
states, but for the log, until its log is full; from then on it stops at different places than the
other run, and its log stays as it is (`Trails`). That is carried from step to step and from run to run
by `Follows`.
-/

namespace Rv32Assembler

/-! ### Logs -/

def beforeError : Nat → List Message → List Message
  | _, [] => []
  | k, m :: ms =>
    if m.warning then m :: beforeError k ms
    else
      match k with
      | 0 => []
      | k + 1 => m :: beforeError k ms

def errorsIn (ms : List Message) : Nat := ms.countP fun m => !m.warning

theorem errorsIn_cons (m : Message) (ms : List Message) :
    errorsIn (m :: ms) = errorsIn ms + if m.warning then 0 else 1 := by
  cases hwarning : m.warning <;> simp [errorsIn, hwarning]

theorem beforeError_of_le {k : Nat} {ms : List Message} (h : errorsIn ms ≤ k) (more : List Message) :
    beforeError k (ms ++ more) = ms ++ beforeError (k - errorsIn ms) more := by
  induction ms generalizing k with
  | nil => rfl
  | cons m ms ih =>
    rw [errorsIn_cons] at h ⊢
    cases hwarning : m.warning with
    | true =>
      simp only [hwarning, if_true] at h ⊢
      simp [beforeError, hwarning, ih h]
    | false =>
      simp only [hwarning, Bool.false_eq_true, if_false] at h ⊢
      obtain ⟨k, rfl⟩ := Nat.exists_eq_add_of_le' (Nat.le_of_add_left_le h)
      simp [beforeError, hwarning, ih (by omega : errorsIn ms ≤ k)]

theorem beforeError_of_lt {k : Nat} {ms : List Message} (h : k < errorsIn ms) (more : List Message) :
    beforeError k (ms ++ more) = beforeError k ms := by
  induction ms generalizing k with
  | nil => simp [errorsIn] at h
  | cons m ms ih =>
    rw [errorsIn_cons] at h
    cases hwarning : m.warning with
    | true =>
      simp only [hwarning, if_true] at h
      simp [beforeError, hwarning, ih h]
    | false =>
      simp only [hwarning, Bool.false_eq_true, if_false] at h
      cases k with
      | zero => simp [beforeError, hwarning]
      | succ k => simp [beforeError, hwarning, ih (by omega : k < errorsIn ms)]

theorem errorsIn_beforeError {k : Nat} {ms : List Message} (h : k < errorsIn ms) :
    errorsIn (beforeError k ms) = k := by
  induction ms generalizing k with
  | nil => simp [errorsIn] at h
  | cons m ms ih =>
    rw [errorsIn_cons] at h
    cases hwarning : m.warning with
    | true =>
      simp only [hwarning, if_true] at h
      simp [beforeError, hwarning, errorsIn_cons, ih h]
    | false =>
      simp only [hwarning, Bool.false_eq_true, if_false] at h
      cases k with
      | zero => simp [beforeError, hwarning, errorsIn]
      | succ k => simp [beforeError, hwarning, errorsIn_cons, ih (by omega : k < errorsIn ms)]

namespace Log

/-- The log as a run with the limit `k` leaves it: the same messages where they have no more errors,
else those before the first error beyond the limit, and the notice. -/
def cut (k : Nat) (l : Log) : Log where
  limit := k
  messages :=
    if l.errorCount ≤ k then l.messages else beforeError k l.messages ++ [notice ⟨k, []⟩]

variable {k : Nat} {l : Log}

theorem cut_of_le (h : l.errorCount ≤ k) : l.cut k = ⟨k, l.messages⟩ := by
  rw [cut, if_pos h]

theorem cut_of_lt (h : k < l.errorCount) :
    l.cut k = ⟨k, beforeError k l.messages ++ [notice ⟨k, []⟩]⟩ := by
  rw [cut, if_neg (by omega)]

@[simp]
theorem limit_cut (k : Nat) (l : Log) : (l.cut k).limit = k := rfl

theorem errorCount_cut_of_lt (h : k < l.errorCount) : (l.cut k).errorCount = k + 1 := by
  have hcount : (beforeError k l.messages).countP (fun m => !m.warning) = k :=
    errorsIn_beforeError h
  rw [cut_of_lt h, errorCount, List.countP_append, hcount]
  rfl

/-- A cut log is full exactly where errors were cut off. -/
theorem exceeded_cut (k : Nat) (l : Log) : (l.cut k).exceeded = decide (k < l.errorCount) := by
  rw [exceeded, limit_cut]
  by_cases h : k < l.errorCount
  · rw [errorCount_cut_of_lt h]
    simp [h]
  · rw [cut_of_le (by omega)]
    rfl

theorem hasErrors_cut (k : Nat) (l : Log) : (l.cut k).hasErrors = l.hasErrors := by
  simp only [hasErrors]
  by_cases h : k < l.errorCount
  · rw [errorCount_cut_of_lt h]
    simp only [Nat.zero_lt_succ, decide_true, Eq.comm (a := true), decide_eq_true_eq]
    omega
  · rw [cut_of_le (by omega)]
    rfl

/-- A log that is not full takes the message, or an error in place of an error. -/
theorem exists_add (h : l.exceeded = false) (m : Message) :
    ∃ x, x.warning = m.warning ∧ l.add m = { l with messages := l.messages ++ [x] } := by
  unfold add
  rw [h]
  simp only [Bool.false_eq_true, if_false]
  split
  next hlast =>
    refine ⟨l.notice, ?_, rfl⟩
    simp only [Bool.and_eq_true, Bool.not_eq_true'] at hlast
    rw [hlast.1]
    rfl
  next => exact ⟨m, rfl, rfl⟩

theorem add_of_warning (h : l.exceeded = false) {m : Message} (hm : m.warning = true) :
    l.add m = { l with messages := l.messages ++ [m] } := by
  simp [add, h, hm]

theorem add_of_lt (h : l.errorCount < l.limit) (m : Message) :
    l.add m = { l with messages := l.messages ++ [m] } := by
  rw [add, if_neg (by simp only [exceeded, decide_eq_true_eq]; omega),
    if_neg (by simp only [Bool.and_eq_true, decide_eq_true_eq]; omega)]

theorem cut_append {ms : List Message} (h : k < l.errorCount) :
    cut k { l with messages := l.messages ++ ms } = l.cut k := by
  have hcount : k < errorCount { l with messages := l.messages ++ ms } := by
    have hle : l.errorCount ≤ errorCount { l with messages := l.messages ++ ms } := by
      simp [errorCount, List.countP_append]
    omega
  rw [cut_of_lt hcount, cut_of_lt h, beforeError_of_lt h]

theorem cut_add (hk : k ≤ l.limit) (m : Message) : (l.add m).cut k = (l.cut k).add m := by
  by_cases hcut : k < l.errorCount
  · rw [add_of_exceeded (l := l.cut k) (by rw [exceeded_cut]; simpa using hcut)]
    cases hfull : l.exceeded with
    | true => rw [add_of_exceeded hfull]
    | false =>
      obtain ⟨x, -, hadd⟩ := exists_add hfull m
      rw [hadd, cut_append hcut]
  · have hle : l.errorCount ≤ k := by omega
    have hfull : l.exceeded = false := by simp only [exceeded, decide_eq_false_iff_not]; omega
    have hcount (x : Message) : errorCount { l with messages := l.messages ++ [x] }
        = l.errorCount + if x.warning then 0 else 1 := by
      cases hx : x.warning <;> simp [errorCount, List.countP_append, hx]
    rw [cut_of_le hle]
    cases hm : m.warning with
    | true =>
      have hroom : exceeded ⟨k, l.messages⟩ = false := by
        simp only [exceeded, decide_eq_false_iff_not]
        exact hcut
      rw [add_of_warning hfull hm, add_of_warning hroom hm, cut_of_le]
      rw [hcount, hm]
      exact hle
    | false =>
      rcases Nat.lt_or_eq_of_le hle with hlt | heq
      · rw [add_of_lt (by omega), add_of_lt (l := ⟨k, l.messages⟩) hlt, cut_of_le]
        rw [hcount, hm]
        exact hlt
      · -- The first error beyond the limit of the cut, with a notice in its place.
        obtain ⟨x, hx, hadd⟩ := exists_add hfull m
        rw [hm] at hx
        rw [hadd, cut_of_lt (by rw [hcount, hx, heq]; simp),
          beforeError_of_le (le_of_eq heq : errorsIn l.messages ≤ k)]
        have hnotice : add ⟨k, l.messages⟩ m = ⟨k, l.messages ++ [notice ⟨k, []⟩]⟩ := by
          have hlast : errorCount ⟨k, l.messages⟩ = k := heq
          simp [add, exceeded, hm, hlast, notice]
        have hnone : k - errorsIn l.messages = 0 := Nat.sub_eq_zero_of_le (le_of_eq heq.symm)
        rw [hnotice, hnone]
        simp [beforeError, hx]

theorem cut_addAll (hk : k ≤ l.limit) (ms : List Message) :
    (l.addAll ms).cut k = (l.cut k).addAll ms := by
  induction ms generalizing l with
  | nil => rfl
  | cons m ms ih =>
    have hstep (l : Log) : l.addAll (m :: ms) = (l.add m).addAll ms := rfl
    rw [hstep, hstep, ih (by rwa [limit_add]), cut_add hk]

theorem limit_addAll (l : Log) (ms : List Message) : (l.addAll ms).limit = l.limit := by
  induction ms generalizing l with
  | nil => rfl
  | cons m ms ih => exact (ih (l.add m)).trans (limit_add l m)

theorem addAll_of_exceeded (h : l.exceeded = true) (ms : List Message) : l.addAll ms = l := by
  induction ms with
  | nil => rfl
  | cons m ms ih =>
    rw [addAll, List.foldl_cons, add_of_exceeded h]
    exact ih

/-- Only a log with more errors than the cut keeps is full. -/
theorem exceeded_of_cut (hk : k ≤ l.limit) (h : (l.cut k).exceeded = false) :
    l.exceeded = false := by
  rw [exceeded_cut, decide_eq_false_iff_not] at h
  simp only [exceeded, decide_eq_false_iff_not]
  omega

end Log

/-! ### Two runs -/

class Logged (β : Type) where
  log : β → Log
  withLog : β → Log → β
  log_withLog : ∀ b l, log (withLog b l) = l

namespace Logged

variable {β γ : Type} [Logged β] [Logged γ]

def cut (k : Nat) (b : β) : β := withLog b ((log b).cut k)

theorem log_cut (k : Nat) (b : β) : log (cut k b) = (log b).cut k := log_withLog ..

/-- A state of a run with the limit `k` beside one of a run with a greater limit: its log is cut, and
nothing else differs as long as it is not full. -/
structure Trails (k : Nat) (b b' : β) : Prop where
  le : k ≤ (log b).limit
  log_eq : log b' = (log b).cut k
  eq_cut : (log b').exceeded = false → b' = cut k b

/-- The outcome of a run with the limit `k` beside that of a run with a greater limit. Where the latter
has a result, so has the former; and where the former has one and is not full, so has the latter. -/
structure Follows (k : Nat) (wide narrow : Except Fault β) : Prop where
  forth : ∀ b, wide = .ok b → ∃ b', narrow = .ok b' ∧ Trails k b b'
  back : ∀ b', narrow = .ok b' → (log b').exceeded = false → ∃ b, wide = .ok b ∧ Trails k b b'

variable {k : Nat}

theorem trails_cut {b : β} (h : k ≤ (log b).limit) : Trails k b (cut k b) :=
  ⟨h, log_cut k b, fun _ => rfl⟩

theorem Trails.of_addAll {b b' : β} {c c' : γ} (h : Trails k b b')
    (hfull : (log b').exceeded = true) {ms ms' : List Message}
    (hlog : log c = (log b).addAll ms) (hlog' : log c' = (log b').addAll ms') : Trails k c c' := by
  have hsame : log c' = log b' := hlog'.trans (Log.addAll_of_exceeded hfull ms')
  refine ⟨?_, ?_, ?_⟩
  · rw [hlog, Log.limit_addAll]
    exact h.le
  · rw [hsame, hlog, Log.cut_addAll h.le, ← h.log_eq, Log.addAll_of_exceeded hfull]
  · rw [hsame, hfull]
    exact nofun

/-- The function looks into no log: it adds messages only, the same to every log. -/
structure Blind (k : Nat) (f : β → γ) : Prop where
  cut_eq : ∀ b, k ≤ (log b).limit → f (cut k b) = cut k (f b)
  exists_log : ∀ b, ∃ ms, log (f b) = (log b).addAll ms

theorem Blind.le_limit {f : β → γ} (h : Blind k f) {b : β} (hk : k ≤ (log b).limit) :
    k ≤ (log (f b)).limit := by
  obtain ⟨ms, hms⟩ := h.exists_log b
  rw [hms, Log.limit_addAll]
  exact hk

theorem Blind.comp {δ : Type} [Logged δ] {g : γ → δ} {f : β → γ} (hg : Blind k g)
    (hf : Blind k f) : Blind k fun b => g (f b) where
  cut_eq b hk := by rw [hf.cut_eq b hk, hg.cut_eq _ (hf.le_limit hk)]
  exists_log b := by
    obtain ⟨ms, hms⟩ := hf.exists_log b
    obtain ⟨more, hmore⟩ := hg.exists_log (f b)
    exact ⟨ms ++ more, by rw [hmore, hms, Log.addAll_addAll]⟩

theorem Blind.foldl {α : Type} {f : β → α → β} (h : ∀ x, Blind k fun b => f b x) (xs : List α) :
    Blind k fun b => xs.foldl f b := by
  induction xs with
  | nil => exact ⟨fun _ _ => rfl, fun _ => ⟨[], rfl⟩⟩
  | cons x xs ih => exact ih.comp (h x)

instance : Logged Log where
  log l := l
  withLog _ l := l
  log_withLog _ _ := rfl

instance {α : Type} : Logged (β × α) where
  log p := log p.1
  withLog p l := (withLog p.1 l, p.2)
  log_withLog p l := log_withLog p.1 l

theorem Blind.pair {α : Type} {f : β → γ} (h : Blind k f) (a : α) : Blind k fun b => (f b, a) where
  cut_eq b hk := congrArg (·, a) (h.cut_eq b hk)
  exists_log := h.exists_log

theorem Blind.uncurry {α : Type} {f : α → β → γ} (h : ∀ a, Blind k (f a)) :
    Blind k fun p : β × α => f p.2 p.1 where
  cut_eq p := (h p.2).cut_eq p.1
  exists_log p := (h p.2).exists_log p.1

theorem Trails.map {b b' : β} (h : Trails k b b') {f : β → γ} (hf : Blind k f) :
    Trails k (f b) (f b') := by
  obtain ⟨ms, hms⟩ := hf.exists_log b
  obtain ⟨ms', hms'⟩ := hf.exists_log b'
  cases hfull : (log b').exceeded with
  | true => exact h.of_addAll hfull hms hms'
  | false =>
    rw [h.eq_cut hfull, hf.cut_eq b h.le]
    exact trails_cut (hf.le_limit h.le)

theorem Follows.ok {b b' : β} (h : Trails k b b') : Follows k (.ok b) (.ok b') where
  forth c hc := by
    cases hc
    exact ⟨b', rfl, h⟩
  back c' hc' _ := by
    cases hc'
    exact ⟨b, rfl, h⟩

theorem Follows.map {x y : Except Fault β} (h : Follows k x y) {f : β → γ} (hf : Blind k f) :
    Follows k (x.map f) (y.map f) where
  forth c hc := by
    cases x with
    | error fault => cases hc
    | ok b =>
      cases hc
      obtain ⟨b', rfl, htrails⟩ := h.forth b rfl
      exact ⟨f b', rfl, htrails.map hf⟩
  back c' hc' hroom := by
    cases y with
    | error fault => cases hc'
    | ok b' =>
      cases hc'
      obtain ⟨ms, hms⟩ := hf.exists_log b'
      have hroom' : (log b').exceeded = false := by
        rw [← Bool.not_eq_true]
        intro hfull
        rw [hms, Log.addAll_of_exceeded hfull, hfull] at hroom
        cases hroom
      obtain ⟨b, rfl, htrails⟩ := h.back b' rfl hroom'
      exact ⟨f b, rfl, htrails.map hf⟩

theorem Follows.error (fault fault' : Fault) :
    Follows k (.error fault : Except Fault β) (.error fault') := ⟨nofun, nofun⟩

/-- One run after another. A full run has to stay full. -/
theorem Follows.bind {x y : Except Fault β} {f g : β → Except Fault γ} (h : Follows k x y)
    (hnext : ∀ b b', Trails k b b' → Follows k (f b) (g b'))
    (hfull : ∀ b', (log b').exceeded = true → ∀ c', g b' = .ok c' → (log c').exceeded = true) :
    Follows k (x >>= f) (y >>= g) where
  forth c hc := by
    cases x with
    | error fault => cases hc
    | ok b =>
      obtain ⟨b', rfl, htrails⟩ := h.forth b rfl
      exact (hnext b b' htrails).forth c hc
  back c' hc' hroom := by
    cases y with
    | error fault => cases hc'
    | ok b' =>
      have hroom' : (log b').exceeded = false := by
        rw [← Bool.not_eq_true]
        intro hfull'
        rw [hfull b' hfull' c' hc'] at hroom
        cases hroom
      obtain ⟨b, rfl, htrails⟩ := h.back b' rfl hroom'
      exact (hnext b b' htrails).back c' hc' hroom

/-- What a full log keeps from being done. -/
theorem Follows.step {b b' : β} {x y : Except Fault γ} (h : Trails k b b')
    (hlog : ∀ c, x = .ok c → ∃ ms, log c = (log b).addAll ms)
    (hskip : (log b').exceeded = true → ∃ c', y = .ok c' ∧ log c' = log b')
    (hstep : (log b').exceeded = false → b' = cut k b → Follows k x y) : Follows k x y := by
  cases hfull : (log b').exceeded with
  | false => exact hstep hfull (h.eq_cut hfull)
  | true =>
    obtain ⟨c', rfl, hsame⟩ := hskip hfull
    refine ⟨fun c hc => ?_, fun d' hd' hroom => ?_⟩
    · obtain ⟨ms, hms⟩ := hlog c hc
      have hsame' : log c' = (log b').addAll [] := hsame
      exact ⟨c', rfl, h.of_addAll hfull hms hsame'⟩
    · cases hd'
      rw [hsame, hfull] at hroom
      cases hroom

theorem Follows.foldlM {α : Type} {xs : List α} {f g : β → α → Except Fault β}
    (hlog : ∀ b x c, f b x = .ok c → ∃ ms, log c = (log b).addAll ms)
    (hskip : ∀ b' x, (log b').exceeded = true → g b' x = .ok b')
    (hstep : ∀ b, ∀ x ∈ xs, k ≤ (log b).limit → (log (cut k b)).exceeded = false →
      Follows k (f b x) (g (cut k b) x))
    {b b' : β} (h : Trails k b b') : Follows k (xs.foldlM f b) (xs.foldlM g b') := by
  have hskipAll : ∀ ys : List α, ∀ b', (log b').exceeded = true → ys.foldlM g b' = .ok b' := by
    intro ys b' hfull
    induction ys with
    | nil => rfl
    | cons y ys ih =>
      rw [List.foldlM_cons, hskip b' y hfull]
      exact ih
  induction xs generalizing b b' with
  | nil => exact .ok h
  | cons x xs ih =>
    rw [List.foldlM_cons, List.foldlM_cons]
    apply Follows.bind
    · apply Follows.step h (hlog b x) fun hfull => ⟨b', hskip b' x hfull, rfl⟩
      rintro hroom rfl
      exact hstep b x List.mem_cons_self h.le hroom
    · intro c c' htrails
      exact ih (fun b x hx => hstep b x (List.mem_cons_of_mem _ hx)) htrails
    · intro c' hfull d' hd'
      rw [hskipAll xs c' hfull] at hd'
      cases hd'
      exact hfull

end Logged

open Logged

instance : Logged Session where
  log s := s.log
  withLog s l := { s with log := l }
  log_withLog _ _ := rfl

def Reading.withLog (r : Reading) (l : Log) : Reading := { r with log := l }

instance : Logged Reading where
  log r := r.log
  withLog := Reading.withLog
  log_withLog _ _ := rfl

/-! ### Steps -/

namespace Reading

variable {k : Nat} {r : Reading}

theorem report_cut (hk : k ≤ r.log.limit) (note : Text) (t : Token) (p : Problem) :
    (cut k r).report note t p = cut k (r.report note t p) :=
  congrArg r.withLog (Log.cut_add hk _).symm

theorem trails_record (hk : k ≤ r.log.limit) (m : Message) :
    Trails k (r.record m) ((cut k r).record m) := by
  have hcut : (cut k r).record m = cut k (r.record m) := congrArg r.withLog (Log.cut_add hk m).symm
  rw [hcut]
  exact trails_cut (hk.trans (Log.limit_add r.log m).ge)

@[simp]
theorem image_cut : (cut k r).image = r.image := rfl

@[simp]
theorem global_cut : (cut k r).global = r.global := rfl

@[simp]
theorem cursors_cut : (cut k r).cursors = r.cursors := rfl

@[simp]
theorem pool_cut : (cut k r).pool = r.pool := rfl

@[simp]
theorem lookup_cut (name : Text) : (cut k r).lookup name = r.lookup name := rfl

theorem defineLabel_cut (hk : k ≤ r.log.limit) (note : Text) (t : Token) :
    (cut k r).defineLabel note t = cut k (r.defineLabel note t) := by
  have hadd : (cut k r).labels.add
        ⟨t.text, (cut k r).cursors.here, (cut k r).cursors.segment.isData⟩
      = r.labels.add ⟨t.text, r.cursors.here, r.cursors.segment.isData⟩ := rfl
  unfold defineLabel
  rw [pool_cut, hadd]
  split
  · rfl
  · cases r.labels.add ⟨t.text, r.cursors.here, r.cursors.segment.isData⟩ with
    | ok labels => rfl
    | error e => exact report_cut hk note t _

theorem storeBytes_withLog (r : Reading) (l : Log) (bytes : Text) :
    (r.withLog l).storeBytes bytes
      = ((r.storeBytes bytes).1.withLog l, (r.storeBytes bytes).2) := by
  induction bytes generalizing r with
  | nil => rfl
  | cons b rest ih =>
    have hstore : (r.withLog l).image.store (r.withLog l).dataCursor b.toNat 1
        = r.image.store r.dataCursor b.toNat 1 := rfl
    rw [storeBytes, storeBytes, hstore]
    generalize r.image.store r.dataCursor b.toNat 1 = result
    obtain ⟨image, refused⟩ := result
    cases refused with
    | some e => rfl
    | none => exact ih ({ r with image := image }.advanceData 1)

theorem writeValue_cut (hk : k ≤ r.log.limit) (note : Text) (t : Token) (a : Address) (v : Int)
    (width : Nat) : (cut k r).writeValue note t a v width = cut k (r.writeValue note t a v width) := by
  unfold writeValue
  split
  · rw [image_cut]
    generalize r.image.setDouble a (BitVec.ofInt 64 v) = result
    obtain ⟨image, refused⟩ := result
    cases refused with
    | none => rfl
    | some e => exact report_cut (r := { r with image := image }) hk note t _
  · rw [image_cut]
    generalize r.image.store a v width = result
    obtain ⟨image, refused⟩ := result
    cases refused with
    | none => rfl
    | some e => exact report_cut (r := { r with image := image }) hk note t _

theorem foldl_share_cut (hk : k ≤ r.log.limit) (note : Text) (d : Directive)
    (operands : List Token) :
    operands.foldl (fun r t =>
        if t.kind.isLabel then { r with exported := r.exported ++ [t] }
        else r.report note t (.badGlobalLabel t.text d)) (cut k r)
      = cut k (operands.foldl (fun r t =>
        if t.kind.isLabel then { r with exported := r.exported ++ [t] }
        else r.report note t (.badGlobalLabel t.text d)) r) := by
  induction operands generalizing r with
  | nil => rfl
  | cons t operands ih =>
    rw [List.foldl_cons, List.foldl_cons]
    split
    · exact ih (r := { r with exported := r.exported ++ [t] }) hk
    · rw [report_cut hk]
      apply ih
      exact hk.trans (Log.limit_add _ _).ge

end Reading

/-- What a full log ends is the only difference that the limit makes. -/
theorem Action.perform_cut {k : Nat} {r : Reading} (hk : k ≤ r.log.limit) (s : Scope) (a : Action) :
    a.perform s (cut k r) = cut k (a.perform s r) := by
  have hreport := @Reading.report_cut k r hk
  cases a with
  | label note t => exact Reading.defineLabel_cut hk note t
  | select note directive operands segment =>
    simp only [perform, Reading.selectSegment]
    split
    · rfl
    · split
      · rfl
      · exact Reading.report_cut (r := { r with
          cursors := { r.cursors with segment := segment, autoAlign := true } }) hk note _ _
  | space note directive operands =>
    simp only [perform, Reading.executeSpace]
    rw [Reading.cursors_cut]
    split
    · exact hreport note directive _
    · split
      · split
        · rfl
        · exact hreport note directive _
      · exact hreport note directive _
  | external note directive operands =>
    simp only [perform, Reading.executeExternal, Reading.cursors_cut, Reading.global_cut]
    split
    · split
      · split <;> rfl
      · exact hreport note directive _
    · exact hreport note directive _
  | share note d directive operands =>
    simp only [perform, Reading.executeGlobal]
    split
    · exact hreport note directive _
    · exact Reading.foldl_share_cut hk note d operands
  | beginMacro note index directive operands =>
    simp only [perform, Reading.executeBegin_eq, Reading.pool_cut]
    cases r.pool.begin operands index with
    | ok pool => rfl
    | error e => exact hreport note directive _
  | endMacro note index directive operands =>
    simp only [perform, Reading.executeEnd_eq, Reading.pool_cut]
    cases r.pool.commit index directive.line operands with
    | ok pool => rfl
    | error e => exact hreport note directive _
  | align segment multiple =>
    simp only [perform, Reading.align]
    rw [Reading.cursors_cut]
    split <;> rfl
  | number note t width value =>
    exact congrArg (·.advanceData width) (Reading.writeValue_cut hk note t _ value width)
  | reference note t width =>
    simp only [perform, Reading.lookup_cut]
    cases r.lookup t.text with
    | some symbol =>
      exact congrArg (·.advanceData width) (Reading.writeValue_cut hk note t _ _ width)
    | none =>
      simp only [Reading.writePending, Reading.writeValue_cut hk note t]
      rfl
  | string note t bytes =>
    obtain ⟨image, cursors, hstore, -⟩ := r.storeBytes_frame bytes
    have hcut : (cut k r).storeBytes bytes
        = ((r.storeBytes bytes).1.withLog (r.log.cut k), (r.storeBytes bytes).2) :=
      r.storeBytes_withLog (r.log.cut k) bytes
    simp only [perform, hcut]
    cases hrefused : r.storeBytes bytes with
    | mk stored refused =>
      rw [hrefused] at hstore
      subst hstore
      cases refused with
      | none => rfl
      | some e =>
        exact Reading.report_cut (r := { r with image := image, cursors := cursors }) hk note t _
  | report note t p => exact hreport note t p
  | record messages =>
    exact congrArg r.withLog (Log.cut_addAll hk messages).symm
  | instruction note tokenLine operator operands =>
    simp only [perform, Reading.readInstruction]
    rw [Reading.pool_cut]
    split
    · split <;> exact hreport note operator _
    · split
      · exact hreport note operator _
      · split
        · exact hreport note operator _
        · split
          · exact hreport note _ _
          · rfl
  | announce d => rfl
  | unalign => rfl
  | enter => rfl

theorem Scope.exists_performAll_log (s : Scope) (r : Reading) (actions : List Action) :
    ∃ ms, (s.performAll r actions).log = r.log.addAll ms := by
  induction actions generalizing r with
  | nil => exact ⟨[], rfl⟩
  | cons a actions ih =>
    obtain ⟨ms, hms⟩ := (Action.effect_perform s r a).log
    obtain ⟨more, hmore⟩ := ih (a.perform s r)
    exact ⟨ms ++ more, by rw [Scope.performAll_cons, hmore, hms, Log.addAll_addAll]⟩

theorem Scope.performAll_cut {k : Nat} {r : Reading} (hk : k ≤ r.log.limit) (s : Scope)
    (actions : List Action) :
    s.performAll (cut k r) actions = cut k (s.performAll r actions) := by
  induction actions generalizing r with
  | nil => rfl
  | cons a actions ih =>
    obtain ⟨ms, hms⟩ := (Action.effect_perform s r a).log
    rw [Scope.performAll_cons, Scope.performAll_cons, Action.perform_cut hk]
    apply ih
    rw [hms, Log.limit_addAll]
    exact hk

def Scope.withLimit (s : Scope) (limit : Int) : Scope :=
  { s with config := { s.config with errorLimit := limit } }

theorem Scope.performAll_withLimit (s : Scope) (limit : Int) (r : Reading) (actions : List Action) :
    (s.withLimit limit).performAll r actions = s.performAll r actions := by
  induction actions generalizing r with
  | nil => rfl
  | cons a actions ih =>
    have hsame : a.perform (s.withLimit limit) r = a.perform s r := by cases a <;> rfl
    rw [Scope.performAll_cons, Scope.performAll_cons, hsame, ih]

/-! ### Lines -/

namespace Reading

variable {k : Nat} {r : Reading}

theorem stringActions_withLog (r : Reading) (l : Log) (note : Text) (d : Directive)
    (operands : List Token) :
    (r.withLog l).stringActions note d operands = r.stringActions note d operands := by
  induction operands generalizing r l with
  | nil => rfl
  | cons t rest ih =>
    rw [stringActions, stringActions]
    split
    · have hreport (r : Reading) (p : Problem) :
          (r.report note t p).stringActions note d rest = r.stringActions note d rest := ih r _
      rw [hreport, hreport, ih]
    · generalize Literal.unescape (stringBody t.text) = unescaped
      obtain ⟨bytes, problem⟩ := unescaped
      have hproblem (r : Reading) : ∃ l,
          problem.elim r (fun e => r.report note t (.escape e)) = r.withLog l := by
        cases problem with
        | none => exact ⟨r.log, rfl⟩
        | some e => exact ⟨_, rfl⟩
      obtain ⟨l₁, h₁⟩ := hproblem (r.withLog l)
      obtain ⟨l₂, h₂⟩ := hproblem r
      simp only [h₁, h₂, storeBytes_withLog]
      cases r.storeBytes (if (d == Directive.ascii) = true then bytes else bytes ++ [0]) with
      | mk stored refused => cases refused <;> simp only [ih]

theorem dataActions_cut (note : Text) (d : Directive) (operands : List Token) :
    (cut k r).dataActions note d operands = r.dataActions note d operands := by
  unfold dataActions
  split
  · exact stringActions_withLog r (r.log.cut k) note d operands
  · rfl

theorem executeActions_cut (note : Text) (index : Int) (directive : Token) (operands : List Token) :
    (cut k r).executeActions note index directive operands
      = r.executeActions note index directive operands := by
  unfold executeActions
  cases Directive.ofName? directive.text with
  | none => rfl
  | some d =>
    have hdata : (cut k r).directiveActions note index d directive operands
        = r.directiveActions note index d directive operands := by
      let announced : Reading := { r with cursors := { r.cursors with directive := some d } }
      have hannounced := congrArg (fun actions => Action.announce d ::
          if r.cursors.segment.isData then actions
          else [.report note directive (.directiveInText d)])
        (dataActions_cut (k := k) (r := announced) note d operands)
      cases d with
      | word | half | byte | doubleWord | float | double | ascii | asciz | string =>
        exact hannounced
      | _ => rfl
    simp only [hdata]
    rfl

theorem plainActions_cut (note : Text) (tokenLine : TokenLine) (first : Token) (rest : List Token) :
    (cut k r).plainActions note tokenLine first rest
      = r.plainActions note tokenLine first rest := by
  unfold plainActions
  rw [cursors_cut]
  split
  · rfl
  · split
    · cases r.cursors.directive with
      | none => rfl
      | some d => exact dataActions_cut note d (first :: rest)
    · rfl

theorem defineLabels_cut (hk : k ≤ r.log.limit) (s : Scope) (note : Text) (tokens : List Token) :
    (cut k r).defineLabels note tokens
      = (cut k (r.defineLabels note tokens).1, (r.defineLabels note tokens).2) := by
  rw [defineLabels_eq s, defineLabels_eq s, Scope.performAll_cut hk]

theorem exists_defineLabels_log (r : Reading) (s : Scope) (note : Text) (tokens : List Token) :
    ∃ ms, (r.defineLabels note tokens).1.log = r.log.addAll ms := by
  rw [defineLabels_eq s]
  exact s.exists_performAll_log r _

theorem readPlainLine_cut (hk : k ≤ r.log.limit) (s : Scope) (limit : Int) (note : Text)
    (index : Int) (line : TokenLine) :
    (cut k r).readPlainLine (s.withLimit limit) note index line
      = cut k (r.readPlainLine s note index line) := by
  unfold readPlainLine
  simp only [defineLabels_cut hk s]
  obtain ⟨ms, hms⟩ := r.exists_defineLabels_log s note line.withoutComment.tokens
  generalize r.defineLabels note line.withoutComment.tokens = labelled at hms ⊢
  obtain ⟨r', tokens⟩ := labelled
  have hk' : k ≤ r'.log.limit := by
    rw [hms, Log.limit_addAll]
    exact hk
  split
  · rfl
  · cases tokens with
    | nil => rfl
    | cons first rest =>
      simp only
      split
      · rw [execute_eq s, execute_eq s, executeActions_cut, Scope.performAll_cut hk']
      · rw [pool_cut]
        split
        · rfl
        · rw [readPlain_eq, readPlain_eq, plainActions_cut, Scope.performAll_withLimit,
            Scope.performAll_cut hk']

end Reading

def MacroCall.cut (k : Nat) (c : MacroCall) : MacroCall := { c with before := Logged.cut k c.before }

theorem Reading.callIn?_cut {k : Nat} {r : Reading} (hk : k ≤ r.log.limit) (s : Scope) (note : Text)
    (line : TokenLine) :
    (cut k r).callIn? note line = (r.callIn? note line).map (MacroCall.cut k) := by
  unfold callIn?
  simp only [defineLabels_cut hk s]
  split
  · rfl
  · generalize r.defineLabels note line.withoutComment.tokens = labelled
    obtain ⟨r', tokens⟩ := labelled
    cases tokens with
    | nil => rfl
    | cons first rest =>
      simp only
      rw [pool_cut]
      split
      · rfl
      · rw [Option.map_map]
        rfl

namespace LineReading

variable {k : Nat}

/-- The reading in a run with another limit, whose log is cut. -/
def narrow (v : LineReading) (k : Nat) (limit : Int) : LineReading :=
  { v with scope := v.scope.withLimit limit, before := cut k v.before }

theorem exists_log_of_result {v : LineReading} {r : Reading} (h : v.result = .ok r) :
    ∃ ms, r.log = v.before.log.addAll ms := by
  rw [Reading.readLine_eq v.scope h]
  exact v.scope.exists_performAll_log v.before _

theorem exists_log_of_readBodyLine {v : LineReading} {c : MacroCall} {r r' : Reading} {i : Int}
    (h : v.readBodyLine c r i = .ok r') : ∃ ms, r'.log = r.log.addAll ms := by
  rw [Reading.expandLine_eq v.scope (fun hnext => Reading.readLine_eq v.scope hnext) h]
  exact v.scope.exists_performAll_log r _

theorem readBodyLine_of_exceeded (v : LineReading) (c : MacroCall) {r : Reading} (i : Int)
    (h : r.log.exceeded = true) : v.readBodyLine c r i = .ok r := by
  unfold readBodyLine Reading.expandLine
  rw [if_pos h]

theorem lineAt?_narrow (v : LineReading) (k : Nat) (limit : Int) (i : Int) :
    Macro.lineAt? (v.narrow k limit).scope.lines i = Macro.lineAt? v.scope.lines i := rfl

theorem substitute_narrow (v : LineReading) (c : MacroCall) (k : Nat) (limit : Int) (i : Int) :
    (c.cut k).callee.substitute (v.narrow k limit).scope.lines i (c.cut k).tokens (c.cut k).counter
      = c.callee.substitute v.scope.lines i c.tokens c.counter := rfl

theorem bodyLine?_narrow {v : LineReading} {c : MacroCall} {r : Reading} (hk : k ≤ r.log.limit)
    (hroom : (cut k r).log.exceeded = false) (limit : Int) (i : Int) :
    (v.narrow k limit).bodyLine? (c.cut k) (cut k r) i
      = (v.bodyLine? c r i).map fun w => w.narrow k limit := by
  have hroom' : r.log.exceeded = false := Log.exceeded_of_cut hk hroom
  unfold bodyLine?
  rw [hroom, hroom', lineAt?_narrow, substitute_narrow]
  cases Macro.lineAt? v.scope.lines i with
  | none => rfl
  | some body =>
    cases c.callee.substitute v.scope.lines i c.tokens c.counter with
    | error e => rfl
    | ok text =>
      have hlog (ms : List Message) : (cut k r).log.addAll ms = (r.log.addAll ms).cut k :=
        (Log.cut_addAll hk ms).symm
      simp only [hlog]
      rfl

theorem follows_readBodyLine {v : LineReading} {c : MacroCall} {r : Reading} (hk : k ≤ r.log.limit)
    (hroom : (cut k r).log.exceeded = false) (limit : Int) (i : Int)
    (hnext : ∀ w, v.bodyLine? c r i = some w → k ≤ w.before.log.limit →
      Follows k w.result (w.narrow k limit).result) :
    Follows k (v.readBodyLine c r i) ((v.narrow k limit).readBodyLine (c.cut k) (cut k r) i) := by
  have hroom' : r.log.exceeded = false := Log.exceeded_of_cut hk hroom
  have hnarrow := bodyLine?_narrow (v := v) (c := c) hk hroom limit i
  cases hw : v.bodyLine? c r i with
  | some w =>
    rw [hw, Option.map_some] at hnarrow
    rw [readBodyLine_of_some hw, readBodyLine_of_some hnarrow]
    apply hnext w hw
    obtain ⟨-, -, -, -, ⟨ms, hms⟩, -⟩ := of_bodyLine? hw
    rw [hms, Log.limit_addAll]
    exact hk
  | none =>
    unfold readBodyLine Reading.expandLine
    rw [hroom, hroom', lineAt?_narrow, substitute_narrow]
    cases hbody : Macro.lineAt? v.scope.lines i with
    | none => exact .error _ _
    | some body =>
      simp only
      cases htext : c.callee.substitute v.scope.lines i c.tokens c.counter with
      | error e =>
        simp only
        cases e.isFault with
        | true => exact .error _ _
        | false => exact .ok (Reading.trails_record hk _)
      | ok text => simp [bodyLine?, hroom', hbody, htext] at hw

/-- Of a line too, a run with a smaller limit reads the same until its log is full. -/
theorem follows_result (v : LineReading) (hk : k ≤ v.before.log.limit) (limit : Int) :
    Follows k v.result (v.narrow k limit).result := by
  have hcall : (v.narrow k limit).call? = v.call?.map (MacroCall.cut k) :=
    Reading.callIn?_cut hk v.scope v.note v.line
  cases hc : v.call? with
  | none =>
    rw [hc, Option.map_none] at hcall
    obtain ⟨ms, hms⟩ := exists_log_of_result (result_of_none hc)
    have hplain : (v.narrow k limit).plain = cut k v.plain :=
      Reading.readPlainLine_cut hk v.scope limit v.note v.index v.line
    have hk' : k ≤ v.plain.log.limit := by
      rw [hms, Log.limit_addAll]
      exact hk
    rw [result_of_none hc, result_of_none hcall, hplain]
    exact .ok (trails_cut hk')
  | some c =>
    rw [hc, Option.map_some] at hcall
    obtain ⟨ms, hms⟩ := v.before.exists_defineLabels_log v.scope v.note v.line.withoutComment.tokens
    rw [← (of_call? hc).1] at hms
    have hk' : k ≤ c.before.log.limit := by
      rw [hms, Log.limit_addAll]
      exact hk
    have hresult : (v.narrow k limit).result =
        if v.line.source.line ∈ v.stack.lines then
          .ok ((cut k c.before).report v.note c.first .expansionLoop)
        else if v.scope.room (.ofCallers (v.inner c)) < v.scope.room v.stack then
          (v.narrow k limit).readBody (c.cut k)
        else .error .strayLine := result_of_some hcall
    rw [result_of_some hc, hresult]
    split
    · exact .ok (Reading.trails_record hk' _)
    · split
      next hroom =>
        apply Follows.foldlM
        · exact fun r i r' h => exists_log_of_readBodyLine h
        · exact fun r i h => readBodyLine_of_exceeded _ _ i h
        · intro r i _ hle hfull
          apply follows_readBodyLine hle hfull
          intro w hw hle'
          have hsmaller := room_of_bodyLine? hw hroom
          exact w.follows_result hle' limit
        · exact trails_cut (b := c.entered) hk'
      next => exact .error _ _
termination_by v.scope.room v.stack

end LineReading

end Rv32Assembler
