import Rv32Assembler.Assembly.Program
import Rv32Assembler.Proofs.Log
import Rv32Assembler.Proofs.Memory
/-!
# Placing machine statements

Placing goes through without an error only when every statement lies at a multiple of four in a text
segment and no two lie at one address. Then each of them reads back from memory, word and statement,
whatever the memory held before (`generate_of_clean`).
-/

namespace Rv32Assembler

namespace MachineStatement

def range (m : MachineStatement) : Address × Nat := (m.address, 4)

/-- The statement is in a text segment at a multiple of four, and the image has it there. -/
structure PlacedIn (m : MachineStatement) (image : Image MachineStatement) : Prop where
  aligned : m.address.toNat % 4 = 0
  inText : image.layout.inText m.address = true
  bytes : image.bytesFrom m.address 4 = littleEndian 4 m.code.toNat
  statement : image.statement m.address = some m

theorem PlacedIn.word {m : MachineStatement} {image : Image MachineStatement}
    (h : m.PlacedIn image) : image.word m.address = .ok m.code := by
  refine Image.word_eq_ok ⟨.inr (.inr rfl), h.aligned, ?_⟩ h.bytes
  simp [Layout.mapped, h.inText]

theorem place_of_clean {m : MachineStatement} {s : Session}
    (h : (m.place s).log.hasErrors = false) :
    ∃ image, m.place s = { s with image := image } ∧ m.PlacedIn image ∧
      Image.ChangesWithin [m.range] s.image image ∧
      ∀ x, x ≠ m.address → image.statement x = s.image.statement x := by
  rw [place, Image.storeStatement_eq] at h ⊢
  cases hset : s.image.setStatement m.address m.code m with
  | error e =>
    rw [hset] at h
    cases (Log.hasErrors_add_eq_false_iff.1 h).2
  | ok image =>
    obtain ⟨htext, written, hwritten, rfl⟩ := Image.setStatement_eq_ok_iff.1 hset
    have hchanges := Image.changesWithin_of_set hwritten
    obtain ⟨hadmits, -⟩ := Image.set_eq_ok_iff.1 hwritten
    refine ⟨_, rfl, ⟨hadmits.aligned, ?_, Image.bytesFrom_of_set hwritten, ?_⟩,
      ⟨hchanges.layout, hchanges.byte⟩, ?_⟩
    · exact (congrArg (fun l => l.inText m.address) hchanges.layout).trans htext
    · rw [Image.statement_insert, if_pos rfl]
    · intro x hx
      rw [Image.statement_insert, if_neg hx]
      obtain ⟨-, rfl⟩ := Image.set_eq_ok_iff.1 hwritten
      simp [Image.statement]

/-- A statement that is placed stays when one at another address is placed. -/
theorem PlacedIn.of_place {m m' : MachineStatement} {s : Session} {image : Image MachineStatement}
    (h : m.PlacedIn s.image) (hplaced : m'.PlacedIn image)
    (hchanges : Image.ChangesWithin [m'.range] s.image image)
    (hstatements : ∀ x, x ≠ m'.address → image.statement x = s.image.statement x)
    (hne : m.address ≠ m'.address) : m.PlacedIn image := by
  refine ⟨h.aligned, ?_, ?_, ?_⟩
  · rw [hchanges.layout]
    exact h.inText
  · rw [hchanges.bytesFrom_eq]
    · exact h.bytes
    · intro r hr
      rw [List.mem_singleton.1 hr]
      exact apart_of_aligned h.aligned hplaced.aligned hne
  · rw [hstatements m.address hne]
    exact h.statement

end MachineStatement

theorem clean_of_placeAll {machine : List MachineStatement} {s : Session}
    (h : (machine.foldl (fun s m => m.place s) s).log.hasErrors = false) :
    s.log.hasErrors = false := by
  induction machine generalizing s with
  | nil => exact h
  | cons m machine ih =>
    have hplaced : (m.place s).log.hasErrors = false := ih h
    unfold MachineStatement.place Session.stored at hplaced
    split at hplaced
    · exact (Log.hasErrors_add_eq_false_iff.1 hplaced).1
    · exact hplaced

/-- Statements at different addresses that are placed without an error are all in the image, and so
are those that were there at other addresses. -/
theorem placeAll_of_clean {machine : List MachineStatement} {s : Session}
    (hdistinct : (machine.map fun m => m.address).Nodup)
    (h : (machine.foldl (fun s m => m.place s) s).log.hasErrors = false) :
    ∃ image, machine.foldl (fun s m => m.place s) s = { s with image := image } ∧
      Image.ChangesWithin (machine.map MachineStatement.range) s.image image ∧
      (∀ m ∈ machine, m.PlacedIn image) ∧
      ∀ m : MachineStatement, m.PlacedIn s.image → m.address ∉ machine.map (fun m => m.address) →
        m.PlacedIn image := by
  induction machine generalizing s with
  | nil =>
    refine ⟨s.image, rfl, Image.ChangesWithin.refl _ _, ?_, fun _ hm _ => hm⟩
    intro m hm
    cases hm
  | cons first rest ih =>
    rw [List.map_cons, List.nodup_cons] at hdistinct
    obtain ⟨placed, hplace, hfirst, hchanges, hstatements⟩ :=
      MachineStatement.place_of_clean (clean_of_placeAll h)
    rw [List.foldl_cons, hplace] at h ⊢
    obtain ⟨image, hrun, hrest, hall, hkept⟩ := ih hdistinct.2 h
    refine ⟨image, hrun, hchanges.trans hrest, ?_, ?_⟩
    · intro m hm
      rcases List.mem_cons.1 hm with rfl | hm
      · exact hkept m hfirst hdistinct.1
      · exact hall m hm
    · intro m hm hfree
      rw [List.map_cons, List.mem_cons, not_or] at hfree
      exact hkept m (hm.of_place hfirst hchanges hstatements hfree.1) hfree.2

namespace MachineStatement

theorem clashes_warning {machine : List MachineStatement} :
    ∀ message ∈ clashes machine, message.warning = false := by
  fun_induction clashes machine with
  | case1 a b rest ih =>
    intro message hmessage
    rcases List.mem_append.1 hmessage with hclash | hrest
    · unfold clash? at hclash
      split at hclash
      · rw [List.mem_singleton.1 hclash]
        rfl
      · cases hclash
    · exact ih message hrest
  | case2 => nofun

/-- In the order of addresses, neighbours that do not clash put all statements at different
addresses. -/
theorem pairwise_of_clashes {machine : List MachineStatement}
    (hsorted : machine.Pairwise fun a b => a.precedes b = true) (h : clashes machine = []) :
    machine.Pairwise fun a b => a.address < b.address := by
  induction machine with
  | nil => exact List.Pairwise.nil
  | cons a rest ih =>
    cases rest with
    | nil => exact List.pairwise_singleton _ _
    | cons b rest =>
      rw [clashes, List.append_eq_nil_iff] at h
      have hstrict := ih (List.pairwise_cons.1 hsorted).2 h.2
      have hle : a.address ≤ b.address := by
        have hprecedes := (List.pairwise_cons.1 hsorted).1 b (List.mem_cons_self ..)
        simpa [precedes, BitVec.ule_iff_le] using hprecedes
      have hne : a.address ≠ b.address := by
        intro heq
        simp [clash?, heq] at h
      have hlt : a.address < b.address := BitVec.lt_of_le_ne hle hne
      refine List.pairwise_cons.2 ⟨?_, hstrict⟩
      intro m hm
      rcases List.mem_cons.1 hm with rfl | hm
      · exact hlt
      · exact BitVec.lt_trans hlt ((List.pairwise_cons.1 hstrict).1 m hm)

theorem clashes_eq_nil {machine : List MachineStatement}
    (h : machine.Pairwise fun a b => a.address < b.address) : clashes machine = [] := by
  fun_induction clashes machine with
  | case1 a b rest ih =>
    have hlt : a.address < b.address := (List.pairwise_cons.1 h).1 b (List.mem_cons_self ..)
    rw [ih (List.pairwise_cons.1 h).2, clash?, if_neg (BitVec.ne_of_lt hlt)]
    rfl
  | case2 => rfl

theorem mergeSort_eq_self {machine : List MachineStatement}
    (h : machine.Pairwise fun a b => a.address < b.address) :
    machine.mergeSort precedes = machine := by
  apply List.mergeSort_of_pairwise
  refine h.imp ?_
  intro a b hlt
  simp only [precedes, BitVec.ule_iff_le]
  exact BitVec.le_of_lt hlt

theorem pairwise_mergeSort (machine : List MachineStatement) :
    (machine.mergeSort precedes).Pairwise fun a b => a.precedes b = true := by
  apply List.pairwise_mergeSort
  · intro a b c hab hbc
    simp only [precedes, BitVec.ule_iff_le] at hab hbc ⊢
    exact BitVec.le_trans hab hbc
  · intro a b
    simp only [precedes, Bool.or_eq_true, BitVec.ule_iff_le]
    exact BitVec.le_total a.address b.address

end MachineStatement

/-- What generating code without an error brings about. -/
theorem generate_of_clean {s : Session} {machine : List MachineStatement}
    (h : (s.generate machine).1.log.hasErrors = false) :
    ∃ image, (s.generate machine).1 = { s with image := image } ∧
      (s.generate machine).2.Perm machine ∧
      (s.generate machine).2.Pairwise (fun a b => a.address < b.address) ∧
      Image.ChangesWithin (machine.map MachineStatement.range) s.image image ∧
      ∀ m ∈ machine, m.PlacedIn image := by
  unfold Session.generate at h ⊢
  obtain ⟨hplaced, hwarnings⟩ := Log.hasErrors_addAll_eq_false_iff.1 h
  have hclashes : MachineStatement.clashes (machine.mergeSort MachineStatement.precedes) = [] := by
    refine List.eq_nil_iff_forall_not_mem.2 fun message hmessage => ?_
    have hwarning := hwarnings message hmessage
    rw [MachineStatement.clashes_warning message hmessage] at hwarning
    cases hwarning
  have hperm := List.mergeSort_perm machine MachineStatement.precedes
  have hstrict := MachineStatement.pairwise_of_clashes
    (MachineStatement.pairwise_mergeSort machine) hclashes
  have hdistinct : (machine.map fun m => m.address).Nodup := by
    rw [← (hperm.map _).nodup_iff, List.nodup_iff_pairwise_ne, List.pairwise_map]
    exact hstrict.imp BitVec.ne_of_lt
  obtain ⟨image, hrun, hchanges, hall, -⟩ := placeAll_of_clean hdistinct hplaced
  refine ⟨image, ?_, hperm, hstrict, hchanges, hall⟩
  simp only [hrun, hclashes]
  rfl

end Rv32Assembler
