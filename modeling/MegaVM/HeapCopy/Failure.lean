import MegaVM.HeapCopy.FileFault

/-!
# What a failed load leaves behind

The two `return -1` stand inside the loop, and what follows the loop gives
back the buffer and the locks. A load that meets a page it refuses leaves
all three, and the pages before it exchanged.
-/

namespace MegaVM.HeapCopy

/-- A load that returns -1 has changed no page and given everything back. -/
def CleanFailure (x : Load) (mem : Contents) : Prop :=
  ∀ n, (initModule x mem n).status = .returned (-1) →
    (initModule x mem n).contents = mem ∧ (initModule x mem n).locked = false ∧
      (initModule x mem n).locked2 = false ∧ (initModule x mem n).freed = true

/-! ## The tests as conditions on the flags -/

/-- No `anon_vma`, or no mapping. -/
def PageFlags.Refused (debugVm : Bool) (pg : PageFlags) : Prop :=
  (pg.anon = true ∧ pg.anonVma = false) ∨
    (pg.anon = false ∧ pg.ksm = false ∧ (debugVm = true → pg.locked = true) ∧
      pg.mapping = false)

/-- The tests let the page through. -/
def PageFlags.Passed (debugVm : Bool) (pg : PageFlags) : Prop :=
  (pg.anon = true ∧ pg.anonVma = true) ∨
    (pg.anon = false ∧ (pg.ksm = true ∨
      (debugVm = true → pg.locked = true) ∧ pg.mapping = true))

theorem checkPage_refuse_iff (x : Load) (pg : PageFlags) :
    checkPage x pg = .refuse ↔ pg.Refused x.debugVm := by
  unfold checkPage PageFlags.Refused
  cases pg.anon with
  | true => cases pg.anonVma <;> simp
  | false =>
      cases pg.ksm with
      | true => simp
      | false =>
          -- `VM_BUG_ON_PAGE` comes before the test of the mapping
          cases x.debugVm <;> cases pg.locked <;> cases pg.mapping <;> simp

theorem checkPage_pass_iff (x : Load) (pg : PageFlags) :
    checkPage x pg = .pass ↔ pg.Passed x.debugVm := by
  unfold checkPage PageFlags.Passed
  cases pg.anon with
  | true => cases pg.anonVma <;> simp
  | false =>
      cases pg.ksm with
      | true => simp
      | false => cases x.debugVm <;> cases pg.locked <;> cases pg.mapping <;> simp

namespace Load

variable (x : Load) (p : Nat)

/-- Both pages are present, and the first is refused. -/
def Refuses : Prop :=
  ∃ f f2, x.mm.frame? p = some f ∧ x.mm2.frame? p = some f2 ∧ (x.page f).Refused x.debugVm

/-- One of the pages is absent, or the first passes and there is a
buffer. -/
def Passes : Prop :=
  ∀ f f2, x.mm.frame? p = some f → x.mm2.frame? p = some f2 →
    (x.page f).Passed x.debugVm ∧ x.buffer.isSome

theorem outcome_refuses_iff : x.outcome p = .returned (-1) ↔ x.Refuses p := by
  unfold outcome Refuses
  cases x.mm.frame? p with
  | none => simp
  | some f =>
      cases x.mm2.frame? p with
      | none => simp
      | some f2 =>
          have hrefuses : (∃ g g2, some f = some g ∧ some f2 = some g2 ∧
              (x.page g).Refused x.debugVm) ↔ checkPage x (x.page f) = .refuse := by
            simp [checkPage_refuse_iff]
          rw [hrefuses]
          dsimp only
          cases checkPage x (x.page f) with
          | refuse => simp
          | bug => simp
          | pass => cases x.buffer <;> simp

theorem outcome_passes_iff : x.outcome p = .running ↔ x.Passes p := by
  unfold outcome Passes
  cases x.mm.frame? p with
  | none => simp
  | some f =>
      cases x.mm2.frame? p with
      | none => simp
      | some f2 =>
          have hpasses : (∀ g g2, some f = some g → some f2 = some g2 →
              (x.page g).Passed x.debugVm ∧ x.buffer.isSome) ↔
              checkPage x (x.page f) = .pass ∧ x.buffer.isSome := by
            simp [checkPage_pass_iff]
          rw [hpasses]
          dsimp only
          cases checkPage x (x.page f) with
          | refuse => simp
          | bug => simp
          | pass => cases x.buffer <;> simp

/-- The walk comes to a page it refuses. -/
def MeetsRefusal : Prop :=
  x.Enters ∧ ∃ p, (∀ q < p, ¬ x.Ended q ∧ x.Passes q) ∧ ¬ x.Ended p ∧ x.Refuses p

theorem reaches_iff {k : Nat} : x.Reaches k ↔ ∀ q < k, ¬ x.Ended q ∧ x.Passes q :=
  forall₂_congr fun q _ => and_congr_right fun _ => x.outcome_passes_iff q

end Load

variable {x : Load}

/-! ## The return of -1 -/

/-- A load that comes to a page it refuses returns -1 there. -/
theorem Load.MeetsRefusal.halted (h : x.MeetsRefusal) (mem : Contents) :
    ∃ n k, (initModule x mem n).status = .returned (-1) ∧
      Halted x mem k (initModule x mem n) := by
  obtain ⟨hx, p, hpasses, hended, hrefuses⟩ := h
  have hreach : x.Reaches p := x.reaches_iff.mpr hpasses
  have hout : x.outcome p = .returned (-1) := (x.outcome_refuses_iff p).mpr hrefuses
  refine ⟨p + 1, p, ?_⟩
  rcases initModule_cases hx mem (p + 1) with ⟨hreach', -⟩ | ⟨k, hk, -, hstop⟩
  · have hgo := (hreach' p (Nat.lt_succ_self p)).2
    rw [hout] at hgo
    cases hgo
  · -- the walk cannot stop before page `p`
    have hkp : k = p := by
      rcases Nat.lt_succ_iff_lt_or_eq.mp hk with hk | hk
      · rcases hstop with hfin | hhalt
        · exact absurd hfin.ended (hreach k hk).1
        · exact absurd (hreach k hk).2 hhalt.outcome
      · exact hk
    subst hkp
    rcases hstop with hfin | hhalt
    · exact absurd hfin.ended hended
    · exact ⟨hhalt.status.trans hout, hhalt⟩

/-- **A failure is clean exactly when** there is none: the load does not come
to a page it refuses. -/
theorem cleanFailure_iff (x : Load) (mem : Contents) :
    CleanFailure x mem ↔ ¬ x.MeetsRefusal := by
  constructor
  · intro hclean hmeets
    obtain ⟨n, k, hret, hhalt⟩ := hmeets.halted mem
    -- the locks alone tell the failure
    have hlocked := (hclean n hret).2.1
    rw [hhalt.locked] at hlocked
    cases hlocked
  · intro hmeets n hret
    obtain ⟨k, hreach, hhalt⟩ := halted_of_returned hret
    refine absurd ⟨enters_of_returned hret, k, x.reaches_iff.mp hreach, hhalt.notEnded, ?_⟩ hmeets
    rw [← x.outcome_refuses_iff, ← hhalt.status]
    exact hret

/-- An anonymous page in each heap, and no `anon_vma`. -/
def orphanPages : Load where
  mm := ⟨0x1000, 0x2000, fun _ => some ⟨true, 1⟩⟩
  mm2 := ⟨0x5000, 0x6000, fun _ => some ⟨true, 2⟩⟩
  page := fun _ => ⟨true, false, false, false, false⟩
  buffer := some fun _ => 0
  tasks := true
  sameMm := false
  vma := true
  debugVm := false

theorem not_cleanFailure : ¬ ∀ x mem, CleanFailure x mem := by
  intro hall
  have hlocked := (hall orphanPages (fun _ => 0) 1 (by decide)).2.1
  revert hlocked
  decide

end MegaVM.HeapCopy
