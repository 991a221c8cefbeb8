import MegaVM.Paging.Zapped

/-!
# The page tables over whole runs

From a state whose books are right, with every thread outside of the two
functions and the TLBs empty, and in any order of steps:

* `counters_kept` — `_count`, `_mapcount`, the swap map and the RSS
  counters stay what they count, and where no entry is bad at first no
  `VM_BUG_ON` fires and `print_bad_pte` is not called;
* `flushed_before_freed` — no TLB has a page nobody has a reference to.
-/

set_option linter.unusedSectionVars false

namespace MegaVM

namespace Vm

open Function

variable {M T : Type} {lim : Nat} [DecidableEq M] [DecidableEq T] [Fintype M] [Fintype T]
variable {sizes : GatherSizes} {s₀ s s' : Vm M T lim}

/-- No thread is in one of the functions, and no TLB has an entry. -/
structure Start (s : Vm M T lim) : Prop where
  booked : s.Booked
  idle : ∀ t, (s.tasks t).job = .idle
  tlb : ∀ i, s.tlb i = []
  bug : s.bug = false

/-- Any order of steps. -/
def Reachable (sizes : GatherSizes) (s₀ s : Vm M T lim) : Prop :=
  Runs.Reach (step sizes) (fun _ _ => True) s₀ s

theorem Inv.start (h : s.Start) : Inv (∀ i, (s.pte i).reported = false) s := by
  refine ⟨booked_iff.mp h.booked, fun t => ?_, fun t t' m _ hcopies => ?_, fun i p hp => ?_,
    fun hgood => ⟨h.bug, hgood⟩⟩
  · rw [h.idle t]
    trivial
  · rw [h.idle t] at hcopies
    cases hcopies
  · rw [h.tlb i] at hp
    cases hp

theorem Inv.of_step {clean : Prop} (h : s.Inv clean) (l : VmLabel M T lim)
    (hstep : step sizes s l = some s') : s'.Inv clean := by
  cases l with
  | access i write =>
      simp only [step] at hstep
      split at hstep
      · rename_i pfn backing bits hpte
        split at hstep
        · cases hstep
        · cases hstep
          -- the entry has behind it what it had
          refine h.setPte (by simp [hpte]) ?_ ?_ ?_ <;> rw [hpte] <;> cases backing <;> rfl
      · cases hstep
  | tlbFill i =>
      simp only [step] at hstep
      split at hstep
      · rename_i p hpage
        cases hstep
        exact h.tlbFill hpage
      · cases hstep
  | copy t src dst walk =>
      simp only [step] at hstep
      split at hstep
      · rename_i hidle
        split at hstep
        · rename_i hguard
          obtain ⟨hne, hsrc, hdst, -, hempty⟩ := hguard
          cases hstep
          refine h.ofJob_same (fun _ => rfl) rfl rfl rfl ?_
            ⟨hne, fun a hle hlt => hempty a ⟨hle, hlt⟩⟩ (fun m hcopies => .inr ?_)
            (fun i p hw => ?_)
          · rw [h.balanced, hidle, jobClaims_idle, jobClaims_copying, rssClaims_zero]
            rfl
          · rcases of_decide_eq_true hcopies with rfl | rfl
            · exact hsrc
            · exact hdst
          · rw [hidle] at hw
            exact hw.elim
        · cases hstep
      · cases hstep
  | copyTurn t resched dupFails contFails =>
      simp only [step] at hstep
      split at hstep
      · rename_i run hjob
        cases hstep
        exact h.copyPteRange hjob resched dupFails contFails
      · cases hstep
  | gather t mm fullmm =>
      simp only [step] at hstep
      split at hstep
      · rename_i hidle
        cases hstep
        exact h.gather hidle mm fullmm
      · cases hstep
  | zap t walk details =>
      simp only [step] at hstep
      split at hstep
      · rename_i g hjob
        cases hstep
        exact h.zap hjob walk details
      · cases hstep
  | zapTurn t otherMapping batchPage freesSwap frees =>
      simp only [step] at hstep
      split at hstep
      · rename_i g run hjob
        cases hstep
        exact h.zapPteRange hjob otherMapping batchPage freesSwap frees
      · cases hstep
  | finish t frees => exact h.tlbFinishMmu hstep
  | get p =>
      simp only [step] at hstep
      split at hstep
      · cases hstep
        exact h.others p 1 _ (Nat.cast_succ _)
      · cases hstep
  | put p =>
      simp only [step] at hstep
      split at hstep
      · rename_i hpos
        cases hstep
        exact h.others p (-1) _ (by omega)
      · cases hstep
  | sync t =>
      cases hstep
      exact h.syncMmRss t

theorem Reachable.inv (h₀ : s₀.Start) (h : Reachable sizes s₀ s) :
    Inv (∀ i, (s₀.pte i).reported = false) s :=
  Runs.Reach.invariant h (.start h₀) fun _ l _ hinv _ hstep => hinv.of_step l hstep

/-- Outside of the functions, with the thread counters added, nothing is left
to add. -/
theorem unsynced_rest (hrest : ∀ t, (s.tasks t).job = .idle ∧ (s.tasks t).rssStat = fun _ => 0)
    (m : M) (kind : RssKind) : s.unsynced m kind = 0 := by
  refine Finset.sum_eq_zero fun t _ => ?_
  rw [(hrest t).1, (hrest t).2, rssClaims_zero]
  rfl

/-- **The counters**, and that nothing is reported where no entry was bad. -/
theorem counters_kept (h₀ : s₀.Start) (h : Reachable sizes s₀ s) :
    s.Booked ∧ ((∀ i, (s₀.pte i).reported = false) → s.bug = false) ∧
      ((∀ t, (s.tasks t).job = .idle ∧ (s.tasks t).rssStat = fun _ => 0) →
        ∀ m kind, s.rss m kind = s.resident m kind) := by
  have hinv := h.inv h₀
  have hbooked := booked_iff.mpr hinv.balanced
  refine ⟨hbooked, fun hgood => (hinv.quiet hgood).bug, fun hrest m kind => ?_⟩
  rw [hbooked.rss, unsynced_rest hrest, sub_zero]

/-- A page with an entry, or in a batch, has a reference. -/
theorem Booked.count_pos (h : s.Booked) {p : PageId}
    (hp : (∃ i, (s.pte i).normalPage = some p) ∨ ∃ t, p ∈ (s.tasks t).job.refs) :
    0 < s.count p := by
  have hcount := h.count p
  rcases hp with ⟨i, hmaps⟩ | ⟨t, hrefs⟩
  · have hpos := mapped_pos hmaps
    omega
  · have hpos := held_pos hrefs
    omega

/-- **The TLBs.** -/
theorem flushed_before_freed (h₀ : s₀.Start) (h : Reachable sizes s₀ s) {i : Place M lim}
    {p : PageId} (hp : p ∈ s.tlb i) :
    0 < s.count p ∧ ((s.pte i).normalPage = some p ∨ ∃ t, (s.tasks t).job.Waits i p) := by
  have hinv := h.inv h₀
  have hcases := hinv.tlb i p hp
  refine ⟨(booked_iff.mpr hinv.balanced).count_pos ?_, hcases⟩
  rcases hcases with hmaps | ⟨t, hwaits⟩
  · exact .inl ⟨i, hmaps⟩
  · exact .inr ⟨t, hwaits.mem_refs⟩

/-! ## A run -/

/-- Nothing is mapped. -/
def blank (mm : T → M) (vma : Place M lim → Vma) (anon : PageId → Bool) : Vm M T lim where
  pte _ := .none
  vma := vma
  tlb _ := []
  count _ := 0
  mapcount _ := 0
  anon := anon
  dirty _ := false
  swapOf _ := none
  others _ := 0
  swapCount _ := 0
  cache _ := none
  rss _ _ := 0
  tasks t := { mm := mm t }
  bug := false

theorem blank_start (mm : T → M) (vma : Place M lim → Vma) (anon : PageId → Bool) :
    (blank mm vma anon : Vm M T lim).Start := by
  refine ⟨⟨fun p => ?_, fun p => ?_, fun e => ?_, fun m kind => ?_⟩, fun _ => rfl, fun _ => rfl,
    rfl⟩
  · simp [blank, mapped, held, Pte.normalPage, Job.refs]
  · simp [blank, mapped, Pte.normalPage]
  · simp [blank, swapped]
  · rw [unsynced_rest fun _ => ⟨rfl, rfl⟩]
    simp [blank, resident, Pte.kind]

/-- A page is mapped for the first time. -/
def mapPage (s : Vm M T lim) (i : Place M lim) (p : PageId) (bits : PteBits) : Vm M T lim :=
  (((s.getPage p).addMapcount p 1).setPte i (.present p .page bits)).addMmCounters i.1
    (addKind (fun _ => 0) (s.rssKind p) 1)

theorem Start.mapPage (h : s.Start) {i : Place M lim} (hpte : s.pte i = .none) (p : PageId)
    (bits : PteBits) : (s.mapPage i p bits).Start := by
  refine ⟨booked_iff.mpr ?_, h.idle, h.tlb, h.bug⟩
  have hold : pteClaims s.anon i (s.pte i) = 0 := by
    rw [hpte]
    rfl
  unfold Vm.mapPage
  rw [debt_addMmCounters, debt_setPte, debt_addMapcount, debt_getPage, booked_iff.mp h.booked,
    rssClaims_addKind, rssClaims_zero]
  show _ + pteClaims s.anon i (s.pte i) - (_ + _ + one (.rss i.1 (s.rssKind p))) + _ = _
  rw [hold]
  abel

/-- A page has gone to swap. -/
def mapSwap (s : Vm M T lim) (i : Place M lim) (e : SwpEntry) : Vm M T lim :=
  ((s.addSwapCount e 1).setPte i (.swap e)).addMmCounters i.1 (addKind (fun _ => 0) .swapents 1)

theorem Start.mapSwap (h : s.Start) {i : Place M lim} (hpte : s.pte i = .none) (e : SwpEntry) :
    (s.mapSwap i e).Start := by
  refine ⟨booked_iff.mpr ?_, h.idle, h.tlb, h.bug⟩
  have hold : pteClaims s.anon i (s.pte i) = 0 := by
    rw [hpte]
    rfl
  unfold Vm.mapSwap
  rw [debt_addMmCounters, debt_setPte, debt_addSwapCount, booked_iff.mp h.booked,
    rssClaims_addKind, rssClaims_zero]
  show _ + pteClaims s.anon i (s.pte i) - (_ + one (.rss i.1 .swapents)) + _ = _
  rw [hold]
  abel

/-- A process with one anonymous page. -/
def onePage : Vm Bool Bool 3 :=
  (blank id (fun _ => ⟨false, true⟩) fun _ => true).mapPage (false, 0) 1 { write := true }

theorem onePage_start : onePage.Start := (blank_start _ _ _).mapPage rfl 1 _

/-- And with one in swap. -/
def pageAndSwap : Vm Bool Bool 3 := onePage.mapSwap (false, 1) 7

theorem pageAndSwap_start : pageAndSwap.Start := onePage_start.mapSwap rfl 7

theorem pageAndSwap_quiet : pageAndSwap.Quiet := by
  have hblank : (blank id (fun _ => ⟨false, true⟩) fun _ => true : Vm Bool Bool 3).Quiet :=
    ⟨rfl, fun _ => rfl⟩
  have hpage : onePage.Quiet := hblank.update rfl rfl rfl
  exact hpage.update rfl rfl rfl

def smallSizes : GatherSizes := ⟨1, 1, 0, Nat.one_pos, Nat.one_pos⟩

/-- The process forks; then another thread unmaps the page of the parent,
which a TLB still has, up to the flush. -/
def forkAndUnmap : List (VmLabel Bool Bool 3) :=
  let all : Walk 3 := ⟨0, 3, Nat.zero_le 3, Nat.le_refl 3⟩
  [.tlbFill (false, 0), .copy false false true all] ++
    List.replicate 5 (.copyTurn false false false false) ++
    [.gather true false false, .zap true all false,
      .zapTurn true false true false fun _ => false]

/-- The flush, the rest of the range, and the end. -/
def unmapped : List (VmLabel Bool Bool 3) :=
  List.replicate 7 (.zapTurn true false true false fun _ => false) ++
    [.finish true fun _ => false, .finish true fun _ => false]

theorem counters_kept_forkAndUnmap : ∃ s : Vm Bool Bool 3,
    Reachable smallSizes pageAndSwap s ∧ s.mapcount 1 = 1 ∧ s.mapped 1 = 1 ∧ s.swapCount 7 = 1 ∧
      s.swapped 7 = 1 ∧ s.bug = false := by
  have hexec : (Runs.exec (step smallSizes) (fun _ _ => True) pageAndSwap
      (forkAndUnmap ++ unmapped)).any (fun s => s.mapcount 1 == 1 && s.swapCount 7 == 1)
        = true := by
    decide +kernel
  cases hs : Runs.exec (step smallSizes) (fun _ _ => True) pageAndSwap
      (forkAndUnmap ++ unmapped) with
  | none =>
      rw [hs] at hexec
      cases hexec
  | some s =>
      rw [hs, Option.any_some, Bool.and_eq_true, beq_iff_eq, beq_iff_eq] at hexec
      have hreach : Reachable smallSizes pageAndSwap s := Runs.reach_of_exec hs
      obtain ⟨hbooked, hbug, -⟩ := counters_kept pageAndSwap_start hreach
      have hmapped := hbooked.mapcount 1
      have hswapped := hbooked.swapCount 7
      exact ⟨s, hreach, hexec.1, by omega, hexec.2, by omega, hbug pageAndSwap_quiet.unreported⟩

theorem flushed_before_freed_forkAndUnmap : ∃ s : Vm Bool Bool 3,
    Reachable smallSizes onePage s ∧ s.pte (false, 0) = .none ∧ 1 ∈ s.tlb (false, 0) ∧
      ∃ t, (s.tasks t).job.Waits (false, 0) 1 := by
  have hexec : (Runs.exec (step smallSizes) (fun _ _ => True) onePage forkAndUnmap).any
      (fun s => decide (s.pte (false, 0) = .none ∧ 1 ∈ s.tlb (false, 0))) = true := by
    decide +kernel
  cases hs : Runs.exec (step smallSizes) (fun _ _ => True) onePage forkAndUnmap with
  | none =>
      rw [hs] at hexec
      cases hexec
  | some s =>
      rw [hs, Option.any_some, decide_eq_true_iff] at hexec
      have hreach : Reachable smallSizes onePage s := Runs.reach_of_exec hs
      obtain ⟨-, hmaps | hwaits⟩ := flushed_before_freed onePage_start hreach hexec.2
      · rw [hexec.1] at hmaps
        cases hmaps
      · exact ⟨s, hreach, hexec.1, hexec.2, hwaits⟩

end Vm

end MegaVM
