import MegaVM.Paging.Kept

/-!
# What a turn of `zap_pte_range` keeps

From `tlb_gather_mmu` to `tlb_finish_mmu`: a page whose entry is cleared
waits in a batch, its place is in the range of the gather, and the TLBs are
flushed before the batch is freed.
-/

set_option linter.unusedSectionVars false

namespace MegaVM

namespace Vm

open Function

variable {M T : Type} {lim : Nat} [DecidableEq M] [DecidableEq T] [Fintype M] [Fintype T]
variable {s w : Vm M T lim} {clean : Prop} {t : T} {g : MmuGather M} {sizes : GatherSizes}

/-! ## The flush -/

theorem MmuGather.Armed.resetRange : (g.resetRange lim).Armed := by
  intro hfull
  unfold MmuGather.resetRange at hfull ⊢
  by_cases hg : g.fullmm = true
  · rw [if_pos hg]
    show ulongMax ≠ 0
    decide
  · rw [if_neg hg] at hfull
    exact absurd hfull hg

theorem MmuGather.Armed.adjustRange (addr : Nat) : (g.adjustRange addr).Armed :=
  fun _ => MmuGather.adjustRange_stop addr

/-- What a flush does, skipped or not. -/
structure Flushed (s : Vm M T lim) (g : MmuGather M) (r : Vm M T lim × MmuGather M) : Prop where
  tasks : r.1.tasks = s.tasks
  pte : r.1.pte = s.pte
  bug : r.1.bug = s.bug
  debt : r.1.debt = s.debt
  tlb : ∀ i p, p ∈ r.1.tlb i → p ∈ s.tlb i ∧ ¬(g.mm = i.1 ∧ g.Covers i.2)
  ok : g.Ok → r.2.Ok
  armed : r.2.Armed
  active : r.2.active = g.active
  pages : r.2.pages = g.pages
  mm : r.2.mm = g.mm

theorem tlbFlushMmuTlbonly_flushed (s : Vm M T lim) (harmed : g.Armed) :
    Flushed s g (s.tlbFlushMmuTlbonly g) := by
  unfold tlbFlushMmuTlbonly
  split
  · -- the range is empty
    rename_i hstop
    refine ⟨rfl, rfl, rfl, rfl, fun i p hp => ⟨hp, ?_⟩, id, harmed, rfl, rfl, rfl⟩
    rintro ⟨-, hfull | ⟨-, hlt⟩⟩
    · exact harmed hfull hstop
    · rw [hstop] at hlt
      exact Nat.not_lt_zero _ hlt
  · refine ⟨rfl, rfl, rfl, rfl, fun i p hp => ?_, MmuGather.Ok.resetRange, .resetRange,
      MmuGather.resetRange_active, MmuGather.resetRange_pages, MmuGather.resetRange_mm⟩
    change p ∈ (if i.1 = g.mm ∧ g.Covers i.2 then [] else s.tlb i) at hp
    split at hp
    · cases hp
    · rename_i hcovers
      exact ⟨hp, fun hboth => hcovers ⟨hboth.1.symm, hboth.2⟩⟩

/-- The TLBs behind the flush have nothing that waits for it. -/
theorem Flushed.tlb_cases {r : Vm M T lim × MmuGather M} (hflush : Flushed w g r) (h : s.Inv clean)
    (hpte : w.pte = s.pte) (htlb : w.tlb = s.tlb)
    (hmine : ∀ i p, (s.tasks t).job.Waits i p → g.mm = i.1 ∧ g.Covers i.2) {i : Place M lim}
    {p : PageId} (hp : p ∈ r.1.tlb i) :
    (r.1.pte i).normalPage = some p ∨ ∃ t', t' ≠ t ∧ (s.tasks t').job.Waits i p := by
  obtain ⟨hold, hout⟩ := hflush.tlb i p hp
  rw [htlb] at hold
  rw [hflush.pte, hpte]
  rcases h.tlb_cases t hold with hmaps | hwaits | hother
  · exact .inl hmaps
  · exact absurd (hmine i p hwaits) hout
  · exact .inr hother

/-- Only the counts of the pages and the swap cache change. -/
structure Released (s w : Vm M T lim) : Prop where
  tasks : w.tasks = s.tasks
  pte : w.pte = s.pte
  tlb : w.tlb = s.tlb
  bug : w.bug = s.bug

theorem Released.trans {u : Vm M T lim} (h : Released s w) (h' : Released w u) : Released s u :=
  ⟨h'.tasks.trans h.tasks, h'.pte.trans h.pte, h'.tlb.trans h.tlb, h'.bug.trans h.bug⟩

theorem foldl_released {f : Vm M T lim → PageId → Vm M T lim} (hf : ∀ s p, Released s (f s p))
    (s : Vm M T lim) (pages : List PageId) : Released s (pages.foldl f s) := by
  induction pages generalizing s with
  | nil => exact ⟨rfl, rfl, rfl, rfl⟩
  | cons p pages ih => exact (hf s p).trans (ih _)

theorem freeSwapCopy_released (frees : PageId → Bool) (s : Vm M T lim) (p : PageId) :
    Released s (freeSwapCopy frees s p) := by
  unfold freeSwapCopy
  split <;> exact ⟨rfl, rfl, rfl, rfl⟩

theorem freePages_released (s : Vm M T lim) (frees : PageId → Bool) (pages : List PageId) :
    Released s (s.freePages frees pages) :=
  (foldl_released (freeSwapCopy_released frees) s pages).trans
    (foldl_released (f := putPage) (fun _ _ => ⟨rfl, rfl, rfl, rfl⟩) _ pages)

/-! ## The loop -/

theorem Inv.gather (h : s.Inv clean) (hidle : (s.tasks t).job = .idle) (mm : M) (fullmm : Bool) :
    (s.setJob t (.zapping (.gather sizes lim mm fullmm) none)).Inv clean := by
  refine h.ofJob_same (fun _ => rfl) rfl rfl rfl ?_ ?_ (fun m hcopies => by cases hcopies)
    (fun i p hw => ?_)
  · rw [h.balanced, hidle, jobClaims_idle, jobClaims_between, MmuGather.gather_pages, zero_add]
    rfl
  · refine ⟨MmuGather.gather_ok mm fullmm, .resetRange, ?_⟩
    show (MmuGather.gather sizes lim mm fullmm).active.pages.length < _
    rw [MmuGather.gather, MmuGather.resetRange_active]
    exact sizes.bundle_pos
  · rw [hidle] at hw
    exact hw.elim

theorem Inv.zap (h : s.Inv clean) (hjob : (s.tasks t).job = .zapping g none) (walk : Walk lim)
    (details : Bool) : (s.setJob t (.zapping g (some { walk, details }))).Inv clean := by
  have hok := h.jobs t
  rw [hjob] at hok
  refine h.ofJob_same (fun _ => rfl) rfl rfl rfl ?_ ⟨hok.1, hok.2.1, .inl hok.2.2, fun _ => rfl⟩
    (fun m hcopies => by cases hcopies) (fun i p hw => ?_)
  · rw [h.balanced, hjob, jobClaims_between, jobClaims_zapping, rssClaims_zero, zero_add, sub_zero]
  · rw [hjob] at hw
    exact ⟨hw.1, hw.2.1, hw.2.2, by simp⟩

variable {run : ZapRun lim}

/-- The rule for an entry that is cleared. -/
theorem Inv.zapEntry (h : s.Inv clean) {i : Place M lim} {g' : MmuGather M} {run' : ZapRun lim}
    (htasks : w.tasks = s.tasks) (htlb : w.tlb = s.tlb) (hpte : w.pte = update s.pte i .none)
    (hbal : w.debt + jobClaims (s.tasks t).job = jobClaims (.zapping g' (some run')))
    (hok : w.JobOk (.zapping g' (some run')))
    (hwaits : ∀ j p, (s.tasks t).job.Waits j p ∨ j = i ∧ (s.pte i).normalPage = some p →
      Job.Waits j p (.zapping g' (some run')))
    (hbug : s.Quiet → w.bug = false) : (w.setJob t (.zapping g' (some run'))).Inv clean := by
  refine h.ofJob (fun t' => by rw [htasks]) hbal hok (fun m hcopies => by cases hcopies)
    (fun j _ hnone => ?_) (fun j p hp => ?_) fun hq => hq.update (hbug hq) hpte rfl
  · rw [hpte]
    by_cases hj : j = i
    · rw [hj, update_self]
    · rw [update_of_ne hj, hnone]
  · rw [htlb] at hp
    rcases h.tlb_cases t hp with hmaps | hmine | hother
    · by_cases hj : j = i
      · subst hj
        exact .inr (.inl (hwaits j p (.inr ⟨rfl, hmaps⟩)))
      · left
        rw [hpte, update_of_ne hj, hmaps]
    · exact .inr (.inl (hwaits j p (.inl hmine)))
    · exact .inr (.inr hother)

/-- The loop goes to the next entry. -/
theorem Inv.zapSkip (h : s.Inv clean) (hjob : (s.tasks t).job = .zapping g (some run))
    (walk : Walk lim) : (s.setJob t (.zapping g (some { run with walk }))).Inv clean := by
  have hok := h.jobs t
  rw [hjob] at hok
  refine h.ofJob_same (fun _ => rfl) rfl rfl rfl ?_ hok (fun m hcopies => by cases hcopies)
    (fun i p hw => ?_)
  · rw [h.balanced, hjob, zero_add]
    rfl
  · rwa [hjob] at hw

/-- A page is mapped as often as its entries say. -/
theorem Inv.mapcount_pos (h : s.Inv clean) {i : Place M lim} {p : PageId}
    (hmaps : (s.pte i).normalPage = some p) : 1 ≤ s.mapcount p := by
  rw [(booked_iff.mpr h.balanced).mapcount p]
  exact_mod_cast mapped_pos hmaps

/-- And a swap entry is in use as often as entries have it. -/
theorem Inv.swapCount_pos (h : s.Inv clean) {i : Place M lim} {e : SwpEntry}
    (hswap : s.pte i = .swap e) : 1 ≤ s.swapCount e := by
  rw [(booked_iff.mpr h.balanced).swapCount e]
  exact_mod_cast swapped_pos hswap

theorem Inv.zapPage (h : s.Inv clean) (hjob : (s.tasks t).job = .zapping g (some run))
    (hpc : run.pc = .loop) (hlt : run.walk.addr < run.walk.stop) {p : PageId} {bits : PteBits}
    (hpte : s.pte (g.mm, run.walk.here hlt) = .present p .page bits) (dirty batchPage : Bool) :
    (s.zapPage sizes t g run hlt p dirty batchPage).Inv clean := by
  have hok := h.jobs t
  rw [hjob] at hok
  obtain ⟨hgather, -, hroom, -⟩ := hok
  have hroom : g.Room := hroom.resolve_right fun hno => hno.2 hpc
  have hmaps : (s.pte (g.mm, run.walk.here hlt)).normalPage = some p := by
    rw [hpte]
    rfl
  have hpos := h.mapcount_pos hmaps
  have hspec := MmuGather.removePage_spec sizes (hgather.adjustRange run.walk.addr)
    hroom p batchPage
  unfold Vm.zapPage
  revert hspec
  generalize (g.adjustRange run.walk.addr).removePage sizes p batchPage = r
  obtain ⟨g', left⟩ := r
  rintro ⟨hok', hpages, hleft, hmm, hfull, hstart, hstop⟩
  have hcovers : ∀ a, g.Covers a ∨ a = run.walk.addr → g'.Covers a := by
    intro a ha
    have hgrown := MmuGather.covers_adjustRange run.walk.addr ha
    rwa [MmuGather.Covers, ← hfull, ← hstart, ← hstop] at hgrown
  dsimp only at hok' hpages hleft hmm hfull hstart hstop ⊢
  have hstop' : g'.stop ≠ 0 := by
    rw [hstop]
    exact MmuGather.adjustRange_stop _
  have hclaims : pteClaims s.anon (g.mm, run.walk.here hlt) (s.pte (g.mm, run.walk.here hlt))
      = one (.page p) + one (.map p) + one (.rss g.mm (s.rssKind p)) := by
    rw [hpte]
    rfl
  have hdebt : ((s.setPte (g.mm, run.walk.here hlt) .none).addMapcount p (-1)).debt
      = one (.page p) + one (.rss g.mm (s.rssKind p)) := by
    rw [debt_addMapcount, debt_setPte, h.balanced, hclaims, pteClaims]
    · abel
    all_goals simp
  refine h.zapEntry (i := (g.mm, run.walk.here hlt)) ?_ ?_ ?_ ?_ ?_ ?_ ?_
  · split <;> rfl
  · split <;> rfl
  · split <;> rfl
  · have hbal : ((s.setPte (g.mm, run.walk.here hlt) .none).addMapcount p (-1)).debt
        + jobClaims (s.tasks t).job
        = pageClaims g'.pages - rssClaims g'.mm (addKind run.rss (s.rssKind p) (-1)) := by
      rw [hdebt, hjob, jobClaims_zapping, rssClaims_addKind, hpages, hmm, pageClaims_append,
        pageClaims, pageClaims]
      show _ = pageClaims g.pages + _ - (rssClaims g.mm run.rss + _ • one (.rss g.mm _))
      abel
    split <;> exact hbal
  · refine ⟨hok', fun _ => hstop', ?_, ?_⟩
    · by_cases hzero : left = 0
      · right
        simp [hzero]
      · exact .inl (hleft hzero)
    · intro hunlocked
      by_cases hzero : left = 0 <;> simp [hzero] at hunlocked
  · rintro j q (hw | ⟨rfl, hq⟩)
    · rw [hjob] at hw
      refine ⟨hmm.trans hw.1, hcovers _ (.inl hw.2.1), ?_, ?_⟩
      · rw [hpages]
        exact List.mem_append_left _ hw.2.2.1
      · by_cases hzero : left = 0 <;> simp [hzero]
    · refine ⟨hmm, hcovers _ (.inr rfl), ?_, ?_⟩
      · rw [hmaps, Option.some.injEq] at hq
        rw [hpages, hq]
        exact List.mem_append_right _ List.mem_cons_self
      · by_cases hzero : left = 0 <;> simp [hzero]
  · intro hq
    have hmap : ¬ s.mapcount p - 1 < 0 := by omega
    have hstop₀ : (g.adjustRange run.walk.addr).stop ≠ 0 := MmuGather.adjustRange_stop _
    have hfit : ¬ g'.active.max < g'.active.pages.length := Nat.not_lt.mpr hok'.room
    have hbug : (s.bug || decide (s.mapcount p - 1 < 0) ||
        decide ((g.adjustRange run.walk.addr).stop = 0) ||
        decide (g'.active.max < g'.active.pages.length)) = false := by
      simp [hmap, hstop₀, hfit, hq.bug]
    split <;> exact hbug

/-- What waits goes on waiting, where the entry has no page. -/
theorem waits_kept {i j : Place M lim} {q : PageId} {run' : ZapRun lim}
    (hw : (s.tasks t).job.Waits j q ∨ j = i ∧ (s.pte i).normalPage = some q)
    (hjob : (s.tasks t).job = .zapping g (some run)) (hnone : (s.pte i).normalPage = none)
    (hpc : run'.pc = run.pc) (hforce : run'.force = run.force) :
    Job.Waits j q (.zapping g (some run')) := by
  rcases hw with hw | ⟨-, hq⟩
  · rw [hjob] at hw
    refine ⟨hw.1, hw.2.1, hw.2.2.1, ?_⟩
    rw [hpc, hforce]
    exact hw.2.2.2
  · rw [hnone] at hq
    cases hq

/-- A present entry without a page is cleared. -/
theorem Inv.zapBare (h : s.Inv clean) (hjob : (s.tasks t).job = .zapping g (some run))
    (hlt : run.walk.addr < run.walk.stop) {pfn : PageId} {backing : Backing} {bits : PteBits}
    (hpte : s.pte (g.mm, run.walk.here hlt) = .present pfn backing bits)
    (hbacking : backing ≠ .page) :
    (((s.bugOn (backing = .bad)).setPte (g.mm, run.walk.here hlt) .none).setJob t
      (.zapping (g.adjustRange run.walk.addr)
        (some { run with walk := run.walk.next hlt }))).Inv clean := by
  have hok := h.jobs t
  rw [hjob] at hok
  have hbare : (s.pte (g.mm, run.walk.here hlt)).normalPage = none ∧
      pteClaims s.anon (g.mm, run.walk.here hlt) (s.pte (g.mm, run.walk.here hlt)) = 0 := by
    rw [hpte]
    cases backing with
    | page => exact absurd rfl hbacking
    | special | bad => exact ⟨rfl, rfl⟩
  refine h.zapEntry (i := (g.mm, run.walk.here hlt)) rfl rfl rfl ?_
    ⟨hok.1.adjustRange _, .adjustRange _, hok.2.2.1, hok.2.2.2⟩ (fun j q hw => ?_) fun hq => ?_
  · rw [debt_setPte]
    show s.debt + pteClaims s.anon _ (s.pte _) - 0 + _ = _
    rw [hbare.2, h.balanced, hjob, add_zero, sub_zero, zero_add]
    rfl
  · have hold : Job.Waits j q (.zapping g (some run)) := waits_kept hw hjob hbare.1 rfl rfl
    exact ⟨hold.1, MmuGather.covers_adjustRange _ (.inl hold.2.1), hold.2.2.1, hold.2.2.2⟩
  · show (s.bug || decide (backing = .bad)) = false
    rw [hq.bug, decide_eq_false (hq.not_bad hpte)]
    rfl

/-- An entry in use is given back. -/
theorem freeSwapAndCache_spec {e : SwpEntry} (hpos : 1 ≤ s.swapCount e) (frees : Bool) :
    (s.freeSwapAndCache e frees).1 = true ∧ Released s (s.freeSwapAndCache e frees).2 ∧
      (s.freeSwapAndCache e frees).2.anon = s.anon ∧
      (s.freeSwapAndCache e frees).2.debt = s.debt - one (.swap e) := by
  have hgiven : (s.addSwapCount e (-1)).debt = s.debt - one (.swap e) := by
    rw [debt_addSwapCount]
    abel
  have hused : ¬ s.swapCount e ≤ 0 := by omega
  unfold freeSwapAndCache
  rw [if_neg hused]
  dsimp only
  split
  · split
    · rename_i p _ hcopy
      exact ⟨rfl, ⟨rfl, rfl, rfl, rfl⟩, rfl, (debt_freeSwapCache _ p e hcopy).trans hgiven⟩
    · exact ⟨rfl, ⟨rfl, rfl, rfl, rfl⟩, rfl, hgiven⟩
  · exact ⟨rfl, ⟨rfl, rfl, rfl, rfl⟩, rfl, hgiven⟩

/-- A swap entry is cleared. -/
theorem Inv.zapSwap (h : s.Inv clean) (hjob : (s.tasks t).job = .zapping g (some run))
    (hpc : run.pc = .loop) (hlt : run.walk.addr < run.walk.stop) {e : SwpEntry}
    (hpte : s.pte (g.mm, run.walk.here hlt) = .swap e) (frees : Bool) :
    ((((s.freeSwapAndCache e frees).2.bugOn !(s.freeSwapAndCache e frees).1).setPte
      (g.mm, run.walk.here hlt) .none).setJob t (.zapping g (some { run with
        walk := run.walk.next hlt
        rss := addKind run.rss .swapents (-1) }))).Inv clean := by
  have hok := h.jobs t
  rw [hjob] at hok
  obtain ⟨hused, hreleased, hanon, hdebt⟩ := freeSwapAndCache_spec (h.swapCount_pos hpte) frees
  generalize s.freeSwapAndCache e frees = r at hused hreleased hanon hdebt ⊢
  obtain ⟨used, w⟩ := r
  dsimp only at hused hreleased hanon hdebt ⊢
  subst hused
  refine h.zapEntry (i := (g.mm, run.walk.here hlt)) hreleased.tasks hreleased.tlb
    (congrArg (update · _ _) hreleased.pte) ?_
    ⟨hok.1, hok.2.1, hok.2.2.1, fun hunlocked => ?_⟩
    (fun j q hj => waits_kept hj hjob (by rw [hpte]; rfl) rfl rfl) (fun hq => ?_)
  · rw [debt_setPte]
    show w.debt + pteClaims w.anon (g.mm, run.walk.here hlt) (w.pte (g.mm, run.walk.here hlt)) -
      0 + _ = _
    rw [hdebt, hanon, hreleased.pte, h.balanced, hpte, pteClaims, hjob, jobClaims_zapping,
      jobClaims_zapping, rssClaims_addKind]
    abel
  · rw [hpc] at hunlocked
    cases hunlocked
  · show (w.bug || false) = false
    rw [hreleased.bug, hq.bug]
    rfl

theorem Inv.zapOne (h : s.Inv clean) (hjob : (s.tasks t).job = .zapping g (some run))
    (hpc : run.pc = .loop) (hlt : run.walk.addr < run.walk.stop)
    (otherMapping batchPage freesSwap : Bool) :
    (s.zapOne sizes t g run hlt otherMapping batchPage freesSwap).Inv clean := by
  have hok := h.jobs t
  rw [hjob] at hok
  have hskip := h.zapSkip hjob (run.walk.next hlt)
  unfold Vm.zapOne
  dsimp only
  split
  · exact hskip
  · rename_i hpte
    split
    · exact hskip
    · exact h.zapPage hjob hpc hlt hpte _ _
  · rename_i hbacking hpte
    exact h.zapBare hjob hlt hpte hbacking
  · rename_i e hpte
    split
    · exact hskip
    · exact h.zapSwap hjob hpc hlt hpte freesSwap
  · rename_i p _ hpte
    split
    · exact hskip
    · refine h.zapEntry (i := (g.mm, run.walk.here hlt)) rfl rfl rfl ?_ ?_
        (fun j q hw => waits_kept hw hjob (by rw [hpte]; rfl) rfl rfl) fun hq => hq.bug
      · rw [debt_setPte, h.balanced, hpte, hjob, jobClaims_zapping, jobClaims_zapping,
          rssClaims_addKind]
        show 0 + one (.rss g.mm (s.rssKind p)) - 0 + _ = _
        abel
      · refine ⟨hok.1, hok.2.1, hok.2.2.1, fun hunlocked => ?_⟩
        rw [hpc] at hunlocked
        cases hunlocked

/-! ## Behind the loop -/

/-- The batches are freed, where no TLB has their pages any more. -/
theorem Inv.flushFree (h : s.Inv clean) {job : Job M lim} (hrefs : (s.tasks t).job.refs = g.pages)
    (hpending : pendingClaims (s.tasks t).job = 0) (hdry : ∀ i p, ¬(s.tasks t).job.Waits i p)
    (hok : s.JobOk job) (hclaims : jobClaims job = 0) (hcopies : ∀ m, job.copies m = false)
    (hpages : g.flushFree.1 = g.pages) (frees : PageId → Bool) :
    ((s.freePages frees g.flushFree.1).setJob t job).Inv clean := by
  have hreleased := freePages_released s frees g.flushFree.1
  refine h.ofJob_same (fun t' => by rw [hreleased.tasks]) hreleased.pte hreleased.tlb
    hreleased.bug ?_ hok (fun m hm => ?_)
    (fun i p hw => absurd hw (hdry i p))
  · rw [debt_freePages, h.balanced, jobClaims, hrefs, hpending, hpages, hclaims]
    abel
  · rw [hcopies m] at hm
    cases hm

theorem Inv.zapPteRange (h : s.Inv clean) (hjob : (s.tasks t).job = .zapping g (some run))
    (otherMapping batchPage freesSwap : Bool) (frees : PageId → Bool) :
    (s.zapPteRange sizes t g run otherMapping batchPage freesSwap frees).Inv clean := by
  have hok := h.jobs t
  rw [hjob] at hok
  obtain ⟨hgather, harmed, hroom, hrss⟩ := hok
  unfold Vm.zapPteRange
  split
  · rename_i hpc
    split
    · exact h.zapOne hjob hpc _ _ _ _
    · -- the end of the range
      have hroom : g.Room := hroom.resolve_right fun hno => hno.2 hpc
      refine h.ofJob_same (fun _ => rfl) rfl rfl rfl ?_ ⟨hgather, harmed, .inl hroom, by simp⟩
        (fun m hcopies => by cases hcopies) (fun i p hw => ?_)
      · rw [h.balanced, hjob, zero_add]
        rfl
      · rw [hjob] at hw
        exact ⟨hw.1, hw.2.1, hw.2.2.1, by simp⟩
  · rename_i hpc
    have hadded : (s.addMmRssVec t g.mm run.rss).debt + jobClaims (s.tasks t).job
        = pageClaims g.pages := by
      rw [debt_addMmRssVec, h.balanced, hjob, jobClaims_zapping]
      abel
    obtain ⟨htasks, hpte, htlb, hbug⟩ := addMmRssVec_frame s t g.mm run.rss
    dsimp only
    split
    · -- the flush: what waits is in no TLB any more
      rename_i hforce
      have hflush := tlbFlushMmuTlbonly_flushed (s.addMmRssVec t g.mm run.rss) harmed
      generalize (s.addMmRssVec t g.mm run.rss).tlbFlushMmuTlbonly g = r at hflush
      refine h.ofJob (fun t' => by rw [hflush.tasks, htasks]) ?_ ⟨hflush.ok hgather, hflush.armed,
        .inr ⟨hforce, by simp⟩, fun _ => rfl⟩ (fun m hcopies => by cases hcopies)
        (fun i _ hnone => ?_) (fun i p hp => ?_)
        fun hq => hq.congr (hflush.bug.trans hbug) (hflush.pte.trans hpte)
      · rw [hflush.debt, hadded, jobClaims_zapping, hflush.pages, rssClaims_zero, sub_zero]
      · rw [hflush.pte, hpte, hnone]
      · refine (hflush.tlb_cases h hpte htlb (fun j q hw => ?_) hp).imp_right .inr
        rw [hjob] at hw
        exact ⟨hw.1, hw.2.1⟩
    · rename_i hforce
      have hroom : g.Room := hroom.resolve_right fun hno => hforce hno.1
      refine h.ofJob_same htasks hpte htlb hbug ?_ ⟨hgather, harmed, .inl hroom, fun _ => rfl⟩
        (fun m hcopies => by cases hcopies) (fun i p hw => ?_)
      · rw [hadded, jobClaims_zapping, rssClaims_zero, sub_zero]
      · rw [hjob] at hw
        exact ⟨hw.1, hw.2.1, hw.2.2.1, fun hno => hforce hno.1⟩
  · rename_i hpc
    split
    · rename_i hforce
      obtain ⟨hpages, hok', hempty, hroom', -, hfull, -, hstop⟩ := MmuGather.flushFree_spec hgather
      have harmed' : g.flushFree.2.Armed := by
        rw [MmuGather.Armed, hfull, hstop]
        exact harmed
      refine h.flushFree (by rw [hjob]; rfl) ?_ (fun i p hw => ?_) ?_ ?_ (fun _ => rfl) hpages frees
      · rw [hjob, pendingClaims, hrss hpc, rssClaims_zero]
      · rw [hjob] at hw
        exact hw.2.2.2 ⟨hforce, hpc⟩
      · split
        · exact ⟨hok', harmed', hroom'⟩
        · exact ⟨hok', harmed', .inl hroom', fun _ => hrss hpc⟩
      · split
        · rw [jobClaims_between, hempty, pageClaims]
        · rw [jobClaims_zapping, hempty, hrss hpc, rssClaims_zero, pageClaims, sub_zero]
    · rename_i hforce
      have hroom : g.Room := hroom.resolve_right fun hno => hforce hno.1
      refine h.ofJob_same (fun _ => rfl) rfl rfl rfl ?_ ⟨hgather, harmed, hroom⟩
        (fun m hcopies => by cases hcopies) (fun i p hw => ?_)
      · rw [h.balanced, hjob, jobClaims_zapping, jobClaims_between, hrss hpc, rssClaims_zero,
          zero_add, sub_zero]
      · rw [hjob] at hw
        exact ⟨hw.1, hw.2.1, hw.2.2.1⟩

theorem Inv.tlbFinishMmu {frees : PageId → Bool} (h : s.Inv clean)
    (hstep : s.tlbFinishMmu t frees = some w) : w.Inv clean := by
  have hok := h.jobs t
  unfold Vm.tlbFinishMmu at hstep
  split at hstep
  · rename_i g hjob
    cases hstep
    rw [hjob] at hok
    obtain ⟨hgather, harmed, -⟩ := hok
    have hflush := tlbFlushMmuTlbonly_flushed s harmed
    generalize s.tlbFlushMmuTlbonly g = r at hflush
    refine h.ofJob (fun t' => by rw [hflush.tasks]) ?_ (hflush.ok hgather)
      (fun m hcopies => by cases hcopies) (fun i _ hnone => ?_) (fun i p hp => ?_)
      fun hq => hq.congr hflush.bug hflush.pte
    · rw [hflush.debt, h.balanced, hjob, jobClaims_between, jobClaims_finishing, hflush.pages,
        zero_add]
    · rw [hflush.pte]
      exact hnone
    · refine (hflush.tlb_cases h rfl rfl (fun j q hw => ?_) hp).imp_right .inr
      rw [hjob] at hw
      exact ⟨hw.1, hw.2.1⟩
  · rename_i g hjob
    cases hstep
    rw [hjob] at hok
    refine h.flushFree (by rw [hjob]; rfl) (by rw [hjob]; rfl) (fun i p hw => ?_)
      (show s.JobOk .idle from trivial) jobClaims_idle (fun _ => rfl)
      (MmuGather.flushFree_spec hok).1 frees
    rw [hjob] at hw
    exact hw
  · cases hstep

end Vm

end MegaVM
