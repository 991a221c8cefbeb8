import MegaVM.SwapLog.SwapOut

/-!
# `mmu_gather`

The pages whose entries are cleared wait in batches until the TLBs are
flushed. The list of batches starts with `local`; `active` is the one that
is filled, so the ones in front of it are full and the ones behind it are
left over from an earlier flush, and empty.

* `MmuGather.removePage` — `__tlb_remove_page`, one page into the batches;
* `MmuGather.flushFree` — `tlb_flush_mmu_free`, all of them out again;
* `MmuGather.Ok` — what the two rely on.
-/

namespace MegaVM

namespace Vm

/-- `struct mmu_gather_batch`: `nr` is the length. -/
structure GatherBatch where
  pages : List PageId := []
  max : Nat

/-- `struct mmu_gather`. The range is in pages; an empty one has `stop` 0. -/
structure MmuGather (M : Type) where
  mm : M
  fullmm : Bool
  start : Nat
  stop : Nat
  /-- The batches in front of `active`, and those behind it. -/
  before : List GatherBatch := []
  active : GatherBatch
  behind : List GatherBatch := []
  batchCount : Nat := 0

/-- `MAX_GATHER_BATCH` and `MAX_GATHER_BATCH_COUNT`; `MMU_GATHER_BUNDLE` is
the size of `__pages`. -/
structure GatherSizes where
  bundle : Nat
  batch : Nat
  count : Nat
  bundle_pos : 0 < bundle
  batch_pos : 0 < batch

/-- `~0UL`, the end of the range of a whole address space. -/
def ulongMax : Nat := 2 ^ 64 - 1

namespace MmuGather

variable {M : Type}

/-- `__tlb_reset_range`; `limit` is `TASK_SIZE`. -/
def resetRange (g : MmuGather M) (limit : Nat) : MmuGather M :=
  if g.fullmm then { g with start := ulongMax, stop := ulongMax }
  else { g with start := limit, stop := 0 }

/-- `tlb_gather_mmu`. -/
def gather (sizes : GatherSizes) (limit : Nat) (mm : M) (fullmm : Bool) : MmuGather M :=
  resetRange { mm, fullmm, start := 0, stop := 0, active := { max := sizes.bundle } } limit

/-- `tlb_remove_tlb_entry`, by `__tlb_adjust_range`. -/
def adjustRange (g : MmuGather M) (addr : Nat) : MmuGather M :=
  { g with start := min g.start addr, stop := max g.stop (addr + 1) }

/-- `tlb_next_batch`; `page` tells whether there is a page for a new batch. -/
def nextBatch (sizes : GatherSizes) (g : MmuGather M) (page : Bool) : Option (MmuGather M) :=
  match g.behind with
  | batch :: rest =>
      some { g with before := g.before ++ [g.active], active := batch, behind := rest }
  | [] =>
      if g.batchCount = sizes.count then none
      else if !page then none
      else some { g with
        before := g.before ++ [g.active]
        active := { max := sizes.batch }
        batchCount := g.batchCount + 1 }

/-- `batch->pages[batch->nr++] = page`. -/
def store (g : MmuGather M) (p : PageId) : MmuGather M :=
  { g with active := { g.active with pages := g.active.pages ++ [p] } }

/-- The slots left in `active`. -/
def slots (g : MmuGather M) : Nat := g.active.max - g.active.pages.length

/-- `__tlb_remove_page`, with the number of slots left. -/
def removePage (sizes : GatherSizes) (g : MmuGather M) (p : PageId) (page : Bool) :
    MmuGather M × Nat :=
  if (g.store p).active.pages.length = g.active.max then
    match (g.store p).nextBatch sizes page with
    | none => (g.store p, 0)
    | some g' => (g', g'.slots)
  else (g.store p, (g.store p).slots)

/-- The loop of `tlb_flush_mmu_free`, with the pages it frees. -/
def flushBatches : List GatherBatch → List PageId × List GatherBatch
  | [] => ([], [])
  | batch :: rest =>
      if batch.pages = [] then ([], batch :: rest)
      else
        let (freed, rest) := flushBatches rest
        (batch.pages ++ freed, { batch with pages := [] } :: rest)

/-- `tlb_flush_mmu_free`. -/
def flushFree (g : MmuGather M) : List PageId × MmuGather M :=
  match flushBatches (g.before ++ g.active :: g.behind) with
  | (freed, batch :: rest) => (freed, { g with before := [], active := batch, behind := rest })
  | (freed, []) => (freed, g)

/-- The pages that wait. -/
def pages (g : MmuGather M) : List PageId :=
  g.before.flatMap GatherBatch.pages ++ g.active.pages

/-- The range has the page of the address in it. -/
def Covers (g : MmuGather M) (addr : Nat) : Prop :=
  g.fullmm = true ∨ g.start ≤ addr ∧ addr < g.stop

instance (g : MmuGather M) (addr : Nat) : Decidable (g.Covers addr) :=
  inferInstanceAs (Decidable (_ ∨ _))

/-- What every function of the gather keeps. -/
structure Ok (g : MmuGather M) : Prop where
  before : ∀ batch ∈ g.before, batch.pages ≠ []
  behind : ∀ batch ∈ g.behind, batch.pages = [] ∧ 0 < batch.max
  room : g.active.pages.length ≤ g.active.max
  max_pos : 0 < g.active.max
  maxes : ∀ batch ∈ g.before, 0 < batch.max

section
variable {sizes : GatherSizes} {g g' : MmuGather M} {limit : Nat}

@[simp] theorem resetRange_pages : (g.resetRange limit).pages = g.pages := by
  unfold resetRange
  split <;> rfl

@[simp] theorem resetRange_mm : (g.resetRange limit).mm = g.mm := by
  unfold resetRange
  split <;> rfl

@[simp] theorem resetRange_active : (g.resetRange limit).active = g.active := by
  unfold resetRange
  split <;> rfl

theorem Ok.resetRange (h : g.Ok) : (g.resetRange limit).Ok := by
  unfold MmuGather.resetRange
  split <;> exact ⟨h.before, h.behind, h.room, h.max_pos, h.maxes⟩

theorem Ok.adjustRange (h : g.Ok) (addr : Nat) : (g.adjustRange addr).Ok :=
  ⟨h.before, h.behind, h.room, h.max_pos, h.maxes⟩

theorem gather_ok (mm : M) (fullmm : Bool) : (gather sizes limit mm fullmm).Ok := by
  refine Ok.resetRange ⟨?_, ?_, Nat.zero_le _, sizes.bundle_pos, ?_⟩
  · intro batch hmem
    cases hmem
  · intro batch hmem
    cases hmem
  · intro batch hmem
    cases hmem

@[simp] theorem gather_pages (mm : M) (fullmm : Bool) :
    (gather sizes limit mm fullmm).pages = [] := resetRange_pages

/-- The range only grows. -/
theorem covers_adjustRange (addr : Nat) {a : Nat} (h : g.Covers a ∨ a = addr) :
    (g.adjustRange addr).Covers a := by
  rcases h with (hfull | ⟨hstart, hstop⟩) | rfl
  · exact .inl hfull
  · exact .inr ⟨le_trans (min_le_left _ _) hstart, lt_of_lt_of_le hstop (le_max_left _ _)⟩
  · exact .inr ⟨min_le_right _ _, lt_of_lt_of_le (Nat.lt_succ_self _) (le_max_right _ _)⟩

/-- An entry that is cleared makes the range not empty. -/
theorem adjustRange_stop (addr : Nat) : (g.adjustRange addr).stop ≠ 0 := by
  have h := le_max_right g.stop (addr + 1)
  show max g.stop (addr + 1) ≠ 0
  omega

theorem nextBatch_spec (h : g.Ok) (hfull : g.active.pages ≠ []) {page : Bool}
    (hnext : g.nextBatch sizes page = some g') :
    g'.Ok ∧ g'.pages = g.pages ∧ g'.active.pages = [] ∧ g'.mm = g.mm ∧
      g'.fullmm = g.fullmm ∧ g'.start = g.start ∧ g'.stop = g.stop := by
  have hbefore : ∀ batch ∈ g.before ++ [g.active], batch.pages ≠ [] := by
    intro batch hmem
    rcases List.mem_append.mp hmem with hmem | hmem
    · exact h.before batch hmem
    · rwa [List.mem_singleton.mp hmem]
  have hmaxes : ∀ batch ∈ g.before ++ [g.active], 0 < batch.max := by
    intro batch hmem
    rcases List.mem_append.mp hmem with hmem | hmem
    · exact h.maxes batch hmem
    · rw [List.mem_singleton.mp hmem]
      exact h.max_pos
  have hpages : ∀ b : GatherBatch, b.pages = [] →
      (g.before ++ [g.active]).flatMap GatherBatch.pages ++ b.pages = g.pages := by
    intro b hb
    rw [hb, List.append_nil, List.flatMap_append, List.flatMap_singleton, pages]
  unfold nextBatch at hnext
  cases hrest : g.behind with
  | cons batch rest =>
      rw [hrest, Option.some.injEq] at hnext
      subst hnext
      have hbatch := h.behind batch (hrest ▸ List.mem_cons_self)
      refine ⟨⟨hbefore, ?_, ?_, hbatch.2, hmaxes⟩, hpages batch hbatch.1, hbatch.1,
        rfl, rfl, rfl, rfl⟩
      · intro b hmem
        exact h.behind b (hrest ▸ List.mem_cons_of_mem batch hmem)
      · show batch.pages.length ≤ batch.max
        rw [hbatch.1]
        exact Nat.zero_le _
  | nil =>
      simp only [hrest] at hnext
      split at hnext
      · cases hnext
      · split at hnext
        · cases hnext
        · cases hnext
          refine ⟨⟨hbefore, ?_, Nat.zero_le _, sizes.batch_pos, hmaxes⟩, hpages _ rfl, rfl,
            rfl, rfl, rfl, rfl⟩
          intro b hmem
          exact h.behind b (hrest ▸ hmem)

/-- The page is put behind the others, and where slots are left there is
room for the next. -/
theorem removePage_spec (sizes : GatherSizes) (h : g.Ok)
    (hroom : g.active.pages.length < g.active.max) (p : PageId) (page : Bool) :
    (g.removePage sizes p page).1.Ok ∧
      (g.removePage sizes p page).1.pages = g.pages ++ [p] ∧
      ((g.removePage sizes p page).2 ≠ 0 →
        (g.removePage sizes p page).1.active.pages.length
          < (g.removePage sizes p page).1.active.max) ∧
      (g.removePage sizes p page).1.mm = g.mm ∧
      (g.removePage sizes p page).1.fullmm = g.fullmm ∧
      (g.removePage sizes p page).1.start = g.start ∧
      (g.removePage sizes p page).1.stop = g.stop := by
  have hlen : (g.active.pages ++ [p]).length = g.active.pages.length + 1 := by
    rw [List.length_append, List.length_singleton]
  have hput : (g.store p).Ok := by
    refine ⟨h.before, h.behind, ?_, h.max_pos, h.maxes⟩
    show (g.active.pages ++ [p]).length ≤ g.active.max
    omega
  have hpages : (g.store p).pages = g.pages ++ [p] := by
    simp only [pages, store, List.append_assoc]
  unfold removePage
  split
  · cases hnext : (g.store p).nextBatch sizes page with
    | none => exact ⟨hput, hpages, fun hne => absurd rfl hne, rfl, rfl, rfl, rfl⟩
    | some g' =>
        have hne : g.active.pages ++ [p] ≠ [] := List.append_ne_nil_of_right_ne_nil _ (by simp)
        obtain ⟨hok, heq, hempty, hsame⟩ := nextBatch_spec hput hne hnext
        refine ⟨hok, heq.trans hpages, fun _ => ?_, hsame⟩
        show g'.active.pages.length < g'.active.max
        rw [hempty]
        exact hok.max_pos
  · refine ⟨hput, hpages, fun hne => ?_, rfl, rfl, rfl, rfl⟩
    show (g.active.pages ++ [p]).length < g.active.max
    have hslots : g.active.max - (g.active.pages ++ [p]).length ≠ 0 := hne
    omega

/-- The loop stops at the first empty batch, and has freed everything. -/
theorem flushBatches_spec (before behind : List GatherBatch) (active : GatherBatch)
    (hbefore : ∀ batch ∈ before, batch.pages ≠ [] ∧ 0 < batch.max) (hmax : 0 < active.max)
    (hbehind : ∀ batch ∈ behind, batch.pages = [] ∧ 0 < batch.max) :
    (flushBatches (before ++ active :: behind)).1
        = before.flatMap GatherBatch.pages ++ active.pages ∧
      (flushBatches (before ++ active :: behind)).2 ≠ [] ∧
      ∀ batch ∈ (flushBatches (before ++ active :: behind)).2,
        batch.pages = [] ∧ 0 < batch.max := by
  induction before with
  | cons batch rest ih =>
      obtain ⟨hfreed, -, hrest⟩ := ih fun b hmem => hbefore b (List.mem_cons_of_mem batch hmem)
      have hbatch := hbefore batch List.mem_cons_self
      simp only [List.cons_append, flushBatches, if_neg hbatch.1, hfreed, List.flatMap_cons,
        List.append_assoc]
      refine ⟨trivial, List.cons_ne_nil _ _, fun b hmem => ?_⟩
      rcases List.mem_cons.mp hmem with rfl | hmem
      · exact ⟨rfl, hbatch.2⟩
      · exact hrest b hmem
  | nil =>
      -- what is behind `active` is empty, so the loop ends there at the latest
      have hstop : flushBatches behind = ([], behind) := by
        cases behind with
        | nil => rfl
        | cons b bs => rw [flushBatches, if_pos (hbehind b List.mem_cons_self).1]
      rw [List.nil_append, flushBatches, hstop]
      split
      · rename_i hempty
        refine ⟨by rw [hempty]; rfl, List.cons_ne_nil _ _, fun b hmem => ?_⟩
        rcases List.mem_cons.mp hmem with rfl | hmem
        · exact ⟨hempty, hmax⟩
        · exact hbehind b hmem
      · refine ⟨List.append_nil _, List.cons_ne_nil _ _, fun b hmem => ?_⟩
        rcases List.mem_cons.mp hmem with rfl | hmem
        · exact ⟨rfl, hmax⟩
        · exact hbehind b hmem

/-- `tlb_flush_mmu_free` frees every page that waits, and once. -/
theorem flushFree_spec (h : g.Ok) :
    g.flushFree.1 = g.pages ∧ g.flushFree.2.Ok ∧ g.flushFree.2.pages = [] ∧
      g.flushFree.2.active.pages.length < g.flushFree.2.active.max ∧
      g.flushFree.2.mm = g.mm ∧ g.flushFree.2.fullmm = g.fullmm ∧
      g.flushFree.2.start = g.start ∧ g.flushFree.2.stop = g.stop := by
  obtain ⟨hfreed, hne, hempty⟩ := flushBatches_spec g.before g.behind g.active
    (fun batch hmem => ⟨h.before batch hmem, h.maxes batch hmem⟩) h.max_pos h.behind
  unfold flushFree
  cases hrun : flushBatches (g.before ++ g.active :: g.behind) with
  | mk freed batches =>
      rw [hrun] at hfreed hne hempty
      cases batches with
      | nil => exact absurd rfl hne
      | cons batch rest =>
          have hbatch := hempty batch List.mem_cons_self
          have hlen : batch.pages.length = 0 := by rw [hbatch.1]; rfl
          refine ⟨hfreed, ⟨?_, ?_, ?_, hbatch.2, ?_⟩, hbatch.1, ?_, rfl, rfl, rfl, rfl⟩
          · intro b hmem
            cases hmem
          · intro b hmem
            exact hempty b (List.mem_cons_of_mem batch hmem)
          · show batch.pages.length ≤ batch.max
            omega
          · intro b hmem
            cases hmem
          · show batch.pages.length < batch.max
            have := hbatch.2
            omega

end

end MmuGather

end Vm

end MegaVM
