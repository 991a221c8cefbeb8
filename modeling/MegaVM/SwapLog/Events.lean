import MegaVM.Lib.Selections
import MegaVM.SwapLog.SwapIn
import MegaVM.SwapLog.SwapOut

/-!
# What the two logs record

A run of the instrumented kernel: page faults, and reclaims of lists of
pages. Both hooks stand in front of the tests that decide what becomes of
the page. `addInArray_IN` records every fault whose pte is unchanged, with
a migration entry as well as one that fails later; `addInArray` records
what stands in `page_private` of every page handed to `pageout`, buffers
of a file as well as a swap entry. The hook that copies the page of a
fault stands behind `set_pte_at`.

`Exact` is what the experiment compares: the entries swapped in, and the
entries swapped out. `exact_iff` says when the logs hold just these.
-/

namespace MegaVM

open Selections

/-! ## Runs of the kernel -/

inductive KernelEvent
  /-- `do_swap_page`. -/
  | fault (f : SwapFault)
  /-- `shrink_page_list`. -/
  | shrink (sc : ScanControl) (pages : List PageId) (ts : List PageTry)

structure Kernel where
  memory : Memory
  reclaim : Reclaim
  /-- The faults so far and the pages handed to `pageout`, oldest first; no
  event reads them. -/
  faults : List (SwapFault × FaultEnd)
  pageouts : List PageTry

/-- The fault of an event. -/
def KernelEvent.fault? : KernelEvent → Option SwapFault
  | .fault f => some f
  | .shrink _ _ _ => none

/-- The pages an event hands to `pageout`. -/
def KernelEvent.handedOver : KernelEvent → List PageTry
  | .fault _ => []
  | .shrink sc pages ts => (sc.turns pages.length ts).filter (·.handedOver sc)

/-- The page is in the swap cache and on its way to the disk. -/
def PageTry.swapsOut (t : PageTry) : Bool := t.inSwapCache && t.pageout == .success

namespace Kernel

def boot (memIN memOUT : Nat → PageRecord) : Kernel := ⟨.boot memIN, .boot memOUT, [], []⟩

def step (k : Kernel) : KernelEvent → Kernel
  | .fault f =>
      let (memory, e) := doSwapPage k.memory f
      { k with memory := memory, faults := k.faults ++ [(f, e)] }
  | .shrink sc pages ts =>
      let s := shrinkPageList sc pages ts k.reclaim
      { k with reclaim := s.reclaim, pageouts := k.pageouts ++ s.pageouts }

def run (k : Kernel) (es : List KernelEvent) : Kernel := es.foldl step k

/-- The swap entries of the faults that have installed a pte. -/
def swappedIn (k : Kernel) : List Ulong := (k.faults.filter (·.2.installed)).map (·.1.entry)

/-- The swap entries of the swap-cache pages sent to the disk. -/
def swappedOut (k : Kernel) : List Ulong := (k.pageouts.filter (·.swapsOut)).map (·.priv)

/-- The entries the hooks record. -/
def recordedIn (k : Kernel) : List Ulong := (k.faults.filter (·.1.unmapSame)).map (·.1.entry)

def recordedOut (k : Kernel) : List Ulong := ShrinkRun.recorded k.pageouts

/-- The logs hold the entries swapped in and the entries swapped out. -/
structure Exact (k : Kernel) : Prop where
  swapIn : k.memory.log.Holds 20 20000 k.swappedIn
  swapOut : k.reclaim.log.Holds 20 20000 k.swappedOut

/-! ## What holds in every run -/

/-- The logs are made of what the hooks record, and the faults on record
have ended as their answers say. -/
structure Logged (k : Kernel) : Prop where
  memory : k.memory.log = SwapLog.record Memory.addInArrayIN Memory.logIN k.recordedIn
  reclaim : k.reclaim.log = SwapLog.record Vmscan.addInArray Vmscan.log k.recordedOut
  faults : ∀ x ∈ k.faults, x.2.installed = x.1.completes

theorem record_append (add : SwapLog → Ulong → SwapLog) (log : SwapLog) (es es' : List Ulong) :
    SwapLog.record add log (es ++ es') = SwapLog.record add (SwapLog.record add log es) es' :=
  List.foldl_append

theorem Logged.step {k : Kernel} (h : Logged k) (e : KernelEvent) : Logged (k.step e) := by
  cases e with
  | fault f =>
      refine ⟨?_, h.reclaim, ?_⟩
      · have hlog := doSwapPage_log k.memory f
        rw [h.memory] at hlog
        have hrec : (k.step (.fault f)).recordedIn
            = k.recordedIn ++ if f.unmapSame then [f.entry] else [] := by
          cases hsame : f.unmapSame <;> simp [recordedIn, Kernel.step, hsame]
        rw [hrec, record_append]
        refine hlog.trans ?_
        cases f.unmapSame <;> rfl
      · intro x hx
        rcases List.mem_append.mp hx with hx | hx
        · exact h.faults x hx
        · rw [List.mem_singleton.mp hx]
          exact doSwapPage_installed k.memory f
  | shrink sc pages ts =>
      refine ⟨h.memory, ?_, h.faults⟩
      have hhooked := shrinkPageList_hooked sc pages ts k.reclaim
      have hlogs := congrArg Reclaim.log hhooked
      rw [ShrinkRun.foldl_hook_log, h.reclaim, ← record_append] at hlogs
      have hrec : (k.step (.shrink sc pages ts)).recordedOut = k.recordedOut ++
          ShrinkRun.recorded (shrinkPageList sc pages ts k.reclaim).pageouts := by
        simp [recordedOut, ShrinkRun.recorded, Kernel.step]
      rw [hrec]
      exact hlogs

theorem Logged.run {k : Kernel} (h : Logged k) (es : List KernelEvent) : Logged (k.run es) := by
  induction es generalizing k with
  | nil => exact h
  | cons e es ih => exact ih (h.step e)

theorem boot_logged (memIN memOUT : Nat → PageRecord) : Logged (boot memIN memOUT) :=
  ⟨rfl, rfl, fun _ hx => absurd hx List.not_mem_nil⟩

/-- An event changes no filled record of the two stores. -/
theorem step_extends (k : Kernel) (e : KernelEvent) :
    k.memory.store.Extends (k.step e).memory.store ∧
      k.reclaim.store.Extends (k.step e).reclaim.store := by
  cases e with
  | fault f =>
      refine ⟨?_, PageStore.Extends.refl _⟩
      have hstore : (k.step (.fault f)).memory.store =
          if f.completes then k.memory.store.fill f.entry f.kmap else k.memory.store :=
        doSwapPage_store k.memory f
      rw [hstore]
      split
      · exact PageStore.fill_extends
      · exact PageStore.Extends.refl _
  | shrink sc pages ts =>
      refine ⟨PageStore.Extends.refl _, ?_⟩
      have hreclaim : (k.step (.shrink sc pages ts)).reclaim =
          (shrinkPageList sc pages ts k.reclaim).pageouts.foldl Reclaim.hook k.reclaim :=
        shrinkPageList_hooked sc pages ts k.reclaim
      rw [hreclaim]
      exact ShrinkRun.foldl_hook_extends _ _

theorem run_extends (k : Kernel) (es : List KernelEvent) :
    k.memory.store.Extends (k.run es).memory.store ∧
      k.reclaim.store.Extends (k.run es).reclaim.store := by
  induction es generalizing k with
  | nil => exact ⟨PageStore.Extends.refl _, PageStore.Extends.refl _⟩
  | cons e es ih =>
      obtain ⟨hmemory, hreclaim⟩ := k.step_extends e
      obtain ⟨hmemory', hreclaim'⟩ := ih (k.step e)
      exact ⟨hmemory.trans hmemory', hreclaim.trans hreclaim'⟩

/-- The stores keep the sizes they have been allocated with, and the hooks
their bounds. -/
theorem run_size (memIN memOUT : Nat → PageRecord) (es : List KernelEvent) :
    (((boot memIN memOUT).run es).memory.store.size = 1000 ∧
      ((boot memIN memOUT).run es).memory.store.bound = 1000) ∧
    ((boot memIN memOUT).run es).reclaim.store.size = 100 ∧
      ((boot memIN memOUT).run es).reclaim.store.bound = 100 := by
  obtain ⟨hmemory, hreclaim⟩ := (boot memIN memOUT).run_extends es
  exact ⟨⟨hmemory.size, hmemory.bound⟩, hreclaim.size, hreclaim.bound⟩

/-! ## What is on record -/

theorem run_faults (k : Kernel) (es : List KernelEvent) :
    (k.run es).faults.map (·.1) = k.faults.map (·.1) ++ es.filterMap (·.fault?) := by
  induction es generalizing k with
  | nil => simp [run]
  | cons e es ih =>
      rw [show k.run (e :: es) = (k.step e).run es from rfl, ih]
      cases e with
      | fault f => simp [Kernel.step, KernelEvent.fault?]
      | shrink sc pages ts => simp [Kernel.step, KernelEvent.fault?]

theorem run_pageouts (k : Kernel) (es : List KernelEvent) :
    (k.run es).pageouts = k.pageouts ++ es.flatMap (·.handedOver) := by
  induction es generalizing k with
  | nil => simp [run]
  | cons e es ih =>
      rw [show k.run (e :: es) = (k.step e).run es from rfl, ih, List.flatMap_cons,
        ← List.append_assoc]
      congr 1
      cases e with
      | fault f => exact (List.append_nil _).symm
      | shrink sc pages ts =>
          exact congrArg (k.pageouts ++ ·) (shrinkPageList_pageouts sc pages ts k.reclaim)

end Kernel

/-! ## When the logs are exact -/

/-- The events of which the hooks record what they are meant to record: a
fault on an unchanged pte passes every test up to `set_pte_at`, and a page
handed to `pageout` has a private value just in case it is a swap-cache
page that is sent to the disk. -/
def KernelEvent.Faithful : KernelEvent → Prop
  | .fault f => f.unmapSame = true → f.completes = true
  | .shrink sc pages ts => ∀ t ∈ sc.turns pages.length ts, t.handedOver sc = true →
      (t.priv ≠ 0 ↔ t.swapsOut = true)

instance : (e : KernelEvent) → Decidable e.Faithful
  | .fault f => inferInstanceAs (Decidable (f.unmapSame = true → f.completes = true))
  | .shrink sc pages ts => inferInstanceAs (Decidable (∀ t ∈ sc.turns pages.length ts,
      t.handedOver sc = true → (t.priv ≠ 0 ↔ t.swapsOut = true)))

namespace Kernel

theorem faithful_iff (es : List KernelEvent) :
    (∀ e ∈ es, e.Faithful) ↔
      (∀ f ∈ es.filterMap (·.fault?), f.unmapSame = true → f.completes = true) ∧
      ∀ t ∈ es.flatMap (·.handedOver), t.priv ≠ 0 ↔ t.swapsOut = true := by
  constructor
  · intro h
    constructor
    · intro f hf
      obtain ⟨e, he, hfault⟩ := List.mem_filterMap.mp hf
      cases e with
      | fault f' =>
          obtain rfl := Option.some.inj hfault
          exact h _ he
      | shrink sc pages ts => cases hfault
    · intro t ht
      obtain ⟨e, he, hover⟩ := List.mem_flatMap.mp ht
      cases e with
      | fault f => cases hover
      | shrink sc pages ts =>
          obtain ⟨hturn, hhand⟩ := List.mem_filter.mp hover
          exact h _ he t hturn hhand
  · rintro ⟨hfaults, hpages⟩ e he
    cases e with
    | fault f => exact hfaults f (List.mem_filterMap.mpr ⟨_, he, rfl⟩)
    | shrink sc pages ts =>
        intro t ht hhand
        exact hpages t (List.mem_flatMap.mpr ⟨_, he, List.mem_filter.mpr ⟨ht, hhand⟩⟩)

/-- **The two logs are exact exactly when** every event is faithful. -/
theorem exact_iff (memIN memOUT : Nat → PageRecord) (es : List KernelEvent)
    (hin : ((boot memIN memOUT).run es).recordedIn.length ≤ 20 * 20000)
    (hout : ((boot memIN memOUT).run es).recordedOut.length ≤ 20 * 20000) :
    Exact ((boot memIN memOUT).run es) ↔ ∀ e ∈ es, e.Faithful := by
  have hlogged := (boot_logged memIN memOUT).run es
  have hfaults : ((boot memIN memOUT).run es).faults.map (·.1) = es.filterMap (·.fault?) :=
    run_faults (boot memIN memOUT) es
  have hpageouts : ((boot memIN memOUT).run es).pageouts = es.flatMap (·.handedOver) :=
    run_pageouts (boot memIN memOUT) es
  rw [faithful_iff, ← hfaults, ← hpageouts, List.forall_mem_map]
  clear hfaults hpageouts
  generalize (boot memIN memOUT).run es = k at *
  have hholdsIn : k.memory.log.Holds 20 20000 k.recordedIn := by
    rw [hlogged.memory]
    exact SwapLog.holds_record (by decide) hin
  have hholdsOut : k.reclaim.log.Holds 20 20000 k.recordedOut := by
    rw [hlogged.reclaim]
    exact SwapLog.holds_record (by decide) hout
  have hselIn : k.recordedIn = k.swappedIn ↔
      ∀ x ∈ k.faults, x.1.unmapSame = true → x.1.completes = true := by
    rw [recordedIn, swappedIn, map_filter_eq_iff_of_imp]
    · exact forall₂_congr fun x hx => by rw [hlogged.faults x hx]
    · intro x hx hinstalled
      rw [hlogged.faults x hx] at hinstalled
      exact SwapFault.completes_same hinstalled
  have hselOut : k.recordedOut = k.swappedOut ↔
      ∀ t ∈ k.pageouts, t.priv ≠ 0 ↔ t.swapsOut = true := by
    rw [recordedOut, ShrinkRun.recorded, swappedOut,
      map_filter_eq_iff_of_value (P := (· ≠ 0)) fun t _ => bne_iff_ne]
    exact forall₂_congr fun t _ => by rw [bne_iff_ne]
  rw [← hselIn, ← hselOut]
  constructor
  · intro h
    exact ⟨hholdsIn.unique h.swapIn, hholdsOut.unique h.swapOut⟩
  · rintro ⟨heqIn, heqOut⟩
    exact ⟨heqIn ▸ hholdsIn, heqOut ▸ hholdsOut⟩

/-! ## One fault and one page -/

/-- Major fault: entry 300 is read from the disk and mapped. -/
def majorFault : SwapFault where
  unmapSame := true
  entry := 300
  nonSwapEntry := false
  migrationEntry := false
  hwpoisonEntry := false
  lookup := false
  readahead := true
  readaheadSame := false
  pageHWPoison := false
  locked := true
  pageSwapCache := true
  pagePrivate := 300
  ksm := some .cached
  chargeFails := false
  pteSame := true
  pageUptodate := true
  writeFault := false
  reuseSwapPage := false
  softDirty := false
  freeSwap := false
  kmap := none
  wpRet := []

/-- Direct reclaim with every permission. -/
def directReclaim : ScanControl := ⟨true, true, true, true, false, false, false⟩

/-- An anonymous page that gets entry 300 and is under writeback after
`pageout`. -/
def anonTry : PageTry where
  trylock := true
  evictable := true
  mapped := true
  swapCache := false
  checkDirty := false
  checkWriteback := false
  mapping := false
  congested := false
  pageReclaim := false
  writeback := false
  zoneWriteback := false
  references := .reclaim
  anon := true
  addToSwap := true
  swapMapping := true
  mappedStill := true
  unmap := .success
  dirty := true
  fileCache := false
  zoneDirty := false
  priv := 300
  kmap := none
  pageout := .success
  stillOut := true
  relock := false
  dirtyAgain := false
  mappingAfter := false
  hasPrivate := false
  release := false
  lastRef := false
  putTestzero := false
  removeMapping := false

/-- A page of memory nobody has written. -/
def blankRecords : Nat → PageRecord := fun _ => ⟨0, fun _ => 0⟩

/-- The entry goes out and comes back in. -/
theorem exact_round :
    Exact ((boot blankRecords blankRecords).run
      [.shrink directReclaim [0] [anonTry], .fault majorFault]) :=
  (exact_iff blankRecords blankRecords _ (by decide) (by decide)).mpr (by decide)

/-- A fault on a migration entry is recorded and installs nothing. -/
theorem not_exact :
    ¬ ∀ memIN memOUT es,
      ((boot memIN memOUT).run es).recordedIn.length ≤ 20 * 20000 →
      ((boot memIN memOUT).run es).recordedOut.length ≤ 20 * 20000 →
      Exact ((boot memIN memOUT).run es) := by
  intro hall
  have h := hall blankRecords blankRecords
    [.fault { majorFault with nonSwapEntry := true, migrationEntry := true }]
    (by decide) (by decide)
  have hcursors := h.swapIn.cursors
  revert hcursors
  decide

/-- On the other side a page is recorded twice when the first `pageout`
does not take it. -/
example : ((boot blankRecords blankRecords).run
    [.shrink directReclaim [0] [{ anonTry with pageout := .keep }],
      .shrink directReclaim [0] [anonTry]]).recordedOut = [300, 300] := by decide

end Kernel

end MegaVM
