import MegaVM.SwapLog.PageStore

/-!
# `do_swap_page`

The page fault on a swapped-out page, with the two hooks of the
experiment: `addInArray_IN` near the top, in front of every test of the
entry, and the copy of the page behind `set_pte_at`. What the kernel
functions it calls return is the input, one field for each in the order
of the calls; the calls that change something are recorded. A label of
the source is the list of calls that stands behind it.
-/

namespace MegaVM

/-- The bits of the return value. -/
inductive VmFault
  | oom | sigbus | major | write | hwpoison | retry
  deriving DecidableEq, Repr

/-- `VM_FAULT_ERROR`. -/
def VmFault.isError : VmFault → Bool
  | .oom | .sigbus | .hwpoison => true
  | _ => false

/-- `page`, against `swapcache`. -/
inductive FaultPage
  /-- `page == swapcache`. -/
  | cached
  /-- The copy `ksm_might_need_to_copy` has made. -/
  | copy
  deriving DecidableEq, Repr

/-- The calls of `do_swap_page` that change something. -/
inductive FaultCall
  | migrationEntryWait | printBadPte
  | pteLock | pteUnlock
  | lockPage | unlockPage (page : FaultPage) | release (page : FaultPage)
  | tryCharge | cancelCharge | commitCharge
  | setPteAt (page : FaultPage) (writable softDirty : Bool)
  | addRmap (page : FaultPage)
  | swapFree | tryToFreeSwap
  | doWpPage | updateMmuCache
  deriving DecidableEq, Repr

/-- One fault: what the kernel answers. -/
structure SwapFault where
  /-- `pte_unmap_same`. -/
  unmapSame : Bool
  /-- `pte_to_swp_entry(orig_pte).val`. -/
  entry : Ulong
  nonSwapEntry : Bool
  migrationEntry : Bool
  hwpoisonEntry : Bool
  /-- `lookup_swap_cache` and `swapin_readahead` found a page. -/
  lookup : Bool
  readahead : Bool
  /-- `pte_same` after a failed readahead. -/
  readaheadSame : Bool
  pageHWPoison : Bool
  /-- `lock_page_or_retry`. -/
  locked : Bool
  pageSwapCache : Bool
  pagePrivate : Ulong
  /-- `ksm_might_need_to_copy`. -/
  ksm : Option FaultPage
  /-- `mem_cgroup_try_charge` fails. -/
  chargeFails : Bool
  pteSame : Bool
  pageUptodate : Bool
  /-- `flags & FAULT_FLAG_WRITE`. -/
  writeFault : Bool
  reuseSwapPage : Bool
  softDirty : Bool
  /-- `vm_swap_full()`, `VM_LOCKED` or `PageMlocked`. -/
  freeSwap : Bool
  /-- What `kmap` returns. -/
  kmap : Option Bytes
  /-- What `do_wp_page` returns. -/
  wpRet : List VmFault

/-- The globals of `memory.c`. -/
structure Memory where
  firstTime : Bool
  log : SwapLog
  store : PageStore

namespace Memory

/-- The globals at boot; `mem` is what the allocator will hand out. -/
def boot (mem : Nat → PageRecord) : Memory := ⟨true, logIN, .alloc 1000 1000 (Nat.le_refl _) mem⟩

/-- The first hook: the allocations of the first fault, and
`addInArray_IN`. The allocations succeed, and what they return is what
`boot` has. -/
def hook (m : Memory) (entry : Ulong) : Memory :=
  { m with firstTime := false, log := addInArrayIN m.log entry }

end Memory

/-- What a fault returns, and the calls it has made. -/
structure FaultEnd where
  ret : List VmFault
  calls : List FaultCall
  deriving DecidableEq, Repr

/-- `out_release:` -/
def outRelease (page : FaultPage) : List FaultCall :=
  .release page ::
    if page ≠ .cached then [.unlockPage .cached, .release .cached] else []

/-- `out_page:` -/
def outPage (page : FaultPage) : List FaultCall := .unlockPage page :: outRelease page

/-- `out_nomap:` -/
def outNomap (page : FaultPage) : List FaultCall :=
  .cancelCharge :: .pteUnlock :: outPage page

/-- From `set_pte_at` to the second hook. -/
def installCalls (f : SwapFault) (page : FaultPage) (reused : Bool) : List FaultCall :=
  [.setPteAt page reused f.softDirty, .addRmap page, .commitCharge, .swapFree] ++
    (if f.freeSwap then [.tryToFreeSwap] else []) ++ [.unlockPage page] ++
    if page ≠ .cached then [.unlockPage .cached, .release .cached] else []

/-- From `inc_mm_counter_fast` on: the page is mapped. -/
def installPage (m : Memory) (f : SwapFault) (page : FaultPage) (ret : List VmFault)
    (calls : List FaultCall) : Memory × FaultEnd :=
  let reused := f.writeFault && f.reuseSwapPage
  let ret := if reused then ret ++ [.write] else ret
  let calls := calls ++ installCalls f page reused
  let m := { m with store := m.store.fill f.entry f.kmap }
  if f.writeFault && !reused then
    let ret := ret ++ f.wpRet
    (m, ⟨if ret.any (·.isError) then ret.filter (·.isError) else ret, calls ++ [.doWpPage]⟩)
  else (m, ⟨ret, calls ++ [.updateMmuCache, .pteUnlock]⟩)

/-- The last tests of the pte; the page is charged and `ret` is what has
been returned so far. -/
def mapPage (m : Memory) (f : SwapFault) (page : FaultPage) (ret : List VmFault)
    (calls : List FaultCall) : Memory × FaultEnd :=
  if !f.pteSame then (m, ⟨ret, calls ++ outNomap page⟩)
  else if !f.pageUptodate then (m, ⟨[.sigbus], calls ++ outNomap page⟩)
  else installPage m f page ret calls

/-- From `lock_page_or_retry` on. -/
def lockedPage (m : Memory) (f : SwapFault) (ret : List VmFault) : Memory × FaultEnd :=
  if !f.locked then (m, ⟨ret ++ [.retry], outRelease .cached⟩)
  else if !f.pageSwapCache || f.pagePrivate != f.entry then
    (m, ⟨ret, .lockPage :: outPage .cached⟩)
  else
    match f.ksm with
    | none => (m, ⟨[.oom], .lockPage :: outPage .cached⟩)
    | some page =>
        if f.chargeFails then (m, ⟨[.oom], .lockPage :: outPage page⟩)
        else mapPage m f page ret [.lockPage, .tryCharge, .pteLock]

/-- `do_swap_page`. -/
def doSwapPage (m : Memory) (f : SwapFault) : Memory × FaultEnd :=
  if !f.unmapSame then (m, ⟨[], []⟩)
  else
    let m := m.hook f.entry
    if f.nonSwapEntry then
      if f.migrationEntry then (m, ⟨[], [.migrationEntryWait]⟩)
      else if f.hwpoisonEntry then (m, ⟨[.hwpoison], []⟩)
      else (m, ⟨[.sigbus], [.printBadPte]⟩)
    else if f.lookup then
      if f.pageHWPoison then (m, ⟨[.hwpoison], outRelease .cached⟩)
      else lockedPage m f []
    else if f.readahead then lockedPage m f [.major]
    else (m, ⟨if f.readaheadSame then [.oom] else [], [.pteLock, .pteUnlock]⟩)

/-! ## What a fault does to the log -/

section
variable (m : Memory) (f : SwapFault)

theorem installPage_log (page : FaultPage) (ret : List VmFault) (calls : List FaultCall) :
    (installPage m f page ret calls).1.log = m.log := by
  unfold installPage
  dsimp only
  split <;> rfl

theorem mapPage_log (page : FaultPage) (ret : List VmFault) (calls : List FaultCall) :
    (mapPage m f page ret calls).1.log = m.log := by
  unfold mapPage
  cases f.pteSame with
  | false => rfl
  | true =>
      cases f.pageUptodate with
      | false => rfl
      | true => exact installPage_log m f page ret calls

theorem lockedPage_log (ret : List VmFault) : (lockedPage m f ret).1.log = m.log := by
  unfold lockedPage
  split
  · rfl
  · split
    · rfl
    · split
      · rfl
      · split
        · rfl
        · exact mapPage_log m f _ _ _

/-- **Every fault whose pte is unchanged is recorded**, whatever becomes
of it. -/
theorem doSwapPage_log :
    (doSwapPage m f).1.log = if f.unmapSame then Memory.addInArrayIN m.log f.entry else m.log := by
  unfold doSwapPage
  cases f.unmapSame with
  | false => rfl
  | true =>
      cases f.nonSwapEntry with
      | true =>
          cases f.migrationEntry with
          | true => rfl
          | false => cases f.hwpoisonEntry <;> rfl
      | false =>
          cases f.lookup with
          | true =>
              cases f.pageHWPoison with
              | true => rfl
              | false => exact lockedPage_log _ f _
          | false =>
              cases f.readahead with
              | true => exact lockedPage_log _ f _
              | false => rfl

/-! ## When a pte is installed -/

/-- The call of `set_pte_at`. -/
def FaultCall.isSetPte : FaultCall → Bool
  | .setPteAt .. => true
  | _ => false

/-- The fault has installed a pte. -/
def FaultEnd.installed (e : FaultEnd) : Bool := e.calls.any (·.isSetPte)

/-- The page is mapped in the end. -/
def SwapFault.maps (f : SwapFault) : Bool :=
  f.locked && f.pageSwapCache && f.pagePrivate == f.entry && f.ksm.isSome && !f.chargeFails &&
    f.pteSame && f.pageUptodate

/-- The answers with which a fault runs to `set_pte_at`. -/
def SwapFault.completes (f : SwapFault) : Bool :=
  f.unmapSame && !f.nonSwapEntry && (if f.lookup then !f.pageHWPoison else f.readahead) && f.maps

theorem SwapFault.completes_same {f : SwapFault} (h : f.completes = true) : f.unmapSame = true := by
  unfold SwapFault.completes at h
  simp only [Bool.and_eq_true] at h
  exact h.1.1.1

theorem installPage_installed (page : FaultPage) (ret : List VmFault) (calls : List FaultCall) :
    (installPage m f page ret calls).2.installed = true := by
  have hinstall : ∀ reused, (installCalls f page reused).any (·.isSetPte) = true := fun _ => rfl
  unfold installPage FaultEnd.installed
  dsimp only
  split <;> rw [List.any_append, List.any_append, hinstall, Bool.or_true, Bool.true_or]

theorem mapPage_installed (page : FaultPage) (ret : List VmFault) {calls : List FaultCall}
    (hcalls : calls.any (·.isSetPte) = false) :
    (mapPage m f page ret calls).2.installed = (f.pteSame && f.pageUptodate) := by
  have hnomap : (calls ++ outNomap page).any (·.isSetPte) = false := by
    rw [List.any_append, hcalls]
    cases page <;> rfl
  unfold mapPage
  cases f.pteSame with
  | false => exact hnomap
  | true =>
      cases f.pageUptodate with
      | false => exact hnomap
      | true => exact installPage_installed m f page ret calls

theorem lockedPage_installed (ret : List VmFault) :
    (lockedPage m f ret).2.installed = f.maps := by
  unfold lockedPage SwapFault.maps bne
  cases f.locked with
  | false => rfl
  | true =>
      cases f.pageSwapCache with
      | false => rfl
      | true =>
          cases f.pagePrivate == f.entry with
          | false => rfl
          | true =>
              cases f.ksm with
              | none => rfl
              | some page =>
                  cases f.chargeFails with
                  | true => cases page <;> rfl
                  | false => exact mapPage_installed m f page ret rfl

/-- **A fault installs a pte exactly when every test on its way is
passed.** -/
theorem doSwapPage_installed : (doSwapPage m f).2.installed = f.completes := by
  unfold doSwapPage SwapFault.completes
  cases f.unmapSame with
  | false => rfl
  | true =>
      cases f.nonSwapEntry with
      | true =>
          cases f.migrationEntry with
          | true => rfl
          | false => cases f.hwpoisonEntry <;> rfl
      | false =>
          cases f.lookup with
          | true =>
              cases f.pageHWPoison with
              | true => rfl
              | false => exact lockedPage_installed _ f _
          | false =>
              cases f.readahead with
              | true => exact lockedPage_installed _ f _
              | false => rfl

/-! ## What a fault does to the store -/

theorem installPage_store (page : FaultPage) (ret : List VmFault) (calls : List FaultCall) :
    (installPage m f page ret calls).1.store = m.store.fill f.entry f.kmap := by
  unfold installPage
  dsimp only
  split <;> rfl

theorem mapPage_store (page : FaultPage) (ret : List VmFault) (calls : List FaultCall) :
    (mapPage m f page ret calls).1.store =
      if f.pteSame && f.pageUptodate then m.store.fill f.entry f.kmap else m.store := by
  unfold mapPage
  cases f.pteSame with
  | false => rfl
  | true =>
      cases f.pageUptodate with
      | false => rfl
      | true => exact installPage_store m f page ret calls

theorem lockedPage_store (ret : List VmFault) :
    (lockedPage m f ret).1.store =
      if f.maps then m.store.fill f.entry f.kmap else m.store := by
  unfold lockedPage SwapFault.maps bne
  cases f.locked with
  | false => rfl
  | true =>
      cases f.pageSwapCache with
      | false => rfl
      | true =>
          cases f.pagePrivate == f.entry with
          | false => rfl
          | true =>
              cases f.ksm with
              | none => rfl
              | some page =>
                  cases f.chargeFails with
                  | true => rfl
                  | false => exact mapPage_store m f page ret _

/-- **The page is copied for the faults that install a pte**, unlike the
entry in the log. -/
theorem doSwapPage_store :
    (doSwapPage m f).1.store =
      if f.completes then m.store.fill f.entry f.kmap else m.store := by
  unfold doSwapPage SwapFault.completes
  cases f.unmapSame with
  | false => rfl
  | true =>
      cases f.nonSwapEntry with
      | true =>
          cases f.migrationEntry with
          | true => rfl
          | false => cases f.hwpoisonEntry <;> rfl
      | false =>
          cases f.lookup with
          | true =>
              cases f.pageHWPoison with
              | true => rfl
              | false => exact lockedPage_store _ f _
          | false =>
              cases f.readahead with
              | true => exact lockedPage_store _ f _
              | false => rfl

end

end MegaVM
