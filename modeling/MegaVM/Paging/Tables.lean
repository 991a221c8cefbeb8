import MegaVM.SwapLog.Recorder
import MegaVM.Paging.Gather
import Mathlib.Logic.Function.Basic

/-!
# Page tables, their pages and the counters

The state that `copy_page_range` and `zap_page_range` of `memory.c` work
on: the last level of every page table, the counters in `struct page` and
in the swap map, the RSS counters, the TLBs, and what each thread is in the
middle of. An address is the number of its page below `TASK_SIZE`; a place
is an address of an address space.
-/

namespace MegaVM

namespace Vm

/-- `swp_entry_t`; 0 is no entry. -/
abbrev SwpEntry := Ulong

/-- The bits of a present entry. -/
structure PteBits where
  write : Bool := false
  dirty : Bool := false
  young : Bool := false
  deriving DecidableEq, Repr

/-- What `vm_normal_page` finds behind a present entry, where there is a
`pte_special` and no `find_special_page`. A forked area has the flags of its
parent, so a copy of the entry has the same behind it. -/
inductive Backing
  /-- The page with the number. -/
  | page
  /-- No page: the entry is special, and has the zero page or is in a
  `VM_PFNMAP` or `VM_MIXEDMAP` area. -/
  | special
  /-- No page, and a `print_bad_pte`: the entry is special elsewhere, or its
  number is above `highest_memmap_pfn`. -/
  | bad
  deriving DecidableEq, Repr

/-- `pte_t`: `pte_none`, `pte_present`, a swap entry, a migration entry. -/
inductive Pte
  | none
  | present (pfn : PageId) (backing : Backing) (bits : PteBits)
  | swap (entry : SwpEntry)
  | migration (page : PageId) (write : Bool)
  deriving DecidableEq, Repr

/-- `struct vm_area_struct`: `VM_SHARED` and `VM_MAYWRITE`. -/
structure Vma where
  shared : Bool
  mayWrite : Bool
  deriving DecidableEq

/-- `is_cow_mapping`. -/
def Vma.isCow (v : Vma) : Bool := !v.shared && v.mayWrite

/-- `MM_FILEPAGES`, `MM_ANONPAGES`, `MM_SWAPENTS`. -/
inductive RssKind
  | file | anon | swapents
  deriving DecidableEq, Repr

/-- `vm_normal_page`, and whether it calls `print_bad_pte`. -/
def Pte.normalPage : Pte → Option PageId
  | .present pfn .page _ => some pfn
  | _ => Option.none

def Pte.reported : Pte → Bool
  | .present _ .bad _ => true
  | _ => false

/-! ## What a thread is in the middle of -/

variable (M : Type) (lim : Nat)

/-- An address of an address space. -/
abbrev Place := M × Fin lim

/-- The rest of a range of addresses. -/
structure Walk where
  addr : Nat
  stop : Nat
  addr_le : addr ≤ stop
  stop_le : stop ≤ lim

variable {lim}

/-- The address the loop is at. -/
def Walk.here (w : Walk lim) (h : w.addr < w.stop) : Fin lim :=
  ⟨w.addr, lt_of_lt_of_le h w.stop_le⟩

/-- `addr += PAGE_SIZE`. -/
def Walk.next (w : Walk lim) (h : w.addr < w.stop) : Walk lim :=
  { w with addr := w.addr + 1, addr_le := h }

variable (lim)

/-- `copy_pte_range`, between two entries; `left` is set behind the loop. -/
structure CopyRun where
  src : M
  dst : M
  walk : Walk lim
  progress : Nat := 0
  rss : RssKind → Int := fun _ => 0
  entry : SwpEntry := 0
  left : Bool := false

/-- Where a thread is in `zap_pte_range`: in the loop, behind it with the
lock, or without it. -/
inductive ZapPc
  | loop | left | unlocked
  deriving DecidableEq, Repr

/-- `zap_pte_range`, between two entries. `details` is set where there is a
`check_mapping`. -/
structure ZapRun where
  walk : Walk lim
  details : Bool
  force : Bool := false
  rss : RssKind → Int := fun _ => 0
  pc : ZapPc := .loop

/-- The function a thread is in. -/
inductive Job
  | idle
  | copying (run : CopyRun M lim)
  /-- Between `tlb_gather_mmu` and `tlb_finish_mmu`. -/
  | zapping (g : MmuGather M) (run : Option (ZapRun lim))
  /-- In `tlb_flush_mmu_free` of `tlb_finish_mmu`. -/
  | finishing (g : MmuGather M)

variable {M lim}

/-- The pages the function has references to. -/
def Job.refs : Job M lim → List PageId
  | .idle | .copying _ => []
  | .zapping g _ | .finishing g => g.pages

/-- The thread copies page tables from or to the address space. -/
def Job.copies [DecidableEq M] (m : M) : Job M lim → Bool
  | .copying run => run.src = m ∨ run.dst = m
  | _ => false

/-- A thread, with `current->mm` and `current->rss_stat`. -/
structure Task (M : Type) (lim : Nat) where
  mm : M
  rssStat : RssKind → Int := fun _ => 0
  job : Job M lim := .idle

end Vm

open Vm in
/-- The state. -/
structure Vm (M T : Type) (lim : Nat) where
  pte : Place M lim → Pte
  vma : Place M lim → Vma
  /-- The pages the TLBs have for a place. -/
  tlb : Place M lim → List PageId
  /-- `_count`, and `_mapcount` from 0. -/
  count : PageId → Int
  mapcount : PageId → Int
  /-- `PageAnon` and `PageDirty`. -/
  anon : PageId → Bool
  dirty : PageId → Bool
  /-- `PageSwapCache` with `page_private`. -/
  swapOf : PageId → Option SwpEntry
  /-- The references of everybody else. -/
  others : PageId → Nat
  /-- `swap_map` without `SWAP_HAS_CACHE`, and the swap cache. -/
  swapCount : SwpEntry → Int
  cache : SwpEntry → Option PageId
  rss : M → RssKind → Int
  tasks : T → Task M lim
  /-- A `VM_BUG_ON` or a `print_bad_pte` has fired. -/
  bug : Bool

namespace Vm

open Function

variable {M T : Type} {lim : Nat} [DecidableEq M] [DecidableEq T]

/-! ## Small changes -/

def setPte (s : Vm M T lim) (i : Place M lim) (x : Pte) : Vm M T lim :=
  { s with pte := update s.pte i x }

def addCount (s : Vm M T lim) (p : PageId) (k : Int) : Vm M T lim :=
  { s with count := update s.count p (s.count p + k) }

def addMapcount (s : Vm M T lim) (p : PageId) (k : Int) : Vm M T lim :=
  { s with mapcount := update s.mapcount p (s.mapcount p + k) }

def addSwapCount (s : Vm M T lim) (e : SwpEntry) (k : Int) : Vm M T lim :=
  { s with swapCount := update s.swapCount e (s.swapCount e + k) }

def setDirty (s : Vm M T lim) (p : PageId) : Vm M T lim :=
  { s with dirty := update s.dirty p true }

def setJob (s : Vm M T lim) (t : T) (job : Job M lim) : Vm M T lim :=
  { s with tasks := update s.tasks t { s.tasks t with job } }

def bugOn (s : Vm M T lim) (b : Bool) : Vm M T lim := { s with bug := s.bug || b }

/-- `get_page` and `page_cache_release`. -/
def getPage (s : Vm M T lim) (p : PageId) : Vm M T lim := s.addCount p 1

def putPage (s : Vm M T lim) (p : PageId) : Vm M T lim := s.addCount p (-1)

/-- `sync_mm_rss` of `current->mm`. -/
def syncMmRss (s : Vm M T lim) (t : T) : Vm M T lim :=
  { s with
    rss := update s.rss (s.tasks t).mm fun kind =>
      s.rss (s.tasks t).mm kind + (s.tasks t).rssStat kind
    tasks := update s.tasks t { s.tasks t with rssStat := fun _ => 0 } }

/-- `add_mm_counter` for every kind. -/
def addMmCounters (s : Vm M T lim) (m : M) (rss : RssKind → Int) : Vm M T lim :=
  { s with rss := update s.rss m fun kind => s.rss m kind + rss kind }

/-- `add_mm_rss_vec`, by the thread. -/
def addMmRssVec (s : Vm M T lim) (t : T) (m : M) (rss : RssKind → Int) : Vm M T lim :=
  (if (s.tasks t).mm = m then s.syncMmRss t else s).addMmCounters m rss

/-- The counter a page is in. -/
def rssKind (s : Vm M T lim) (p : PageId) : RssKind := if s.anon p then .anon else .file

/-- `page_remove_rmap`, and the check behind it. -/
def pageRemoveRmap (s : Vm M T lim) (p : PageId) : Vm M T lim :=
  (s.addMapcount p (-1)).bugOn (s.mapcount p - 1 < 0)

/-- The swap cache lets go of the page, where nothing else has the entry any
more. -/
def freeSwapCache (s : Vm M T lim) (p : PageId) (e : SwpEntry) : Vm M T lim :=
  { s.addCount p (-1) with
    cache := update s.cache e none
    swapOf := update s.swapOf p none
    dirty := update s.dirty p true }

end Vm

end MegaVM
