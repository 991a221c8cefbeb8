import MegaVM.Paging.Tables
import MegaVM.Lib.Runs
import Mathlib.Data.Fintype.Basic

/-!
# Copying and zapping page tables

Any number of threads run `copy_pte_range` from one address space to
another, and `zap_pte_range` between `tlb_gather_mmu` and `tlb_finish_mmu`,
while the processors use the entries and fill their TLBs from them, and the
others take and drop references. A step of a loop is one entry, so the page
table locks, which keep the others out for longer, only forbid runs the
machine has.
-/

namespace MegaVM

namespace Vm

open Function

variable {M T : Type} {lim : Nat} [DecidableEq M] [DecidableEq T]

/-! ## `copy_pte_range` -/

/-- `pte_wrprotect`. -/
def PteBits.wrprotect (bits : PteBits) : PteBits := { bits with write := false }

/-- `pte_wrprotect` of a COW mapping, `pte_mkclean` of a shared one, and
`pte_mkold`. -/
def PteBits.copied (v : Vma) (bits : PteBits) : PteBits :=
  { write := bits.write && !v.isCow, dirty := bits.dirty && !v.shared, young := false }

/-- `rss[kind]++` and `rss[kind]--`. -/
def addKind (rss : RssKind → Int) (kind : RssKind) (k : Int) : RssKind → Int :=
  update rss kind (rss kind + k)

/-- `copy_one_pte`, with the counters of `rss`; where `swap_duplicate` fails
it returns the entry. -/
def copyOnePte (s : Vm M T lim) (src dst : Place M lim) (rss : RssKind → Int) (dupFails : Bool) :
    SwpEntry × Vm M T lim × (RssKind → Int) :=
  match s.pte src with
  | .none => (0, s, rss)
  | .swap e =>
      if dupFails then (e, s, rss)
      else (0, (s.addSwapCount e 1).setPte dst (.swap e), addKind rss .swapents 1)
  | .migration p write =>
      let rss := addKind rss (s.rssKind p) 1
      if write && (s.vma src).isCow then
        (0, (s.setPte src (.migration p false)).setPte dst (.migration p false), rss)
      else (0, s.setPte dst (.migration p write), rss)
  | .present pfn backing bits =>
      let s :=
        if (s.vma src).isCow then s.setPte src (.present pfn backing bits.wrprotect) else s
      let entry := Pte.present pfn backing (bits.copied (s.vma src))
      let s := s.bugOn entry.reported
      match entry.normalPage with
      | none => (0, s.setPte dst entry, rss)
      | some p =>
          (0, ((s.getPage p).addMapcount p 1).setPte dst entry, addKind rss (s.rssKind p) 1)

/-- One turn of the loop, or what is behind it. `resched` is the answer of
`need_resched` and `spin_needbreak`, `contFails` that of
`add_swap_count_continuation`. -/
def copyPteRange (s : Vm M T lim) (t : T) (run : CopyRun M lim)
    (resched dupFails contFails : Bool) : Vm M T lim :=
  if run.left then
    let s := s.addMmRssVec t run.dst run.rss
    if run.entry ≠ 0 ∧ contFails then s.setJob t .idle
    else if run.walk.addr = run.walk.stop then s.setJob t .idle
    else
      s.setJob t (.copying { run with
        rss := fun _ => 0
        progress := if run.entry ≠ 0 then 0 else run.progress
        left := false })
  else if h : run.walk.addr < run.walk.stop then
    if 32 ≤ run.progress ∧ resched then
      s.setJob t (.copying { run with progress := 0, left := true })
    else
      let progress := if 32 ≤ run.progress then 0 else run.progress
      let src := (run.src, run.walk.here h)
      let dst := (run.dst, run.walk.here h)
      if s.pte src = .none then
        s.setJob t (.copying { run with progress := progress + 1, walk := run.walk.next h })
      else
        let (entry, s, rss) := s.copyOnePte src dst run.rss dupFails
        if entry ≠ 0 then s.setJob t (.copying { run with progress, entry, rss, left := true })
        else
          s.setJob t (.copying { run with
            progress := progress + 8, entry, rss, walk := run.walk.next h })
  else s.setJob t (.copying { run with left := true })

/-! ## `zap_pte_range` -/

/-- `tlb_flush`: the range of the gather, or the whole address space. -/
def tlbFlush (s : Vm M T lim) (g : MmuGather M) : Vm M T lim :=
  { s with tlb := fun i => if i.1 = g.mm ∧ g.Covers i.2 then [] else s.tlb i }

/-- `tlb_flush_mmu_tlbonly`. -/
def tlbFlushMmuTlbonly (s : Vm M T lim) (g : MmuGather M) : Vm M T lim × MmuGather M :=
  if g.stop = 0 then (s, g) else (s.tlbFlush g, g.resetRange lim)

/-- `free_pages_and_swap_cache` on one page: the swap cache lets go of it, or
does not. -/
def freeSwapCopy (frees : PageId → Bool) (s : Vm M T lim) (p : PageId) : Vm M T lim :=
  match frees p, s.swapOf p with
  | true, some e => s.freeSwapCache p e
  | _, _ => s

/-- `free_pages_and_swap_cache`: the copies in the swap cache, then the
references of the batches. -/
def freePages (s : Vm M T lim) (frees : PageId → Bool) (pages : List PageId) : Vm M T lim :=
  pages.foldl putPage (pages.foldl (freeSwapCopy frees) s)

/-- The loop on an entry that maps a page: `page_remove_rmap`, and
`__tlb_remove_page`; without a slot left the loop is left. -/
def zapPage (sizes : GatherSizes) (s : Vm M T lim) (t : T) (g : MmuGather M) (run : ZapRun lim)
    (h : run.walk.addr < run.walk.stop) (p : PageId) (dirty batchPage : Bool) : Vm M T lim :=
  let flush := dirty && !s.anon p
  let s' := ((s.setPte (g.mm, run.walk.here h) .none).pageRemoveRmap p).bugOn
    ((g.adjustRange run.walk.addr).stop = 0)
  let r := (g.adjustRange run.walk.addr).removePage sizes p batchPage
  let s' := s'.bugOn (r.1.active.max < r.1.active.pages.length)
  let s' := if flush then s'.setDirty p else s'
  s'.setJob t (.zapping r.1 (some { run with
    walk := run.walk.next h
    rss := addKind run.rss (s.rssKind p) (-1)
    force := run.force || flush || r.2 = 0
    pc := if r.2 = 0 then .left else .loop }))

/-- `free_swap_and_cache` of a swap entry, and whether it was in use; one that
was not is left alone. `frees` is whether the copy in the swap cache is
freed. -/
def freeSwapAndCache (s : Vm M T lim) (e : SwpEntry) (frees : Bool) : Bool × Vm M T lim :=
  if s.swapCount e ≤ 0 then (false, s)
  else
    let s := s.addSwapCount e (-1)
    match frees, s.cache e with
    | true, some p => (true, if s.swapOf p = some e then s.freeSwapCache p e else s)
    | _, _ => (true, s)

/-- The loop on one entry. `otherMapping` compares with `check_mapping`,
`batchPage` is whether there is a page for a batch, `freesSwap` is for
`free_swap_and_cache`, which never fails for a migration entry. -/
def zapOne (sizes : GatherSizes) (s : Vm M T lim) (t : T) (g : MmuGather M) (run : ZapRun lim)
    (h : run.walk.addr < run.walk.stop) (otherMapping batchPage freesSwap : Bool) : Vm M T lim :=
  let i := (g.mm, run.walk.here h)
  let next := { run with walk := run.walk.next h }
  match s.pte i with
  | .none => s.setJob t (.zapping g (some next))
  | .present p .page bits =>
      if run.details ∧ otherMapping then s.setJob t (.zapping g (some next))
      else s.zapPage sizes t g run h p bits.dirty batchPage
  | .present _ backing _ =>
      ((s.bugOn (backing = .bad)).setPte i .none).setJob t
        (.zapping (g.adjustRange run.walk.addr) (some next))
  | .swap e =>
      if run.details then s.setJob t (.zapping g (some next))
      else
        let r := s.freeSwapAndCache e freesSwap
        ((r.2.bugOn !r.1).setPte i .none).setJob t
          (.zapping g (some { next with rss := addKind run.rss .swapents (-1) }))
  | .migration p _ =>
      if run.details then s.setJob t (.zapping g (some next))
      else
        (s.setPte i .none).setJob t
          (.zapping g (some { next with rss := addKind run.rss (s.rssKind p) (-1) }))

/-- `zap_pte_range`: an entry, or the flush under the lock, or the rest. -/
def zapPteRange (sizes : GatherSizes) (s : Vm M T lim) (t : T) (g : MmuGather M)
    (run : ZapRun lim) (otherMapping batchPage freesSwap : Bool) (frees : PageId → Bool) :
    Vm M T lim :=
  match run.pc with
  | .loop =>
      if h : run.walk.addr < run.walk.stop then
        s.zapOne sizes t g run h otherMapping batchPage freesSwap
      else s.setJob t (.zapping g (some { run with pc := .left }))
  | .left =>
      let s := s.addMmRssVec t g.mm run.rss
      let run := { run with rss := fun _ => 0, pc := .unlocked }
      if run.force then
        let r := s.tlbFlushMmuTlbonly g
        r.1.setJob t (.zapping r.2 (some run))
      else s.setJob t (.zapping g (some run))
  | .unlocked =>
      if run.force then
        let again :=
          if run.walk.addr = run.walk.stop then none
          else some { run with force := false, pc := .loop }
        (s.freePages frees g.flushFree.1).setJob t (.zapping g.flushFree.2 again)
      else s.setJob t (.zapping g none)

/-- `tlb_finish_mmu`, up to the pages and with them. -/
def tlbFinishMmu (s : Vm M T lim) (t : T) (frees : PageId → Bool) : Option (Vm M T lim) :=
  match (s.tasks t).job with
  | .zapping g none =>
      let r := s.tlbFlushMmuTlbonly g
      some (r.1.setJob t (.finishing r.2))
  | .finishing g => some ((s.freePages frees g.flushFree.1).setJob t .idle)
  | _ => none

/-! ## The steps -/

inductive VmLabel (M T : Type) (lim : Nat)
  /-- A processor reads or writes the page of a place, or has the entry in a
  TLB. -/
  | access (i : Place M lim) (write : Bool)
  | tlbFill (i : Place M lim)
  | copy (t : T) (src dst : M) (walk : Walk lim)
  | copyTurn (t : T) (resched dupFails contFails : Bool)
  | gather (t : T) (mm : M) (fullmm : Bool)
  | zap (t : T) (walk : Walk lim) (details : Bool)
  | zapTurn (t : T) (otherMapping batchPage freesSwap : Bool) (frees : PageId → Bool)
  | finish (t : T) (frees : PageId → Bool)
  | get (p : PageId)
  | put (p : PageId)
  | sync (t : T)

variable [Fintype T]

/-- No page table is copied from or to the address space: `mmap_sem` can be
taken for writing. -/
def Unused (s : Vm M T lim) (m : M) : Prop := ∀ t, (s.tasks t).job.copies m = false

instance (s : Vm M T lim) (m : M) : Decidable (s.Unused m) :=
  inferInstanceAs (Decidable (∀ _, _ = _))

variable (sizes : GatherSizes)

def step (s : Vm M T lim) : VmLabel M T lim → Option (Vm M T lim)
  | .access i write =>
      match s.pte i with
      | .present pfn backing bits =>
          if write && !bits.write then none
          else
            some (s.setPte i (.present pfn backing
              { bits with young := true, dirty := bits.dirty || write }))
      | _ => none
  | .tlbFill i =>
      match (s.pte i).normalPage with
      | some p => some { s with tlb := update s.tlb i (p :: s.tlb i) }
      | none => none
  | .copy t src dst walk =>
      match (s.tasks t).job with
      | .idle =>
          -- the range of the child is empty, and nobody else is at it
          if src ≠ dst ∧ s.Unused src ∧ s.Unused dst ∧ walk.addr < walk.stop ∧
              ∀ a : Fin lim, walk.addr ≤ a ∧ a < walk.stop → s.pte (dst, a) = .none then
            some (s.setJob t (.copying { src, dst, walk }))
          else none
      | _ => none
  | .copyTurn t resched dupFails contFails =>
      match (s.tasks t).job with
      | .copying run => some (s.copyPteRange t run resched dupFails contFails)
      | _ => none
  | .gather t mm fullmm =>
      match (s.tasks t).job with
      | .idle => some (s.setJob t (.zapping (.gather sizes lim mm fullmm) none))
      | _ => none
  | .zap t walk details =>
      match (s.tasks t).job with
      | .zapping g none => some (s.setJob t (.zapping g (some { walk, details })))
      | _ => none
  | .zapTurn t otherMapping batchPage freesSwap frees =>
      match (s.tasks t).job with
      | .zapping g (some run) =>
          some (s.zapPteRange sizes t g run otherMapping batchPage freesSwap frees)
      | _ => none
  | .finish t frees => s.tlbFinishMmu t frees
  | .get p =>
      if 0 < s.count p then
        some { s.getPage p with others := update s.others p (s.others p + 1) }
      else none
  | .put p =>
      if 0 < s.others p then
        some { s.putPage p with others := update s.others p (s.others p - 1) }
      else none
  | .sync t => some (s.syncMmRss t)

end Vm

end MegaVM
