import MegaVM.SwapLog.SwapOut
import MegaVM.Lib.Tally
import Mathlib.Data.Fintype.Basic

/-!
# The LRU lists of a zone under reclaim

Any number of threads run `shrink_inactive_list`, `shrink_active_list`,
and `isolate_lru_page` with `putback_lru_page`, on one zone. A step is one
turn of one of their loops on one page, so `lru_lock`, which keeps the
others out for longer, only forbids runs the machine has. Everybody else
takes and drops references, adds pages to the page cache and to pagevecs,
and frees pages.

Of `struct page` the machine has `_count`, the flags the lists depend on,
and whether the page has a mapping, which holds one reference; of the
others it has the number of their references.
-/

namespace MegaVM

/-- `enum lru_list`; `is_file_lru` and `is_active_lru` are the arguments. -/
inductive LruList
  | evictable (file active : Bool)
  | unevictable
  deriving DecidableEq, Repr

/-- The flags of a page. -/
structure PageFlags where
  /-- `PageLRU`, `PageActive`, `PageUnevictable`. -/
  lru : Bool := false
  active : Bool := false
  unevictable : Bool := false
  /-- `page_is_file_cache`. -/
  file : Bool := false
  /-- `PageTransHuge` and `PageCompound`. -/
  huge : Bool := false
  compound : Bool := false
  deriving DecidableEq, Repr

/-- `page_lru`. -/
def PageFlags.pageLru (f : PageFlags) : LruList :=
  if f.unevictable then .unevictable else .evictable f.file f.active

/-- `hpage_nr_pages`; the large number is `HPAGE_PMD_NR`. -/
def PageFlags.hpageNrPages (f : PageFlags) : Nat := if f.huge then 512 else 1

namespace PageFlags

/-- `SetPageLRU`, `ClearPageLRU`, `SetPageActive` and so on. -/
def setLRU (f : PageFlags) : PageFlags := { f with lru := true }
def clearLRU (f : PageFlags) : PageFlags := { f with lru := false }
def setActive (f : PageFlags) : PageFlags := { f with active := true }
def clearActive (f : PageFlags) : PageFlags := { f with active := false }
def setUnevictable (f : PageFlags) : PageFlags := { f with unevictable := true }
def clearUnevictable (f : PageFlags) : PageFlags := { f with unevictable := false }

variable (f : PageFlags)

@[simp] theorem setLRU_lru : f.setLRU.lru = true := rfl
@[simp] theorem setLRU_pageLru : f.setLRU.pageLru = f.pageLru := rfl
@[simp] theorem setLRU_huge : f.setLRU.huge = f.huge := rfl
@[simp] theorem clearLRU_lru : f.clearLRU.lru = false := rfl
@[simp] theorem clearLRU_pageLru : f.clearLRU.pageLru = f.pageLru := rfl
@[simp] theorem clearLRU_huge : f.clearLRU.huge = f.huge := rfl
@[simp] theorem setActive_lru : f.setActive.lru = f.lru := rfl
@[simp] theorem setActive_huge : f.setActive.huge = f.huge := rfl
@[simp] theorem clearActive_lru : f.clearActive.lru = f.lru := rfl
@[simp] theorem clearActive_huge : f.clearActive.huge = f.huge := rfl

theorem pageLru_eq_evictable {file active : Bool} :
    f.pageLru = .evictable file active
      ↔ f.unevictable = false ∧ f.file = file ∧ f.active = active := by
  rw [pageLru]
  cases f.unevictable <;> simp

end PageFlags

theorem PageFlags.hpageNrPages_pos (f : PageFlags) : 0 < f.hpageNrPages := by
  unfold hpageNrPages
  split <;> decide

/-! ## `__isolate_lru_page` -/

/-- `isolate_mode_t`. -/
structure IsolateMode where
  clean : Bool
  unmapped : Bool
  asyncMigrate : Bool
  unevictable : Bool

/-- The mode `shrink_inactive_list` and `shrink_active_list` make up. -/
def ScanControl.isolateMode (sc : ScanControl) : IsolateMode :=
  ⟨!sc.mayWritepage, !sc.mayUnmap, false, false⟩

/-- What else is asked about the page. -/
structure IsolateTry where
  writeback : Bool
  dirty : Bool
  /-- `page_mapping`, and its `migratepage`. -/
  mapping : Bool
  migratepage : Bool
  mapped : Bool

/-- What `__isolate_lru_page` returns. -/
inductive IsolateRet
  | ok | einval | ebusy
  deriving DecidableEq, Repr

/-- `__isolate_lru_page`: its tests. The page is taken when it returns 0. -/
def isolateTest (f : PageFlags) (count : Nat) (mode : IsolateMode) (t : IsolateTry) :
    IsolateRet :=
  if !f.lru then .einval
  else if f.unevictable && !mode.unevictable then .einval
  else if (mode.clean || mode.asyncMigrate) && t.writeback then .ebusy
  else if (mode.clean || mode.asyncMigrate) && t.dirty &&
      (mode.clean || (t.mapping && !t.migratepage)) then .ebusy
  else if mode.unmapped && t.mapped then .ebusy
  -- get_page_unless_zero
  else if count = 0 then .ebusy
  else .ok

/-! ## The threads -/

/-- `isolate_lru_pages` between two turns. -/
structure Isolation where
  active : Bool
  file : Bool
  sc : ScanControl
  nrToScan : Nat
  scan : Nat := 0
  nrTaken : Nat := 0
  /-- `dst` from its tail. -/
  dst : List PageId := []

/-- The loop a thread is in. The lists are from their tails, where the
loops take the pages, but for `toFree`. -/
inductive Job
  | idle
  /-- `isolate_lru_page` has returned 0 for the page. -/
  | holding (page : PageId)
  | isolating (i : Isolation)
  /-- In `shrink_page_list`. -/
  | shrinking (file : Bool) (nrTaken : Nat) (sc : ScanControl) (run : ShrinkRun)
  /-- In `putback_inactive_pages`. -/
  | puttingBack (file : Bool) (nrTaken : Nat) (pages toFree : List PageId)
  /-- In `shrink_active_list`, with `l_hold`, `l_active`, `l_inactive`. -/
  | sorting (file : Bool) (nrTaken nrRotated : Nat) (hold act inact : List PageId)
  /-- In `move_active_pages_to_lru`; `next` is the list of the second call. -/
  | moving (file : Bool) (nrTaken : Nat) (active : Bool) (pgmoved : Nat)
      (list next toFree : List PageId)
  /-- In front of the last `free_hot_cold_page_list`. -/
  | releasing (toFree : List PageId)

/-- Where a thread is in `putback_lru_page`. -/
inductive PutbackPc
  | redo
  /-- After `add_page_to_unevictable_list`. -/
  | recheck
  /-- In front of the last `put_page`. -/
  | drop
  deriving DecidableEq, Repr

/-- A thread: its loop, and the page it has called `putback_lru_page` for. -/
structure Reclaimer where
  job : Job := .idle
  putback : Option (PageId × PutbackPc) := none

/-- The pages that are on lists of the thread and on no other. -/
def Job.own : Job → List PageId
  | .idle | .releasing _ => []
  | .holding page => [page]
  | .isolating i => i.dst
  | .shrinking _ _ _ run => run.pageList ++ run.retPages
  | .puttingBack _ _ pages _ => pages
  | .sorting _ _ _ hold act inact => hold ++ act ++ inact
  | .moving _ _ _ _ list next _ => list ++ next

/-- The pages without a reference that the thread is about to free. -/
def Job.dead : Job → List PageId
  | .shrinking _ _ _ run => run.freePages
  | .puttingBack _ _ _ toFree | .moving _ _ _ _ _ _ toFree | .releasing toFree => toFree
  | _ => []

def Reclaimer.own (t : Reclaimer) : List PageId :=
  match t.putback with
  | some (page, .redo) => page :: t.job.own
  | _ => t.job.own

/-- The pages the thread has a reference to. -/
def Reclaimer.refs (t : Reclaimer) : List PageId :=
  match t.putback with
  | some (page, _) => page :: t.job.own
  | none => t.job.own

section
variable (job : Job) (page : PageId)

@[simp] theorem Reclaimer.own_none : (Reclaimer.mk job none).own = job.own := rfl
@[simp] theorem Reclaimer.own_redo :
    (Reclaimer.mk job (some (page, .redo))).own = page :: job.own := rfl
@[simp] theorem Reclaimer.own_recheck :
    (Reclaimer.mk job (some (page, .recheck))).own = job.own := rfl
@[simp] theorem Reclaimer.own_drop : (Reclaimer.mk job (some (page, .drop))).own = job.own := rfl
@[simp] theorem Reclaimer.refs_none : (Reclaimer.mk job none).refs = job.own := rfl
@[simp] theorem Reclaimer.refs_some (pc : PutbackPc) :
    (Reclaimer.mk job (some (page, pc))).refs = page :: job.own := rfl

end

/-- What the thread has in `NR_ISOLATED_ANON + file`. -/
def Job.isolated (file : Bool) : Job → Nat
  | .shrinking f nrTaken _ _ | .puttingBack f nrTaken _ _ | .sorting f nrTaken _ _ _ _ |
    .moving f nrTaken _ _ _ _ _ => if f = file then nrTaken else 0
  | _ => 0

/-- What `NR_LRU_BASE + lru` has too much until the thread has come to the
end of its loop. -/
def Job.uncounted (lru : LruList) : Job → Int
  | .isolating i => if .evictable i.file i.active = lru then i.nrTaken else 0
  | .moving file _ active pgmoved _ _ _ =>
      if .evictable file active = lru then -(pgmoved : Int) else 0
  | _ => 0

/-! ## The zone -/

/-- The zone, its pages and the threads. -/
structure Zone (R : Type) where
  flags : PageId → PageFlags
  /-- `_count`. -/
  count : PageId → Nat
  /-- The page has a mapping. -/
  cached : PageId → Bool
  /-- The references of the others, who drop no more than these. -/
  others : PageId → Nat
  /-- `lruvec->lists` from their tails. -/
  lists : LruList → List PageId
  /-- `NR_LRU_BASE + lru` and `NR_ISOLATED_ANON + file`. -/
  nrLru : LruList → Int
  nrIsolated : Bool → Int
  /-- `reclaim_stat`. -/
  recentScanned : Bool → Nat
  recentRotated : Bool → Nat
  /-- The pages in the pagevecs of `lru_cache_add`. -/
  pagevec : List PageId
  /-- The pages whose last reference somebody else has dropped. -/
  dying : List PageId
  /-- The pages the allocator has. -/
  free : List PageId
  /-- The globals of the hook. -/
  reclaim : Reclaim
  threads : R → Reclaimer
  /-- A `BUG` or a `VM_BUG_ON_PAGE` has fired. -/
  bug : Bool

namespace Zone

open Function Tally

variable {R : Type} [DecidableEq R]

def setFlags (z : Zone R) (page : PageId) (f : PageFlags) : Zone R :=
  { z with flags := update z.flags page f }

def setCount (z : Zone R) (page : PageId) (n : Nat) : Zone R :=
  { z with count := update z.count page n }

def setThread (z : Zone R) (r : R) (t : Reclaimer) : Zone R :=
  { z with threads := update z.threads r t }

def bugOn (z : Zone R) (b : Bool) : Zone R := { z with bug := z.bug || b }

/-- `add_page_to_lru_list`. -/
def addPageToLruList (z : Zone R) (page : PageId) (lru : LruList) : Zone R :=
  { z with
    lists := update z.lists lru (z.lists lru ++ [page])
    nrLru := update z.nrLru lru (z.nrLru lru + (z.flags page).hpageNrPages) }

/-- `del_page_from_lru_list`. -/
def delPageFromLruList (z : Zone R) (page : PageId) (lru : LruList) : Zone R :=
  { z with
    lists := update z.lists lru ((z.lists lru).erase page)
    nrLru := update z.nrLru lru (z.nrLru lru - (z.flags page).hpageNrPages) }

/-- A reference is dropped, and it may be the last. -/
def putPage (z : Zone R) (page : PageId) : Zone R :=
  { z.setCount page (z.count page - 1) with
    dying := if z.count page = 1 then page :: z.dying else z.dying }

/-! ### `isolate_lru_pages` -/

/-- `shrink_inactive_list` or `shrink_active_list` is called. -/
def start (z : Zone R) (r : R) (i : Isolation) : Option (Zone R) :=
  match z.threads r with
  | ⟨.idle, none⟩ =>
      some (z.setThread r ⟨.isolating { i with scan := 0, nrTaken := 0, dst := [] }, none⟩)
  | _ => none

/-- One turn of the loop. -/
def isolateLruPages (z : Zone R) (r : R) (i : Isolation) (t : IsolateTry) : Option (Zone R) :=
  let src := LruList.evictable i.file i.active
  match z.lists src with
  | [] => none
  | page :: rest =>
      if i.scan < i.nrToScan ∧ i.nrTaken < i.nrToScan then
        let f := z.flags page
        let z := z.bugOn !f.lru
        match isolateTest f (z.count page) i.sc.isolateMode t with
        | .ok =>
            let z := (z.setCount page (z.count page + 1)).setFlags page f.clearLRU
            some ({ z with lists := update z.lists src rest }.setThread r
              ⟨.isolating { i with
                scan := i.scan + 1
                nrTaken := i.nrTaken + f.hpageNrPages
                dst := i.dst ++ [page] }, none⟩)
        | .ebusy =>
            some ({ z with lists := update z.lists src (rest ++ [page]) }.setThread r
              ⟨.isolating { i with scan := i.scan + 1 }, none⟩)
        | .einval => some (z.bugOn true)
      else none

/-- What the caller does after the loop. -/
def isolated (z : Zone R) (r : R) (i : Isolation) : Option (Zone R) :=
  let src := LruList.evictable i.file i.active
  if i.scan < i.nrToScan ∧ i.nrTaken < i.nrToScan ∧ z.lists src ≠ [] then none
  else
    let z := { z with
      nrLru := update z.nrLru src (z.nrLru src - i.nrTaken)
      nrIsolated := update z.nrIsolated i.file (z.nrIsolated i.file + i.nrTaken) }
    if i.active then
      some ({ z with
        recentScanned := update z.recentScanned i.file
          (z.recentScanned i.file + i.nrTaken) }.setThread r
        ⟨.sorting i.file i.nrTaken 0 i.dst [] [], none⟩)
    else if i.nrTaken = 0 then some (z.setThread r ⟨.idle, none⟩)
    else some (z.setThread r ⟨.shrinking i.file i.nrTaken i.sc
      ⟨z.reclaim, i.dst, [], [], {}, []⟩, none⟩)

/-! ### `shrink_page_list` -/

/-- What a turn of `shrink_page_list` does to its page. -/
def settle (z : Zone R) (page : PageId) : Label → Zone R
  | .keep | .keepLocked => z.bugOn ((z.flags page).lru || (z.flags page).unevictable)
  | .activateLocked =>
      (z.bugOn ((z.flags page).active || (z.flags page).lru || (z.flags page).unevictable)).setFlags
        page (z.flags page).setActive
  | .freeIt => { z.setCount page 0 with cached := update z.cached page false }
  | .gone => z.setCount page (z.count page - 1)
  | .cullMlocked | .again => z

/-- The answers about the references to the page are true: `__remove_mapping`
takes it out of its mapping only with a `_count` of 2, and
`put_page_testzero` is asked about the last reference. -/
def Answers (z : Zone R) (page : PageId) (t : PageTry) : Prop :=
  (t.removeMapping = true → z.cached page = true ∧ z.count page = 2) ∧
    (t.putTestzero = true ↔ z.count page = 1)

instance (z : Zone R) (page : PageId) (t : PageTry) : Decidable (z.Answers page t) :=
  inferInstanceAs (Decidable (_ ∧ _))

/-- One turn of the loop. -/
def shrinkPageList (z : Zone R) (r : R) (file : Bool) (nrTaken : Nat) (sc : ScanControl)
    (run : ShrinkRun) (t : PageTry) : Option (Zone R) :=
  match run.pageList with
  | [] => none
  | page :: rest =>
      if z.Answers page t then
        let run := { run with reclaim := z.reclaim }
        let label := (shrinkPage sc z.reclaim t run.counters).2.1
        let run := run.turn sc t page rest
        let z := z.bugOn (t.trylock && (z.flags page).active)
        some ({ z.settle page label with reclaim := run.reclaim }.setThread r
          ⟨.shrinking file nrTaken sc run, none⟩)
      else none

/-- The end of `shrink_page_list`, and of the way to `putback_inactive_pages`. -/
def shrunk (z : Zone R) (r : R) (file : Bool) (nrTaken : Nat) (run : ShrinkRun) :
    Option (Zone R) :=
  match run.pageList with
  | [] =>
      some ({ z with
        free := z.free ++ run.freePages
        recentScanned := update z.recentScanned file (z.recentScanned file + nrTaken) }.setThread r
        ⟨.puttingBack file nrTaken run.retPages.reverse [], none⟩)
  | _ :: _ => none

/-! ### `putback_inactive_pages` -/

/-- The page goes to the pages to free. -/
def lastPut (z : Zone R) (page : PageId) : Bool :=
  z.count page = 1 && !(z.flags page).compound

/-- `put_page_testzero` under `lru_lock`, and what follows when it is the
last reference; a compound page is freed at once. -/
def putPageTestzero (z : Zone R) (page : PageId) (lru : LruList) : Zone R :=
  if z.count page = 1 then
    let f := z.flags page
    let z := ((z.setCount page 0).setFlags page f.clearLRU.clearActive).delPageFromLruList page lru
    if f.compound then { z with free := z.free ++ [page] } else z
  else z.setCount page (z.count page - 1)

/-- `recent_rotated`, for a page that goes to an active list. -/
def rotate (z : Zone R) (f : PageFlags) : Zone R :=
  match f.pageLru with
  | .evictable file true =>
      { z with
        recentRotated := update z.recentRotated file (z.recentRotated file + f.hpageNrPages) }
  | _ => z

/-- One turn of the loop; `evictable` is `page_evictable`. -/
def putbackInactivePages (z : Zone R) (r : R) (file : Bool) (nrTaken : Nat)
    (pages toFree : List PageId) (evictable : Bool) : Option (Zone R) :=
  match pages with
  | [] => none
  | page :: rest =>
      let f := z.flags page
      let z := z.bugOn f.lru
      if evictable then
        let toFree := if z.lastPut page then page :: toFree else toFree
        let z := (z.setFlags page f.setLRU).addPageToLruList page f.pageLru
        some (((z.rotate f).putPageTestzero page f.pageLru).setThread r
          ⟨.puttingBack file nrTaken rest toFree, none⟩)
      else some (z.setThread r ⟨.puttingBack file nrTaken rest toFree, some (page, .redo)⟩)

/-- After the loop. -/
def putbackDone (z : Zone R) (r : R) (file : Bool) (nrTaken : Nat)
    (pages toFree : List PageId) : Option (Zone R) :=
  match pages with
  | [] => some ({ z with
      nrIsolated := update z.nrIsolated file (z.nrIsolated file - nrTaken) }.setThread r
      ⟨.releasing toFree, none⟩)
  | _ :: _ => none

/-! ### `shrink_active_list` -/

/-- One turn of its loop. `exec` is that of the `vm_flags` of
`page_referenced`. -/
def shrinkActiveList (z : Zone R) (r : R) (file : Bool) (nrTaken nrRotated : Nat)
    (hold act inact : List PageId) (evictable referenced exec : Bool) : Option (Zone R) :=
  match hold with
  | [] => none
  | page :: rest =>
      let f := z.flags page
      if evictable then
        let nrRotated := if referenced then nrRotated + f.hpageNrPages else nrRotated
        if referenced && exec && f.file then
          some (z.setThread r ⟨.sorting file nrTaken nrRotated rest (act ++ [page]) inact, none⟩)
        else
          some ((z.setFlags page f.clearActive).setThread r
            ⟨.sorting file nrTaken nrRotated rest act (inact ++ [page]), none⟩)
      else some (z.setThread r ⟨.sorting file nrTaken nrRotated rest act inact, some (page, .redo)⟩)

/-- After the loop. -/
def sorted (z : Zone R) (r : R) (file : Bool) (nrTaken nrRotated : Nat)
    (hold act inact : List PageId) : Option (Zone R) :=
  match hold with
  | [] => some ({ z with
      recentRotated := update z.recentRotated file (z.recentRotated file + nrRotated) }.setThread r
      ⟨.moving file nrTaken true 0 act inact [], none⟩)
  | _ :: _ => none

/-- One turn of the loop of `move_active_pages_to_lru`. -/
def moveActivePagesToLru (z : Zone R) (r : R) (file : Bool) (nrTaken : Nat) (active : Bool)
    (pgmoved : Nat) (list next toFree : List PageId) : Option (Zone R) :=
  match list with
  | [] => none
  | page :: rest =>
      let lru := LruList.evictable file active
      let f := z.flags page
      let toFree := if z.lastPut page then page :: toFree else toFree
      let z := (z.bugOn f.lru).setFlags page f.setLRU
      let z := { z with lists := update z.lists lru (z.lists lru ++ [page]) }
      some ((z.putPageTestzero page lru).setThread r
        ⟨.moving file nrTaken active (pgmoved + f.hpageNrPages) rest next toFree, none⟩)

/-- After its loop: the second call, or the end of the first. -/
def moveDone (z : Zone R) (r : R) (file : Bool) (nrTaken : Nat) (active : Bool) (pgmoved : Nat)
    (list next toFree : List PageId) : Option (Zone R) :=
  match list with
  | [] =>
      let lru := LruList.evictable file active
      let z := { z with nrLru := update z.nrLru lru (z.nrLru lru + pgmoved) }
      if active then some (z.setThread r ⟨.moving file nrTaken false 0 next [] toFree, none⟩)
      else some ({ z with
        nrIsolated := update z.nrIsolated file (z.nrIsolated file - nrTaken) }.setThread r
        ⟨.releasing toFree, none⟩)
  | _ :: _ => none

/-! ### `putback_lru_page` and `isolate_lru_page` -/

/-- From `redo` on: `lru_cache_add` or `add_page_to_unevictable_list`. -/
def putbackLruPage (z : Zone R) (r : R) (job : Job) (page : PageId) (evictable : Bool) : Zone R :=
  let f := z.flags page
  let z := z.bugOn f.lru
  if evictable then
    { (z.setFlags page f.clearUnevictable).setCount page (z.count page + 1) with
      pagevec := z.pagevec ++ [page] }.setThread r ⟨job, some (page, .drop)⟩
  else
    ((z.setFlags page f.clearActive.setUnevictable.setLRU).addPageToLruList page
      .unevictable).setThread r ⟨job, some (page, .recheck)⟩

/-- The second test of `page_evictable`; `isolate_lru_page` takes the page
off its list again, if it is on one, and takes a reference that is dropped
at once. -/
def recheckLruPage (z : Zone R) (r : R) (job : Job) (page : PageId) (evictable : Bool) : Zone R :=
  let f := z.flags page
  if evictable && f.lru then
    ((z.setFlags page f.clearLRU).delPageFromLruList page f.pageLru).setThread r
      ⟨job, some (page, .redo)⟩
  else z.setThread r ⟨job, some (page, .drop)⟩

/-- `isolate_lru_page`, by a thread that has a reference. -/
def isolateLruPage (z : Zone R) (r : R) (page : PageId) : Zone R :=
  let f := z.flags page
  (((z.setFlags page f.clearLRU).setCount page (z.count page + 1)).delPageFromLruList page
    f.pageLru).setThread r ⟨.holding page, none⟩

/-! ### The steps -/

/-- What a turn of a loop is answered. -/
inductive Choice
  | isolate (t : IsolateTry)
  | turn (t : PageTry)
  | putback (evictable : Bool)
  | sort (evictable referenced exec : Bool)
  | move
  /-- The loop is over. -/
  | leave

/-- The labels: whose turn it is. -/
inductive LruLabel (R : Type)
  | start (r : R) (i : Isolation)
  | run (r : R) (c : Choice)
  /-- In `putback_lru_page`; `page_evictable` is asked twice. -/
  | putback (r : R) (evictable : Bool)
  | isolatePage (r : R) (page : PageId)
  /-- The others take a reference, drop one, add the page to the page
  cache, or take it out. -/
  | get (page : PageId)
  | put (page : PageId)
  | cacheAdd (page : PageId)
  | cacheDel (page : PageId)
  /-- The `put_page` that was the last takes the page off its list. -/
  | release (page : PageId)
  /-- `lru_cache_add`, and the drain of its pagevec. -/
  | lruCacheAdd (page : PageId)
  | drain (page : PageId)
  | alloc (page : PageId) (f : PageFlags)

/-- A turn of the loop the thread is in, or what stands behind it. -/
def runJob (z : Zone R) (r : R) : Job → Choice → Option (Zone R)
  | .isolating i, .isolate t => z.isolateLruPages r i t
  | .isolating i, .leave => z.isolated r i
  | .shrinking file nrTaken sc run, .turn t => z.shrinkPageList r file nrTaken sc run t
  | .shrinking file nrTaken _ run, .leave => z.shrunk r file nrTaken run
  | .puttingBack file nrTaken pages toFree, .putback e =>
      z.putbackInactivePages r file nrTaken pages toFree e
  | .puttingBack file nrTaken pages toFree, .leave => z.putbackDone r file nrTaken pages toFree
  | .sorting file nrTaken nrRotated hold act inact, .sort e referenced exec =>
      z.shrinkActiveList r file nrTaken nrRotated hold act inact e referenced exec
  | .sorting file nrTaken nrRotated hold act inact, .leave =>
      z.sorted r file nrTaken nrRotated hold act inact
  | .moving file nrTaken active pgmoved list next toFree, .move =>
      z.moveActivePagesToLru r file nrTaken active pgmoved list next toFree
  | .moving file nrTaken active pgmoved list next toFree, .leave =>
      z.moveDone r file nrTaken active pgmoved list next toFree
  -- free_hot_cold_page_list
  | .releasing toFree, .leave =>
      some ({ z with free := z.free ++ toFree }.setThread r ⟨.idle, none⟩)
  -- the caller of isolate_lru_page calls putback_lru_page
  | .holding page, .leave => some (z.setThread r ⟨.idle, some (page, .redo)⟩)
  | _, _ => none

/-- A step of `putback_lru_page`. -/
def runPutback (z : Zone R) (r : R) (job : Job) (page : PageId) (evictable : Bool) :
    PutbackPc → Zone R
  | .redo => z.putbackLruPage r job page evictable
  | .recheck => z.recheckLruPage r job page evictable
  | .drop => (z.putPage page).setThread r ⟨job, none⟩

/-- `__page_cache_release`, and the page goes to the allocator. -/
def releasePage (z : Zone R) (page : PageId) : Zone R :=
  let f := z.flags page
  let z := { z with dying := z.dying.erase page, free := z.free ++ [page] }
  if f.lru then
    (z.setFlags page f.clearLRU.clearActive.clearUnevictable).delPageFromLruList page f.pageLru
  else z

/-- The drain of a pagevec: the page comes onto its list, and the reference
of the pagevec is dropped. -/
def drainPage (z : Zone R) (page : PageId) : Zone R :=
  let f := z.flags page
  let z := { z.bugOn f.lru with pagevec := z.pagevec.erase page }
  ((z.setFlags page f.setLRU).addPageToLruList page f.pageLru).putPage page

variable [Fintype R]

/-- How many references to the page the threads have, on how many lists of
their own they have it, and on how many lists of pages to free. -/
def refs (z : Zone R) (page : PageId) : Nat := tally (fun t => t.refs.count page) z.threads

def own (z : Zone R) (page : PageId) : Nat := tally (fun t => t.own.count page) z.threads

def dead (z : Zone R) (page : PageId) : Nat := tally (fun t => t.job.dead.count page) z.threads

/-- The page gets another reference of the others. -/
def getPage (z : Zone R) (page : PageId) : Zone R :=
  { z.setCount page (z.count page + 1) with
    others := update z.others page (z.others page + 1) }

/-- One step. The others drop only references they have, and bring only
pages to `lru_cache_add` that are on no list. -/
def step (z : Zone R) : LruLabel R → Option (Zone R)
  | .start r i => z.start r i
  | .run r c =>
      match z.threads r with
      | ⟨job, none⟩ => z.runJob r job c
      | ⟨_, some _⟩ => none
  | .putback r e =>
      match z.threads r with
      | ⟨_, none⟩ => none
      | ⟨job, some (page, pc)⟩ => some (z.runPutback r job page e pc)
  | .isolatePage r page =>
      match z.threads r with
      | ⟨.idle, none⟩ =>
          if (z.flags page).lru = true ∧ 0 < z.others page then some (z.isolateLruPage r page)
          else none
      | _ => none
  -- get_page_unless_zero
  | .get page => if 0 < z.count page then some (z.getPage page) else none
  | .put page =>
      if 0 < z.others page then
        some { z.putPage page with others := update z.others page (z.others page - 1) }
      else none
  | .cacheAdd page =>
      if z.cached page = false ∧ 0 < z.others page then
        some { z.setCount page (z.count page + 1) with cached := update z.cached page true }
      else none
  -- who takes the page out gets the reference of its mapping
  | .cacheDel page =>
      if z.cached page = true then
        some { z with
          cached := update z.cached page false
          others := update z.others page (z.others page + 1) }
      else none
  | .release page => if page ∈ z.dying then some (z.releasePage page) else none
  | .lruCacheAdd page =>
      if (z.flags page).lru = false ∧ z.own page = 0 ∧ page ∉ z.pagevec ∧ 0 < z.others page then
        some { z.setCount page (z.count page + 1) with pagevec := z.pagevec ++ [page] }
      else none
  | .drain page => if page ∈ z.pagevec then some (z.drainPage page) else none
  | .alloc page f =>
      if page ∈ z.free then
        some { (z.setFlags page f.clearLRU.clearUnevictable).setCount page 1 with
          others := update z.others page 1
          free := z.free.erase page }
      else none

/-- Before anything is allocated: the allocator has the pages. -/
def boot (pages : List PageId) (v : Reclaim) : Zone R where
  flags := fun _ => {}
  count := fun _ => 0
  cached := fun _ => false
  others := fun _ => 0
  lists := fun _ => []
  nrLru := fun _ => 0
  nrIsolated := fun _ => 0
  recentScanned := fun _ => 0
  recentRotated := fun _ => 0
  pagevec := []
  dying := []
  free := pages
  reclaim := v
  threads := fun _ => {}
  bug := false

end Zone

end MegaVM
